import Mathlib.Data.List.Basic
import Mathlib.Tactic.TypeStar

/-!
# Cells of memory

A block of memory is a list of cells of one size, `none` where nothing has been written yet.  To
read or write outside the block is `none` as well.  An array that is filled from the front is
`Cells.filled l rest`: its items and the cells behind them.  Each operation on it is an operation on
the list of items, with the last item left behind where one is taken out.
-/

namespace TaskSpooler

variable {β : Type*}

/-- The cells of a block. -/
abbrev Cells (β : Type*) := List (Option β)

namespace Cells

/-- Read a cell. -/
def load (cells : Cells β) (i : ℕ) : Option β := cells[i]?.join

/-- Write a cell. -/
def store (c : Cells β) (i : ℕ) (x : β) : Option (Cells β) :=
  if i < c.length then some (c.set i (some x)) else none

/-- Copy `n` cells; the two ranges may overlap. -/
def move (c : Cells β) (dst src n : ℕ) : Option (Cells β) :=
  if dst + n ≤ c.length ∧ src + n ≤ c.length then
    some (c.take dst ++ ((c.drop src).take n ++ c.drop (dst + n)))
  else none

/-- The block with `n` cells. -/
def resize (c : Cells β) (n : ℕ) : Cells β := c.take n ++ List.replicate (n - c.length) none

/-- An array with some items at its front. -/
def filled (l : List β) (rest : Cells β) : Cells β := l.map some ++ rest

variable {l : List β} {rest : Cells β} {c : Option β} {x : β} {i n : ℕ}

@[simp] theorem length_filled : (filled l rest).length = l.length + rest.length := by
  simp [filled]

@[simp] theorem length_resize {c : Cells β} : (resize c n).length = n := by
  simp only [resize, List.length_append, List.length_take, List.length_replicate]
  omega

theorem load_filled (h : i < l.length) : load (filled l rest) i = l[i]? := by
  have hmap : i < (l.map some).length := by simpa using h
  rw [load, filled, List.getElem?_append_left hmap, List.getElem?_map, List.getElem?_eq_getElem h]
  rfl

theorem store_filled (h : i < l.length) :
    store (filled l rest) i x = some (filled (l.set i x) rest) := by
  have hmap : i < (l.map some).length := by simpa using h
  rw [store, if_pos (by simp; omega), filled, filled, List.set_append_left _ _ hmap, List.map_set]

/-- An item is put behind the others. -/
theorem store_end : store (filled l (c :: rest)) l.length x = some (filled (l ++ [x]) rest) := by
  have hmap : (l.map some).length ≤ l.length := by simp
  rw [store, if_pos (by simp), filled, filled, List.set_append_right _ _ hmap]
  simp

theorem insertIdx_length_append (a b : List β) : (a ++ b).insertIdx a.length x = a ++ x :: b := by
  induction a with
  | nil => rfl
  | cons y a ih => rw [List.cons_append, List.length_cons, List.insertIdx_succ_cons, ih]; rfl

theorem eraseIdx_length_append (a b : List β) (y : β) :
    (a ++ y :: b).eraseIdx a.length = a ++ b := by
  rw [List.eraseIdx_append_of_length_le (Nat.le_refl _), Nat.sub_self, List.eraseIdx_cons_zero]

/-- An item is put in front of those from `i` on, which move up. -/
theorem insert_filled (h : i ≤ l.length) :
    (move (filled l (c :: rest)) (i + 1) i (l.length - i)).bind (store · i x) =
      some (filled (l.insertIdx i x) rest) := by
  obtain ⟨a, b, rfl, rfl⟩ : ∃ a b, l = a ++ b ∧ i = a.length :=
    ⟨l.take i, l.drop i, (List.take_append_drop i l).symm, by simp [h]⟩
  have hn : (a ++ b).length - a.length = b.length := by simp
  have hcells : filled (a ++ b) (c :: rest) = a.map some ++ (b.map some ++ c :: rest) := by
    simp [filled]
  -- what stood at the front of `b` is in the cell that is written
  obtain ⟨d, t, hd⟩ : ∃ d t, b.map some ++ c :: rest = d :: t :=
    List.exists_cons_of_ne_nil (by simp)
  have hmoved : move (filled (a ++ b) (c :: rest)) (a.length + 1) a.length b.length =
      some (a.map some ++ d :: (b.map some ++ rest)) := by
    have htake : (a.map some ++ d :: t).take (a.length + 1) = a.map some ++ [d] := by
      rw [List.take_append, List.take_of_length_le (by simp), List.length_map,
        Nat.add_sub_cancel_left]
      rfl
    have hmid : ((a.map some ++ (b.map some ++ c :: rest)).drop a.length).take b.length =
        b.map some := by
      rw [List.drop_left' (by simp), List.take_left' (by simp)]
    have hend : (a.map some ++ (b.map some ++ c :: rest)).drop (a.length + 1 + b.length) = rest := by
      have hone : a.length + 1 + b.length - a.length - b.length = 1 := by omega
      rw [List.drop_append, List.drop_of_length_le (by simp; omega), List.drop_append,
        List.drop_of_length_le (by simp; omega), List.length_map, List.length_map, hone]
      rfl
    rw [move, if_pos (by simp; omega), hcells, hmid, hend, hd, htake]
    simp
  rw [hn, hmoved, Option.bind_some, store, if_pos (by simp), insertIdx_length_append,
    List.set_append_right _ _ (by simp)]
  simp [filled]

theorem drop_length_cons (y : β) (b : List β) :
    (y :: b).drop b.length = (y :: b).getLast?.toList := by
  induction b generalizing y with
  | nil => rfl
  | cons z b ih => rw [List.length_cons, List.drop_succ_cons, ih, List.getLast?_cons_cons]

/-- The item at `i` is taken out, and those behind it move down; the last one stays where it was. -/
theorem erase_filled (h : i < l.length) :
    move (filled l rest) i (i + 1) (l.length - i - 1) =
      some (filled (l.eraseIdx i) (l.getLast? :: rest)) := by
  obtain ⟨a, y, b, rfl, rfl⟩ : ∃ a y b, l = a ++ y :: b ∧ i = a.length :=
    ⟨l.take i, l[i], l.drop (i + 1), by simp, by simp; omega⟩
  have hn : (a ++ y :: b).length - a.length - 1 = b.length := by simp
  have hcells : filled (a ++ y :: b) rest = a.map some ++ (some y :: b.map some ++ rest) := by
    simp [filled]
  have hmid : ((a.map some ++ (some y :: b.map some ++ rest)).drop (a.length + 1)).take b.length =
      b.map some := by
    rw [List.drop_append, List.drop_of_length_le (by simp)]
    simp [List.take_left' (List.length_map (some : β → Option β))]
  have hend : (a.map some ++ (some y :: b.map some ++ rest)).drop (a.length + b.length) =
      (a ++ y :: b).getLast? :: rest := by
    have hlast : (a ++ y :: b).getLast? = (y :: b).getLast? := by
      rw [List.getLast?_append, List.getLast?_eq_some_getLast (List.cons_ne_nil y b)]
      rfl
    have hdrop : (some y :: b.map some).drop b.length = [(y :: b).getLast?] := by
      rw [← List.map_cons, ← List.map_drop, drop_length_cons]
      cases hw : (y :: b).getLast? with
      | none => simp at hw
      | some w => rfl
    rw [List.drop_append, List.drop_of_length_le (by simp), List.length_map,
      Nat.add_sub_cancel_left, List.nil_append, List.drop_append_of_le_length (by simp), hdrop, hlast]
    rfl
  rw [hn, move, if_pos (by simp; omega), hcells, hmid, hend, List.take_left' (by simp),
    eraseIdx_length_append]
  simp [filled]

/-- The items stay in a block that has room for them. -/
theorem resize_filled (h : l.length ≤ n) :
    resize (filled l rest) n = filled l (resize rest (n - l.length)) := by
  have hmap : (l.map some).length ≤ n := by simpa using h
  rw [resize, filled, filled, resize, List.take_append, List.take_of_length_le hmap]
  simp [Nat.sub_sub]

end Cells

end TaskSpooler
