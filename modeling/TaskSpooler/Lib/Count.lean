import Mathlib.Logic.Function.Basic
import Mathlib.Algebra.BigOperators.Group.List.Basic
import Mathlib.Algebra.Order.BigOperators.Group.List
import Mathlib.Algebra.Order.Ring.Int
import Mathlib.Data.List.Count
import Mathlib.Data.List.Nodup

/-!
# Sums and counts over a list under a point update

The counters of the program are sums over lists that are kept up to date by hand: one element
changes, and the counter is adjusted by the difference.  These lemmas say what the update of a
function at one point does to a sum over a list without duplicates, and to a count.
-/

namespace TaskSpooler

variable {ι : Type*} [DecidableEq ι] {l : List ι} {i : ι}

theorem sum_map_update_of_notMem (f : ι → ℤ) (v : ℤ) (h : i ∉ l) :
    (l.map (Function.update f i v)).sum = (l.map f).sum := by
  congr 1
  refine List.map_congr_left fun j hj => ?_
  have hne : j ≠ i := fun hji => h (hji ▸ hj)
  exact Function.update_of_ne hne _ _

theorem sum_map_update_of_mem (f : ι → ℤ) (v : ℤ) (hnd : l.Nodup) (h : i ∈ l) :
    (l.map (Function.update f i v)).sum = (l.map f).sum + (v - f i) := by
  induction l with
  | nil => simp at h
  | cons j l ih =>
    rw [List.nodup_cons] at hnd
    simp only [List.map_cons, List.sum_cons]
    by_cases hj : i = j
    · subst hj
      rw [sum_map_update_of_notMem f v hnd.1, Function.update_self]
      omega
    · have hmem : i ∈ l := by simpa [hj] using h
      rw [ih hnd.2 hmem, Function.update_of_ne (Ne.symm hj)]
      omega

/-- A sum grows at least by what one of its terms grows by. -/
theorem sum_map_add_le {α : Type*} {l : List α} {f g : α → ℤ} {a : α} (h : ∀ x ∈ l, f x ≤ g x)
    (ha : a ∈ l) : (l.map f).sum + (g a - f a) ≤ (l.map g).sum := by
  induction l with
  | nil => simp at ha
  | cons x l ih =>
    simp only [List.map_cons, List.sum_cons]
    have hx := h x List.mem_cons_self
    have hl : (l.map f).sum ≤ (l.map g).sum :=
      List.sum_le_sum fun y hy => h y (List.mem_cons_of_mem _ hy)
    obtain rfl | ha := List.mem_cons.1 ha
    · omega
    · have := ih (fun y hy => h y (List.mem_cons_of_mem _ hy)) ha
      omega

section Count

variable {M : Type*} (q : M → Bool)

theorem countP_update_of_notMem (f : ι → M) (v : M) (h : i ∉ l) :
    (l.countP fun j => q (Function.update f i v j)) = l.countP fun j => q (f j) := by
  refine List.countP_congr fun j hj => ?_
  have hne : j ≠ i := fun hji => h (hji ▸ hj)
  rw [Function.update_of_ne hne]

theorem countP_update_of_mem (f : ι → M) (v : M) (hnd : l.Nodup) (h : i ∈ l) :
    (l.countP fun j => q (Function.update f i v j)) + (if q (f i) then 1 else 0) =
      (l.countP fun j => q (f j)) + if q v then 1 else 0 := by
  induction l with
  | nil => simp at h
  | cons j l ih =>
    rw [List.nodup_cons] at hnd
    simp only [List.countP_cons]
    by_cases hj : i = j
    · subst hj
      rw [countP_update_of_notMem q f v hnd.1, Function.update_self]
      omega
    · have hmem : i ∈ l := by simpa [hj] using h
      have := ih hnd.2 hmem
      rw [Function.update_of_ne (Ne.symm hj)]
      omega

end Count

/-- A list from which one element has been taken out counts at most one less. -/
theorem countP_le_eraseP {α : Type*} (q p : α → Bool) (l : List α) :
    l.countP p ≤ (l.eraseP q).countP p + 1 := by
  induction l with
  | nil => simp
  | cons a l ih =>
    rw [List.eraseP_cons, List.countP_cons]
    cases q a with
    | true =>
      simp only [cond_true]
      split_ifs <;> omega
    | false =>
      simp only [cond_false, List.countP_cons]
      omega

end TaskSpooler
