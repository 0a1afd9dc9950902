import Mathlib.Data.List.Basic
import Mathlib.Data.List.Pairwise
import Mathlib.Logic.Equiv.Basic
import Mathlib.Order.Lattice

/-!
# Lists in the order of ranks

A table may give every key of a list a rank, so that the list can be rebuilt by sorting the ranks.
`Ranked rank l` says that exactly the keys in `l` have a rank and that they stand in increasing
order.  The lemmas say how a change of the list is mirrored by a change of the ranks.
-/

namespace TaskSpooler

variable {κ α : Type*} [LinearOrder α]

/-- The keys with a rank are those in the list, which is sorted by it. -/
structure Ranked (rank : κ → Option α) (l : List κ) : Prop where
  mem : ∀ k, (rank k).isSome ↔ k ∈ l
  sorted : l.Pairwise fun a b => ∀ x ∈ rank a, ∀ y ∈ rank b, x < y

namespace Ranked

variable {rank : κ → Option α} {l : List κ} {k : κ} {n : α}

theorem nil : Ranked (fun _ : κ => (none : Option α)) [] := ⟨by simp, List.Pairwise.nil⟩

theorem nodup (h : Ranked rank l) : l.Nodup := by
  refine h.sorted.imp_of_mem fun {a b} ha hb hlt heq => ?_
  obtain ⟨x, hx⟩ := Option.isSome_iff_exists.1 ((h.mem a).2 ha)
  subst heq
  exact lt_irrefl x (hlt x hx x hx)

theorem rank_eq_none (h : Ranked rank l) (hk : k ∉ l) : rank k = none := by
  rw [← h.mem, Bool.not_eq_true, Option.isSome_eq_false_iff, Option.isNone_iff_eq_none] at hk
  exact hk

theorem perm {l' : List κ} (h : Ranked rank l) (h' : Ranked rank l') : l.Perm l' := by
  refine (List.perm_ext_iff_of_nodup h.nodup h'.nodup).2 fun k => ?_
  rw [← h.mem, ← h'.mem]

/-- The ranks determine the list. -/
theorem unique {l' : List κ} (h : Ranked rank l) (h' : Ranked rank l') : l = l' := by
  refine (h.perm h').eq_of_pairwise (fun a b ha hb hab hba => ?_) h.sorted h'.sorted
  obtain ⟨x, hx⟩ := Option.isSome_iff_exists.1 ((h.mem a).2 ha)
  obtain ⟨y, hy⟩ := Option.isSome_iff_exists.1 ((h'.mem b).2 hb)
  exact absurd (hab x hx y hy) (hba y hy x hx).asymm

/-- Different keys have different ranks. -/
theorem inj {a b : κ} (h : Ranked rank l) (ha : rank a = some n) (hb : rank b = some n) : a = b := by
  have hne : l.Pairwise fun a b => ∀ x ∈ rank a, x ∉ rank b :=
    h.sorted.imp fun hab x hx hx' => lt_irrefl x (hab x hx x hx')
  have hsymm : Std.Symm fun a b : κ => ∀ x ∈ rank a, x ∉ rank b :=
    ⟨fun a b hab x hx hx' => hab x hx' hx⟩
  have hmem : ∀ {k}, rank k = some n → k ∈ l := fun hk => (h.mem _).1 (by rw [hk]; rfl)
  by_contra hab
  exact hne.forall (hmem ha) (hmem hb) hab n ha hb

section DecidableEq

variable [DecidableEq κ]

/-- A key that is not in the list can be left out. -/
theorem filter_ne_of_notMem (hk : k ∉ l) : l.filter (· ≠ k) = l :=
  List.filter_eq_self.2 fun _ ha => decide_eq_true fun h => hk (h ▸ ha)

/-- A key is deleted. -/
theorem delete (h : Ranked rank l) :
    Ranked (fun j => if j = k then none else rank j) (l.filter (· ≠ k)) := by
  refine ⟨fun j => ?_, ?_⟩
  · rw [List.mem_filter]
    split_ifs with hj
    · simp [hj]
    · simp [h.mem, hj]
  · refine (h.sorted.filter _).imp fun {a b} hab x hx y hy => ?_
    split_ifs at hx hy
    · simp at hx
    · simp at hx
    · simp at hy
    · exact hab x hx y hy

/-- A key becomes the last one, with a rank above all others. -/
theorem last (h : Ranked rank l) (hn : ∀ j x, rank j = some x → x < n) :
    Ranked (fun j => if j = k then some n else rank j) (l.filter (· ≠ k) ++ [k]) := by
  refine ⟨fun j => ?_, ?_⟩
  · rw [List.mem_append, List.mem_filter, List.mem_singleton]
    split_ifs with hj
    · simp [hj]
    · simp [h.mem, hj]
  · rw [List.pairwise_append]
    refine ⟨(h.sorted.filter _).imp_of_mem fun {a b} ha hb hab x hx y hy => ?_,
      List.pairwise_singleton _ _, fun a ha b hb x hx y hy => ?_⟩
    · have ha' : a ≠ k := by simpa using (List.mem_filter.1 ha).2
      have hb' : b ≠ k := by simpa using (List.mem_filter.1 hb).2
      rw [if_neg ha'] at hx
      rw [if_neg hb'] at hy
      exact hab x hx y hy
    · have ha' : a ≠ k := by simpa using (List.mem_filter.1 ha).2
      obtain rfl := List.mem_singleton.1 hb
      rw [if_neg ha'] at hx
      rw [if_pos rfl] at hy
      cases hy
      exact hn a x hx

/-- A key becomes the first one, with a rank below all others. -/
theorem first (h : Ranked rank l) (hn : ∀ j x, rank j = some x → n < x) :
    Ranked (fun j => if j = k then some n else rank j) (k :: l.filter (· ≠ k)) := by
  refine ⟨fun j => ?_, ?_⟩
  · rw [List.mem_cons, List.mem_filter]
    split_ifs with hj
    · simp [hj]
    · simp [h.mem, hj]
  · rw [List.pairwise_cons]
    refine ⟨fun b hb x hx y hy => ?_,
      (h.sorted.filter _).imp_of_mem fun {a b} ha hb hab x hx y hy => ?_⟩
    · have hb' : b ≠ k := by simpa using (List.mem_filter.1 hb).2
      rw [if_pos rfl] at hx
      rw [if_neg hb'] at hy
      cases hx
      exact hn b y hy
    · have ha' : a ≠ k := by simpa using (List.mem_filter.1 ha).2
      have hb' : b ≠ k := by simpa using (List.mem_filter.1 hb).2
      rw [if_neg ha'] at hx
      rw [if_neg hb'] at hy
      exact hab x hx y hy

/-- Two keys change their places. -/
theorem swap (h : Ranked rank l) (a b : κ) :
    Ranked (fun j => rank (Equiv.swap a b j)) (l.map (Equiv.swap a b)) := by
  refine ⟨fun j => ?_, ?_⟩
  · rw [h.mem, List.mem_map]
    constructor
    · exact fun hj => ⟨_, hj, Equiv.swap_apply_self a b j⟩
    · rintro ⟨x, hx, rfl⟩
      rwa [Equiv.swap_apply_self]
  · rw [List.pairwise_map]
    exact h.sorted.imp fun {x y} hxy => by simpa only [Equiv.swap_apply_self] using hxy

/-- Exchanging the entries at two places. -/
theorem set_set_eq_map_swap (hnd : l.Nodup) {i j : ℕ} {a b : κ} (hi : l[i]? = some a)
    (hj : l[j]? = some b) : (l.set i b).set j a = l.map (Equiv.swap a b) := by
  refine List.ext_getElem? fun m => ?_
  rw [List.getElem?_set, List.getElem?_set, List.getElem?_map, List.length_set]
  have hlt : ∀ {i : ℕ} {a : κ}, l[i]? = some a → i < l.length := fun h =>
    (List.getElem?_eq_some_iff.1 h).1
  by_cases hmj : j = m
  · subst hmj
    rw [if_pos rfl, if_pos (hlt hj), hj, Option.map_some, Equiv.swap_apply_right]
  · rw [if_neg hmj]
    by_cases hmi : i = m
    · subst hmi
      rw [if_pos rfl, if_pos (hlt hi), hi, Option.map_some, Equiv.swap_apply_left]
    · rw [if_neg hmi]
      cases hm : l[m]? with
      | none => rfl
      | some c =>
        -- the other entries are different from the two
        have hne : ∀ {i : ℕ} {a : κ}, l[i]? = some a → i ≠ m → c ≠ a := by
          rintro i a hi hne rfl
          exact hne ((List.getElem?_inj (hlt hi) hnd).1 (hi.trans hm.symm))
        rw [Option.map_some, Equiv.swap_apply_of_ne_of_ne (hne hi hmi) (hne hj hmj)]

end DecidableEq

end Ranked

end TaskSpooler
