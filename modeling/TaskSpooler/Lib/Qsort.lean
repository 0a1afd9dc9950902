import Mathlib.Data.List.Sort

/-!
# The C library's `qsort`

`qsort` returns a permutation that is ordered by the comparison function; the order of elements
that compare equal is unspecified.  A `Qsort` is any such function, so that what is proved of
code that calls `qsort` holds whichever permutation the library picks among ties.
`Qsort.insertion` is a stable one, for running the model on concrete data.
-/

namespace TaskSpooler

/-- A sorting function of the C library; `le a b` stands for `cmp(a, b) <= 0`. -/
structure Qsort where
  /-- The sorted array. -/
  sort : {α : Type} → (α → α → Bool) → List α → List α
  /-- It holds the same elements. -/
  perm : ∀ {α : Type} (le : α → α → Bool) (l : List α), (sort le l).Perm l
  /-- It is ordered, if the comparison is a total preorder. -/
  pairwise : ∀ {α : Type} (le : α → α → Bool) (l : List α),
    (∀ a b c, le a b = true → le b c = true → le a c = true) →
    (∀ a b, le a b = true ∨ le b a = true) → (sort le l).Pairwise fun a b => le a b = true

namespace Qsort

/-- The stable insertion sort. -/
def insertion : Qsort where
  sort le l := l.insertionSort fun a b => le a b = true
  perm _ l := l.perm_insertionSort _
  pairwise le l htrans htotal :=
    have : IsTrans _ (fun a b => le a b = true) := ⟨htrans⟩
    have : Std.Total (fun a b => le a b = true) := ⟨htotal⟩
    List.pairwise_insertionSort _ l

variable (Q : Qsort) {α : Type} {le : α → α → Bool} {l : List α}

@[simp] theorem mem_sort {a : α} : a ∈ Q.sort le l ↔ a ∈ l := (Q.perm le l).mem_iff

@[simp] theorem length_sort : (Q.sort le l).length = l.length := (Q.perm le l).length_eq

@[simp] theorem nodup_sort : (Q.sort le l).Nodup ↔ l.Nodup := (Q.perm le l).nodup_iff

end Qsort

end TaskSpooler
