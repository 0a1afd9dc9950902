import Mathlib.Data.List.Nodup
import Mathlib.Data.List.Infix
import Mathlib.Tactic.TypeStar

/-!
# Polling a table that shrinks

A loop goes once through the places of a table, from the first to the last, and visits the entries
that are ready.  A visit may remove entries anywhere in the table, also the visited one and those in
front of it; the entries behind move up, and the loop goes on with the next place.  So an entry that
moves up into a place the loop has left behind is not visited in this pass.

* `Pass.visited_sublist`: a pass visits the entries in the order of the table, and each of them at
  most once.
* `Pass.advances`: an entry that is ready and stays in the table is visited, or it has moved up.
* `Waits.le_idxOf`: if new entries come in at the end only, an entry that is ready in every pass is
  left out at most as many times as there are entries in front of it.
-/

namespace TaskSpooler

namespace Polling

variable {α : Type*}

/-- `Pass ready i l r l'`: the loop is at the place `i` of the table `l`; from there on it visits the
entries `r`, and `l'` is the table at the end. -/
inductive Pass (ready : α → Prop) : ℕ → List α → List α → List α → Prop
  | done {i : ℕ} {l : List α} : l.length ≤ i → Pass ready i l [] l
  | skip {i : ℕ} {l r l' : List α} (h : i < l.length) : ¬ready l[i] → Pass ready (i + 1) l r l' →
      Pass ready i l r l'
  | visit {i : ℕ} {l l₁ r l' : List α} (h : i < l.length) : ready l[i] → l₁.Sublist l →
      Pass ready (i + 1) l₁ r l' → Pass ready i l (l[i] :: r) l'

section Order

variable [BEq α] [LawfulBEq α] {c : α} {l l' : List α}

/-- An entry keeps its place or moves up when others are removed. -/
theorem idxOf_le_of_sublist (h : l'.Sublist l) (hnd : l.Nodup) (hc : c ∈ l') :
    l'.idxOf c ≤ l.idxOf c := by
  induction h with
  | slnil => exact absurd hc List.not_mem_nil
  | @cons l' l a hsub ih =>
    obtain ⟨ha, hnd⟩ := List.nodup_cons.1 hnd
    have hne : a ≠ c := by
      rintro rfl
      exact ha (hsub.subset hc)
    rw [List.idxOf_cons_ne _ hne]
    exact (ih hnd hc).trans (Nat.le_succ _)
  | @cons_cons l' l a hsub ih =>
    by_cases hac : a = c
    · rw [List.idxOf_cons_eq _ hac]
      exact Nat.zero_le _
    · rw [List.idxOf_cons_ne _ hac, List.idxOf_cons_ne _ hac]
      have hc' : c ∈ l' := by
        obtain rfl | hc := List.mem_cons.1 hc
        · exact absurd rfl hac
        · exact hc
      exact Nat.succ_le_succ (ih (List.nodup_cons.1 hnd).2 hc')

end Order

namespace Pass

variable {ready : α → Prop} {i : ℕ} {l r l' : List α}

/-- A pass only removes entries. -/
theorem sublist (h : Pass ready i l r l') : l'.Sublist l := by
  induction h with
  | done _ => exact .refl _
  | skip _ _ _ ih => exact ih
  | visit _ _ hsub _ ih => exact ih.trans hsub

/-- **A pass visits the entries in the order of the table.** -/
theorem visited_sublist (h : Pass ready i l r l') : r.Sublist (l.drop i) := by
  induction h with
  | done _ => exact List.nil_sublist _
  | skip h _ _ ih =>
    rw [List.drop_eq_getElem_cons h]
    exact ih.cons _
  | visit h _ hsub _ ih =>
    rw [List.drop_eq_getElem_cons h]
    exact (ih.trans (hsub.drop _)).cons_cons _

theorem ready_of_mem {c : α} (h : Pass ready i l r l') (hc : c ∈ r) : ready c := by
  induction h with
  | done _ => exact absurd hc List.not_mem_nil
  | skip _ _ _ ih => exact ih hc
  | visit _ hready _ _ ih =>
    obtain rfl | hc := List.mem_cons.1 hc
    · exact hready
    · exact ih hc

/-- **An entry that is ready and stays is visited, or it has moved up.** -/
theorem advances [BEq α] [LawfulBEq α] {c : α} (h : Pass ready i l r l') (hnd : l.Nodup) (hc : c ∈ l')
    (hready : ready c) (hnot : c ∉ r) (hi : i ≤ l.idxOf c) : l'.idxOf c < l.idxOf c := by
  induction h with
  | done hlen => exact absurd (hi.trans_lt (List.idxOf_lt_length_of_mem hc)) (by omega)
  | @skip i l r l' h hskip hrest ih =>
    have hne : i ≠ l.idxOf c := by
      rintro rfl
      exact hskip (by rwa [List.getElem_idxOf])
    exact ih hnd hc hnot (by omega)
  | @visit i l l₁ r l' h _ hsub hrest ih =>
    have hne : i ≠ l.idxOf c := by
      rintro rfl
      exact hnot (by rw [List.getElem_idxOf]; exact List.mem_cons_self)
    have hc₁ : c ∈ l₁ := hrest.sublist.subset hc
    have hle : l₁.idxOf c ≤ l.idxOf c := idxOf_le_of_sublist hsub hnd hc₁
    have hnd₁ : l₁.Nodup := hnd.sublist hsub
    have hnot₁ : c ∉ r := fun hr => hnot (List.mem_cons_of_mem _ hr)
    by_cases hplace : i + 1 ≤ l₁.idxOf c
    · exact (ih hnd₁ hc hnot₁ hplace).trans_le hle
    · -- the entry has moved up behind the loop
      have hend : l'.idxOf c ≤ l₁.idxOf c := idxOf_le_of_sublist hrest.sublist hnd₁ hc
      omega

end Pass

/-! ### Pass after pass -/

/-- `Waits c n l l'`: in each of the `n` passes from the table `l` to the table `l'` the entry `c` is
ready, is not visited, and stays.  Before a pass entries may come in at the end, and after it others
may go. -/
inductive Waits (c : α) : ℕ → List α → List α → Prop
  | start {l : List α} : Waits c 0 l l
  | next {n : ℕ} {l l₁ new r l₂ l₃ : List α} {ready : α → Prop} : Waits c n l l₁ →
      (l₁ ++ new).Nodup → Pass ready 0 (l₁ ++ new) r l₂ → ready c → c ∉ r → l₃.Sublist l₂ → c ∈ l₃ →
      Waits c (n + 1) l l₃

/-- **No entry starves**: it is left out at most as many times as there are entries in front of
it. -/
theorem Waits.le_idxOf [BEq α] [LawfulBEq α] {c : α} {n : ℕ} {l l' : List α} (h : Waits c n l l')
    (hc : c ∈ l) : c ∈ l' ∧ n + l'.idxOf c ≤ l.idxOf c := by
  induction h with
  | start => exact ⟨hc, (Nat.zero_add _).le⟩
  | next _ hnd hpass hready hnot hsub hc₃ ih =>
    obtain ⟨hc₁, hle⟩ := ih hc
    have hlt := hpass.advances hnd (hsub.subset hc₃) hready hnot (Nat.zero_le _)
    rw [List.idxOf_append_of_mem hc₁] at hlt
    have hstay := idxOf_le_of_sublist hsub (hnd.sublist hpass.sublist) hc₃
    exact ⟨hc₃, by omega⟩

end Polling

end TaskSpooler
