import Mathlib.Data.List.Pairwise
import Mathlib.Data.List.Infix
import Mathlib.Tactic.SplitIfs

/-!
# Lists of those who wait

An entry of a waiting list is a client and what it waits for.  Everyone who waits for `k` is served
by visiting the entries for `k`, and for each of them the first entry of its client is removed
(`served`).  That is the entry which is visited, unless the client waits for something else before.

So an entry for `k` remains exactly if some client waits for something else before it waits for `k`
(`exists_served_iff`); otherwise the entries for `k` go and the others stay (`mem_served`).
-/

namespace TaskSpooler

namespace Waiting

variable {α β γ : Type*}

/-! ### A list that begins with all elements of a kind -/

section Head

variable {p : γ → Bool} {l : List γ}

theorem drop_countP (h : l.Pairwise fun a b => p b → p a) :
    l.drop (l.countP p) = l.filter fun a => !p a := by
  induction l with
  | nil => rfl
  | cons a l ih =>
    obtain ⟨ha, hl⟩ := List.pairwise_cons.1 h
    by_cases hp : p a
    · rw [List.countP_cons_of_pos hp, List.drop_succ_cons, ih hl,
        List.filter_cons_of_neg (by simp [hp])]
    · have hnone : ∀ b ∈ l, ¬p b := fun b hb hpb => hp (ha b hb hpb)
      rw [List.countP_cons_of_neg hp, List.countP_eq_zero.2 hnone, List.drop_zero,
        List.filter_cons_of_pos (by simp [hp]), List.filter_eq_self.2 fun b hb => by simp [hnone b hb]]

theorem exists_mem_drop_countP :
    (∃ a ∈ l.drop (l.countP p), p a) ↔ ¬l.Pairwise fun a b => p b → p a := by
  constructor
  · rintro ⟨a, ha, hp⟩ h
    rw [drop_countP h, List.mem_filter] at ha
    simp [hp] at ha
  · intro h
    induction l with
    | nil => exact absurd List.Pairwise.nil h
    | cons a l ih =>
      by_cases hp : p a
      · rw [List.countP_cons_of_pos hp, List.drop_succ_cons]
        exact ih fun hl => h (List.pairwise_cons.2 ⟨fun _ _ _ => hp, hl⟩)
      · rw [List.countP_cons_of_neg hp]
        -- there are more of the kind than the places that are dropped
        obtain ⟨n, hn⟩ : ∃ n, l.countP p = n + 1 := by
          refine Nat.exists_eq_succ_of_ne_zero fun hzero => h ?_
          have hnone := List.countP_eq_zero.1 hzero
          exact List.pairwise_cons.2 ⟨fun b hb hpb => absurd hpb (hnone b hb),
            List.pairwise_of_forall_mem_list fun b hb c hc hpc => absurd hpc (hnone c hc)⟩
        rw [hn, List.drop_succ_cons]
        have hsplit : (l.take n).countP p + (l.drop n).countP p = n + 1 := by
          rw [← List.countP_append, List.take_append_drop, hn]
        have htake : (l.take n).countP p ≤ n :=
          (List.countP_le_length).trans (List.length_take_le n l)
        exact List.countP_pos_iff.1 (by omega)

end Head

variable {ns l : List (α × β)} {x : α} {k : β} {n : α × β}

/-- Nobody waits for something else before waiting for `k`. -/
def FirstFor (k : β) (ns : List (α × β)) : Prop :=
  ns.Pairwise fun n n' => n'.2 = k → n.1 = n'.1 → n.2 = k

theorem FirstFor.sublist {ns' : List (α × β)} (h : FirstFor k ns) (hs : ns'.Sublist ns) :
    FirstFor k ns' := List.Pairwise.sublist hs h

variable [DecidableEq α]

/-- The entries that are left after the first entry of each client in `l` has been removed. -/
def removeFirsts (l ns : List (α × β)) : List (α × β) :=
  l.foldl (fun ns n => ns.eraseP fun m => m.1 = n.1) ns

theorem removeFirsts_sublist : (removeFirsts l ns).Sublist ns := by
  induction l generalizing ns with
  | nil => exact .refl ns
  | cons n l ih => exact ih.trans (List.eraseP_sublist ..)

theorem filter_eraseP : (ns.eraseP fun m => m.1 = n.1).filter (fun m => m.1 = x) =
    if x = n.1 then (ns.filter fun m => m.1 = x).tail else ns.filter fun m => m.1 = x := by
  induction ns with
  | nil => simp
  | cons m ns ih =>
    rw [List.eraseP_cons]
    by_cases hm : m.1 = n.1
    · simp only [hm, decide_true, cond_true]
      split_ifs with hx
      · simp [hx, hm]
      · rw [List.filter_cons_of_neg (by simpa [hm] using fun h => hx h.symm)]
    · simp only [hm, decide_false, cond_false]
      by_cases hmx : m.1 = x
      · have hx : x ≠ n.1 := hmx ▸ hm
        rw [if_neg hx] at ih ⊢
        rw [List.filter_cons_of_pos (by simpa using hmx), List.filter_cons_of_pos (by simpa using hmx),
          ih]
      · rw [List.filter_cons_of_neg (by simpa using hmx), List.filter_cons_of_neg (by simpa using hmx),
          ih]

theorem filter_removeFirsts : (removeFirsts l ns).filter (fun m => m.1 = x) =
    (ns.filter fun m => m.1 = x).drop (l.countP fun m => m.1 = x) := by
  induction l generalizing ns with
  | nil => rfl
  | cons n l ih =>
    show (removeFirsts l (ns.eraseP fun m => m.1 = n.1)).filter _ = _
    rw [ih, filter_eraseP]
    by_cases hx : x = n.1
    · rw [if_pos hx, List.countP_cons_of_pos (by simpa using hx.symm), ← List.drop_one,
        List.drop_drop, Nat.add_comm]
    · rw [if_neg hx, List.countP_cons_of_neg (by simpa using fun h => hx h.symm)]

theorem firstFor_iff : FirstFor k ns ↔
    ∀ x, (ns.filter fun m => m.1 = x).Pairwise fun n n' => n'.2 = k → n.2 = k := by
  simp only [List.pairwise_filter, decide_eq_true_eq]
  constructor
  · intro h x
    exact h.imp fun hnn' hn hn' hk => hnn' hk (hn.trans hn'.symm)
  · intro h
    rw [FirstFor, List.pairwise_iff_forall_sublist]
    intro n n' hsub hk heq
    exact List.pairwise_iff_forall_sublist.1 (h n'.1) hsub heq rfl hk

variable [DecidableEq β]

instance : Decidable (FirstFor k ns) := inferInstanceAs (Decidable (List.Pairwise _ _))

/-- The entries that are left after everyone who waits for `k` has been served. -/
def served (k : β) (ns : List (α × β)) : List (α × β) :=
  removeFirsts (ns.filter fun n => n.2 = k) ns

/-- Serving `k` drops as many entries of a client as it has entries for `k`. -/
theorem filter_served : (served k ns).filter (fun m => m.1 = x) =
    (ns.filter fun m => m.1 = x).drop ((ns.filter fun m => m.1 = x).countP fun m => m.2 = k) := by
  rw [served, filter_removeFirsts, List.countP_filter, List.countP_filter]
  simp only [Bool.and_comm]

/-- **Somebody still waits for `k`** exactly if a client waits for something else before. -/
theorem exists_served_iff : (∃ n ∈ served k ns, n.2 = k) ↔ ¬FirstFor k ns := by
  have hdrop : ∀ x, (∃ n ∈ (served k ns).filter (fun m => m.1 = x), n.2 = k) ↔
      ¬(ns.filter fun m => m.1 = x).Pairwise fun n n' => n'.2 = k → n.2 = k := by
    intro x
    have h := exists_mem_drop_countP (p := fun m : α × β => m.2 = k)
      (l := ns.filter fun m => m.1 = x)
    simp only [decide_eq_true_eq] at h
    rw [filter_served, h]
  rw [firstFor_iff, not_forall]
  simp only [← hdrop]
  constructor
  · rintro ⟨n, hn, hk⟩
    exact ⟨n.1, n, List.mem_filter.2 ⟨hn, by simp⟩, hk⟩
  · rintro ⟨x, n, hn, hk⟩
    exact ⟨n, (List.mem_filter.1 hn).1, hk⟩

/-- Otherwise the entries for `k` go, and the others stay. -/
theorem mem_served (h : FirstFor k ns) : n ∈ served k ns ↔ n ∈ ns ∧ n.2 ≠ k := by
  have hx := firstFor_iff.1 h n.1
  have hdrop := drop_countP (p := fun m : α × β => m.2 = k) (l := ns.filter fun m => m.1 = n.1)
    (by simpa using hx)
  have hmem : n ∈ (served k ns).filter (fun m => m.1 = n.1) ↔ n ∈ ns ∧ n.2 ≠ k := by
    rw [filter_served, hdrop, List.mem_filter, List.mem_filter]
    simp
  rw [← hmem, List.mem_filter]
  simp

end Waiting

end TaskSpooler
