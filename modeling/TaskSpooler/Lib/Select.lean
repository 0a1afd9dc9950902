import Mathlib.Algebra.BigOperators.Group.Finset.Piecewise
import Mathlib.Algebra.Order.BigOperators.Group.Finset
import Mathlib.Algebra.Order.Ring.Int
import Mathlib.Data.Finset.Max

/-!
# Selections by weight

Facts about choosing some of many weighted things, as greedy algorithms do.

* `selected_foldl`: a scan of a list that keeps the first best candidate finds a best one.
* `sum_le_of_largest`: if the things in `F` are the largest ones, then nothing of at most the same
  number weighs more.  So whoever takes the largest things first needs the fewest of them
  (`card_lt_of_largest`).
-/

namespace TaskSpooler

variable {ι : Type*}

/-! ### A scan for the best -/

section Scan

variable {β : Type*} (ok : ι → Prop) (f : ι → β) (lt : β → β → Prop)

/-- Take `g` if it is a candidate and better than the best one so far. -/
def selectStep [DecidablePred ok] [DecidableRel lt] (best : Option (ι × β)) (g : ι) :
    Option (ι × β) :=
  if ok g then
    match best with
    | none => some (g, f g)
    | some (b, x) => if lt (f g) x then some (g, f g) else some (b, x)
  else best

/-- The best candidate of a list, if there is a candidate. -/
def Selected (l : List ι) : Option (ι × β) → Prop
  | none => ∀ g ∈ l, ¬ok g
  | some (b, x) => (b ∈ l ∧ ok b ∧ x = f b) ∧ ∀ g ∈ l, ok g → ¬lt (f g) x

variable {ok f lt} [DecidablePred ok] [DecidableRel lt] {l : List ι}

/-- **A scan finds a best candidate.** -/
theorem selected_foldl (hirrefl : ∀ x, ¬lt x x)
    (htrans : ∀ x y z, lt y x → ¬lt z x → ¬lt z y) :
    Selected ok f lt l (l.foldl (selectStep ok f lt) none) := by
  -- the induction is on the end of the list: the scan has seen the rest
  induction l using List.reverseRecOn with
  | nil => exact fun g hg => absurd hg List.not_mem_nil
  | append_singleton l g ih =>
    rw [List.foldl_append, List.foldl_cons, List.foldl_nil]
    generalize l.foldl (selectStep ok f lt) none = best at ih ⊢
    have hmem : ∀ {x}, x ∈ l ++ [g] ↔ x ∈ l ∨ x = g := by simp
    unfold selectStep
    split_ifs with hg
    · cases best with
      | none =>
        refine ⟨⟨hmem.2 (.inr rfl), hg, rfl⟩, fun x hx hok => ?_⟩
        obtain hx | rfl := hmem.1 hx
        · exact absurd hok (ih x hx)
        · exact hirrefl _
      | some best =>
        obtain ⟨b, x⟩ := best
        obtain ⟨⟨hb, hok, hx⟩, hbest⟩ := ih
        dsimp only
        split_ifs with hlt
        · refine ⟨⟨hmem.2 (.inr rfl), hg, rfl⟩, fun y hy hy' => ?_⟩
          obtain hy | rfl := hmem.1 hy
          · exact htrans _ _ _ hlt (hbest y hy hy')
          · exact hirrefl _
        · refine ⟨⟨hmem.2 (.inl hb), hok, hx⟩, fun y hy hy' => ?_⟩
          obtain hy | rfl := hmem.1 hy
          · exact hbest y hy hy'
          · exact hlt
    · cases best with
      | none =>
        intro x hx
        obtain hx | rfl := hmem.1 hx
        · exact ih x hx
        · exact hg
      | some best =>
        refine ⟨⟨hmem.2 (.inl ih.1.1), ih.1.2⟩, fun y hy hy' => ?_⟩
        obtain hy | rfl := hmem.1 hy
        · exact ih.2 y hy hy'
        · exact absurd hy' hg

end Scan

/-- In a list with decreasing weights the things of the largest weight come first. -/
theorem takeWhile_eq_filter_of_sorted {f : ι → ℤ} {l : List ι} {m : ℤ}
    (hl : l.Pairwise fun i j => f j ≤ f i) (hle : ∀ i ∈ l, f i ≤ m) :
    (l.takeWhile fun i => f i = m) = l.filter fun i => f i = m := by
  induction l with
  | nil => rfl
  | cons i l ih =>
    rw [List.pairwise_cons] at hl
    by_cases hi : f i = m
    · rw [List.takeWhile_cons_of_pos (by simpa using hi), List.filter_cons_of_pos (by simpa using hi),
        ih hl.2 fun j hj => hle j (List.mem_cons_of_mem _ hj)]
    · have hnone : (l.filter fun j => decide (f j = m)) = [] := by
        rw [List.filter_eq_nil_iff]
        intro j hj hjm
        have h₁ := hl.1 j hj
        have h₂ := hle i List.mem_cons_self
        have h₃ : f j = m := of_decide_eq_true hjm
        omega
      rw [List.takeWhile_cons_of_neg (by simpa using hi), List.filter_cons_of_neg (by simpa using hi),
        hnone]

theorem not_of_mem_dropWhile {ok : ι → Bool} {l : List ι}
    (hl : l.Pairwise fun i j => ok j = true → ok i = true) {i : ι} (hi : i ∈ l.dropWhile ok) :
    ok i = false := by
  induction l with
  | nil => exact absurd hi List.not_mem_nil
  | cons x l ih =>
    rw [List.pairwise_cons] at hl
    by_cases hx : ok x = true
    · rw [List.dropWhile_cons_of_pos hx] at hi
      exact ih hl.2 hi
    · rw [List.dropWhile_cons_of_neg hx] at hi
      obtain rfl | hi := List.mem_cons.1 hi
      · exact Bool.eq_false_iff.2 hx
      · exact Bool.eq_false_iff.2 fun h => hx (hl.1 i hi h)

/-! ### The largest things -/

section Largest

variable [DecidableEq ι] {w : ι → ℤ} {F S : Finset ι} {n : ℤ}

theorem sum_le_of_largest (hpos : ∀ i ∈ F, 0 ≤ w i)
    (hlarge : ∀ i ∈ F, ∀ j ∈ S, j ∉ F → w j ≤ w i) (hcard : S.card ≤ F.card) :
    ∑ i ∈ S, w i ≤ ∑ i ∈ F, w i := by
  -- what both have in common cancels
  rw [← Finset.sum_inter_add_sum_sdiff S F, ← Finset.sum_inter_add_sum_sdiff F S,
    Finset.inter_comm F S]
  refine Int.add_le_add_left ?_ _
  have hcard' : (S \ F).card ≤ (F \ S).card := by
    have h₁ := Finset.card_inter_add_card_sdiff S F
    have h₂ := Finset.card_inter_add_card_sdiff F S
    rw [Finset.inter_comm F S] at h₂
    omega
  obtain hempty | ⟨j, hj⟩ := (S \ F).eq_empty_or_nonempty
  · rw [hempty, Finset.sum_empty]
    exact Finset.sum_nonneg fun i hi => hpos i (Finset.mem_sdiff.1 hi).1
  · obtain ⟨m, hm, hmax⟩ := (S \ F).exists_max_image w ⟨j, hj⟩
    have hm' := Finset.mem_sdiff.1 hm
    obtain ⟨i, hi⟩ := Finset.card_pos.1 ((Finset.card_pos.2 ⟨j, hj⟩).trans_le hcard')
    calc ∑ i ∈ S \ F, w i ≤ (S \ F).card • w m := Finset.sum_le_card_nsmul _ _ _ hmax
      _ ≤ (F \ S).card • max 0 (w m) := ?_
      _ ≤ ∑ i ∈ F \ S, w i := ?_
    · simp only [nsmul_eq_mul]
      refine (mul_le_mul_of_nonneg_left (le_max_right 0 (w m)) (Int.natCast_nonneg _)).trans ?_
      exact mul_le_mul_of_nonneg_right (by exact_mod_cast hcard') (le_max_left _ _)
    · refine Finset.card_nsmul_le_sum _ _ _ fun i hi => ?_
      have hi' := Finset.mem_sdiff.1 hi
      exact max_le (hpos i hi'.1) (hlarge i hi'.1 m hm'.1 hm'.2)

/-- If the largest things do not suffice, then more of them are needed. -/
theorem card_lt_of_largest (hpos : ∀ i ∈ F, 0 ≤ w i)
    (hlarge : ∀ i ∈ F, ∀ j ∈ S, j ∉ F → w j ≤ w i) (hF : ∑ i ∈ F, w i < n)
    (hS : n ≤ ∑ i ∈ S, w i) : F.card < S.card := by
  by_contra hle
  have := sum_le_of_largest hpos hlarge (not_lt.1 hle)
  omega

end Largest

end TaskSpooler
