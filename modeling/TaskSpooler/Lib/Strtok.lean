import Mathlib.Data.List.Basic
import Mathlib.Data.List.TakeWhile
import Mathlib.Tactic.TypeStar

/-!
# Tokens between separators (`strtok`)

`Strtok.next` is one call of `strtok`: it skips separators, takes the symbols up to the next one and
keeps what stands behind it for the call that follows.  Separators side by side count as one, and
those at the front and the end count for nothing, so a text is in general not the same as its tokens;
`Strtok.tokens_intercalate` says when it is: if the pieces are not empty and have no separator
inside.
-/

namespace TaskSpooler

namespace Strtok

variable {α : Type*} {sep : α → Bool} {c : α} {piece rest s : List α}

/-- One call: the token, and the text that the next call begins with. -/
def next (sep : α → Bool) (s : List α) : Option (List α × List α) :=
  if (s.dropWhile sep).isEmpty then none
  else some ((s.dropWhile sep).takeWhile (!sep ·), ((s.dropWhile sep).dropWhile (!sep ·)).tail)

/-- At most `n` calls, until there is no token left. -/
def tokensWithin (sep : α → Bool) : ℕ → List α → List (List α)
  | 0, _ => []
  | n + 1, s => (next sep s).elim [] fun r => r.1 :: tokensWithin sep n r.2

/-- The tokens of a text; each is taken from at least one symbol. -/
def tokens (sep : α → Bool) (s : List α) : List (List α) := tokensWithin sep s.length s

/-! ### One call -/

/-- There is no token if there is nothing but separators. -/
theorem next_eq_none : next sep s = none ↔ ∀ c ∈ s, sep c = true := by
  rw [next]
  split_ifs with h
  · simpa [List.isEmpty_iff, List.dropWhile_eq_nil_iff] using h
  · simpa [List.isEmpty_iff, List.dropWhile_eq_nil_iff] using h

theorem dropWhile_piece (hp : piece ≠ []) (hsep : ∀ c ∈ piece, sep c = false) :
    (piece ++ rest).dropWhile sep = piece ++ rest := by
  cases piece with
  | nil => exact absurd rfl hp
  | cons c piece => simp [hsep c (by simp)]

/-- The symbols before the first separator are the first token. -/
theorem next_append (hp : piece ≠ []) (hsep : ∀ c ∈ piece, sep c = false) (hc : sep c = true) :
    next sep (piece ++ c :: rest) = some (piece, rest) := by
  have htake : ∀ c ∈ piece, (!sep c) = true := fun c hmem => by rw [hsep c hmem]; rfl
  rw [next, dropWhile_piece hp hsep, if_neg (by simp [List.isEmpty_iff]),
    List.takeWhile_append_of_pos htake, List.dropWhile_append_of_pos htake]
  simp [hc]

/-- A text without a separator is one token. -/
theorem next_piece (hp : piece ≠ []) (hsep : ∀ c ∈ piece, sep c = false) :
    next sep piece = some (piece, []) := by
  have htake : ∀ c ∈ piece, (!sep c) = true := fun c hmem => by rw [hsep c hmem]; rfl
  have hdrop : (piece ++ []).dropWhile sep = piece ++ [] := dropWhile_piece hp hsep
  rw [List.append_nil] at hdrop
  rw [next, hdrop, if_neg (by simp [List.isEmpty_iff, hp]), List.takeWhile_eq_self_iff.2 htake,
    List.dropWhile_eq_nil_iff.2 htake, List.tail_nil]

/-- A token is not empty and has no separator inside. -/
theorem next_token {r : List α × List α} (h : next sep s = some r) :
    r.1 ≠ [] ∧ ∀ c ∈ r.1, sep c = false := by
  rw [next] at h
  by_cases hs : (s.dropWhile sep).isEmpty = true
  · rw [if_pos hs] at h
    cases h
  · rw [if_neg hs] at h
    obtain rfl := Option.some.inj h
    refine ⟨?_, fun c hc => by simpa using List.mem_takeWhile_imp hc⟩
    cases hd : s.dropWhile sep with
    | nil => simp [hd] at hs
    | cons c t =>
      have hhead : sep c = false := by
        have hget := List.head?_dropWhile_not sep s
        rw [hd] at hget
        simpa using hget
      simp [hhead]

/-! ### All tokens -/

theorem tokensWithin_succ {n : ℕ} : tokensWithin sep (n + 1) s =
    (next sep s).elim [] fun r => r.1 :: tokensWithin sep n r.2 := rfl

theorem tokensWithin_nil {n : ℕ} : tokensWithin sep n [] = [] := by
  cases n with
  | zero => rfl
  | succ n => rfl

/-- The pieces are found again if the calls are enough. -/
theorem tokensWithin_intercalate (hc : sep c = true) {pieces : List (List α)} {n : ℕ}
    (hp : ∀ p ∈ pieces, p ≠ [] ∧ ∀ c ∈ p, sep c = false) (hn : pieces.length ≤ n) :
    tokensWithin sep n ([c].intercalate pieces) = pieces := by
  induction pieces generalizing n with
  | nil => exact tokensWithin_nil
  | cons p pieces ih =>
    obtain ⟨hne, hsep⟩ := hp p (by simp)
    obtain ⟨n, rfl⟩ : ∃ m, n = m + 1 := ⟨n - 1, by simp only [List.length_cons] at hn; omega⟩
    have htail := ih (fun q hq => hp q (List.mem_cons_of_mem p hq))
      (Nat.le_of_succ_le_succ hn)
    cases pieces with
    | nil =>
      have hnext := next_piece hne hsep
      simp [List.intercalate, tokensWithin_succ, hnext, tokensWithin_nil]
    | cons q pieces =>
      have hjoin : [c].intercalate (p :: q :: pieces) = p ++ c :: [c].intercalate (q :: pieces) := by
        simp [List.intercalate]
      rw [hjoin, tokensWithin_succ, next_append hne hsep hc, Option.elim_some, htail]

theorem length_le_intercalate {pieces : List (List α)} (hp : ∀ p ∈ pieces, p ≠ []) :
    pieces.length ≤ ([c].intercalate pieces).length := by
  induction pieces with
  | nil => simp
  | cons p pieces ih =>
    have htail := ih fun q hq => hp q (List.mem_cons_of_mem p hq)
    have hlen : 0 < p.length := List.length_pos_iff.2 (hp p (by simp))
    cases pieces with
    | nil => simpa [List.intercalate, Nat.one_le_iff_ne_zero] using hp p (by simp)
    | cons q pieces =>
      have hjoin : [c].intercalate (p :: q :: pieces) = p ++ c :: [c].intercalate (q :: pieces) := by
        simp [List.intercalate]
      rw [hjoin, List.length_append]
      simp only [List.length_cons] at htail ⊢
      omega

/-- **Pieces joined by a separator are the tokens of the text**, if they are not empty and have no
separator inside. -/
theorem tokens_intercalate (hc : sep c = true) {pieces : List (List α)}
    (hp : ∀ p ∈ pieces, p ≠ [] ∧ ∀ c ∈ p, sep c = false) :
    tokens sep ([c].intercalate pieces) = pieces :=
  tokensWithin_intercalate hc hp (length_le_intercalate fun p hmem => (hp p hmem).1)

/-- Every piece with a separator behind it. -/
theorem tokensWithin_flatMap (hc : sep c = true) {pieces : List (List α)} {n : ℕ}
    (hp : ∀ p ∈ pieces, p ≠ [] ∧ ∀ c ∈ p, sep c = false) (hn : pieces.length ≤ n) :
    tokensWithin sep n (pieces.flatMap (· ++ [c])) = pieces := by
  induction pieces generalizing n with
  | nil => exact tokensWithin_nil
  | cons p pieces ih =>
    obtain ⟨hne, hsep⟩ := hp p (by simp)
    obtain ⟨n, rfl⟩ : ∃ m, n = m + 1 := ⟨n - 1, by simp only [List.length_cons] at hn; omega⟩
    have htail := ih (fun q hq => hp q (List.mem_cons_of_mem p hq)) (Nat.le_of_succ_le_succ hn)
    rw [List.flatMap_cons, List.append_assoc, List.singleton_append, tokensWithin_succ,
      next_append hne hsep hc, Option.elim_some, htail]

/-- **Pieces with a separator behind each** are the tokens of the text as well. -/
theorem tokens_flatMap (hc : sep c = true) {pieces : List (List α)}
    (hp : ∀ p ∈ pieces, p ≠ [] ∧ ∀ c ∈ p, sep c = false) :
    tokens sep (pieces.flatMap (· ++ [c])) = pieces := by
  refine tokensWithin_flatMap hc hp ?_
  induction pieces with
  | nil => exact Nat.le_refl 0
  | cons p pieces ih =>
    have htail := ih fun q hq => hp q (List.mem_cons_of_mem p hq)
    simp only [List.flatMap_cons, List.length_append, List.length_cons, List.length_nil]
    omega

end Strtok

end TaskSpooler
