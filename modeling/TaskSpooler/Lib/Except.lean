import Mathlib.Tactic.TypeStar

/-!
# Computations that succeed

A computation in `Except` that succeeds is taken apart into its steps by `Except.bind_eq_ok`, and a
loop is followed by the induction `Except.foldlM_induction`.
-/

namespace TaskSpooler

namespace Except

universe u

variable {ε α β : Type u} {γ : Type*}

/-- A sequence of two computations succeeds if both do. -/
theorem bind_eq_ok {x : Except ε α} {f : α → Except ε β} {b : β} :
    (x >>= f) = .ok b ↔ ∃ a, x = .ok a ∧ f a = .ok b := by
  cases x with
  | error err => simp [bind, Except.bind]
  | ok a => simp [bind, Except.bind]

theorem map_eq_ok {x : Except ε α} {f : α → β} {b : β} :
    x.map f = .ok b ↔ ∃ a, x = .ok a ∧ f a = b := by
  cases x with
  | error err => simp [Except.map]
  | ok a => simp [Except.map]

/-- A reflexive and transitive relation that every round of a loop respects holds between its
start and its end. -/
theorem foldlM_induction {R : α → α → Prop} (hrefl : ∀ a, R a a)
    (htrans : ∀ {a b c}, R a b → R b c → R a c) {f : α → γ → Except ε α} {l : List γ} {a b : α}
    (hf : ∀ {a b x}, x ∈ l → f a x = .ok b → R a b) (h : l.foldlM f a = .ok b) : R a b := by
  induction l generalizing a with
  | nil =>
    cases h
    exact hrefl _
  | cons x l ih =>
    rw [List.foldlM_cons, bind_eq_ok] at h
    obtain ⟨c, hc, hb⟩ := h
    exact htrans (hf List.mem_cons_self hc) (ih (fun hx => hf (List.mem_cons_of_mem _ hx)) hb)

/-- The same for a loop that cannot fail. -/
theorem foldl_induction {R : α → α → Prop} (hrefl : ∀ a, R a a)
    (htrans : ∀ {a b c}, R a b → R b c → R a c) {f : α → γ → α} {l : List γ} (a : α)
    (hf : ∀ {a x}, x ∈ l → R a (f a x)) : R a (l.foldl f a) := by
  induction l generalizing a with
  | nil => exact hrefl a
  | cons x l ih =>
    exact htrans (hf List.mem_cons_self) (ih (f a x) fun hx => hf (List.mem_cons_of_mem _ hx))

end Except

end TaskSpooler
