import Mathlib.Data.Nat.Basic
import Mathlib.Order.BoundedOrder.Basic

/-!
# Lives

A thing that comes into being with a deed `a`, waits, is started, is over and is forgotten at last.
`x ≤ y` says that the life `x` can become `y`: stages may be left out but none comes back, and the
deed stays the same as long as there is one.  A system in which every life only moves up never starts
again what is over, never forgets what is still to come, and never changes a deed.
-/

namespace TaskSpooler

/-- The stages of a life with a deed. -/
inductive Life (α : Type*)
  | unborn
  | waiting (a : α)
  | started (a : α)
  | ended (a : α)
  | forgotten
  deriving DecidableEq, Repr

namespace Life

variable {α : Type*} {x y z : Life α} {a b : α}

/-- The place of the stage in a life. -/
def rank : Life α → ℕ
  | unborn => 0
  | waiting _ => 1
  | started _ => 2
  | ended _ => 3
  | forgotten => 4

/-- The deed, while there is one. -/
def deed : Life α → Option α
  | unborn | forgotten => none
  | waiting a | started a | ended a => some a

theorem eq_unborn_or_forgotten (h : x.deed = none) : x = unborn ∨ x = forgotten := by
  cases x with
  | unborn => exact .inl rfl
  | forgotten => exact .inr rfl
  | _ => cases h

instance : PartialOrder (Life α) where
  le x y := x.rank ≤ y.rank ∧ ∀ a ∈ x.deed, ∀ b ∈ y.deed, a = b
  le_refl x := ⟨le_refl _, fun a ha b hb => Option.some.inj (ha.symm.trans hb)⟩
  le_trans x y z := by
    rintro ⟨hxy, hdxy⟩ ⟨hyz, hdyz⟩
    refine ⟨hxy.trans hyz, fun a ha b hb => ?_⟩
    cases hy : y.deed with
    | some c => exact (hdxy a ha c hy).trans (hdyz c hy b hb)
    | none =>
      -- a life without a deed is at one of the ends
      obtain rfl | rfl := eq_unborn_or_forgotten hy
      · cases x with
        | unborn => cases ha
        | _ => exact absurd hxy (by simp [rank])
      · cases z with
        | forgotten => cases hb
        | _ => exact absurd hyz (by simp [rank])
  le_antisymm x y := by
    rintro ⟨hxy, hd⟩ ⟨hyx, -⟩
    cases x <;> cases y <;> simp_all [rank, deed]

instance : OrderBot (Life α) where
  bot := unborn
  bot_le _ := ⟨Nat.zero_le _, fun a ha => by cases ha⟩

instance : OrderTop (Life α) where
  top := forgotten
  le_top x := ⟨by cases x <;> simp [rank], fun a _ b hb => by cases hb⟩

/-- With the same deed only the stages count. -/
theorem le_of_rank (hx : x.deed = some a) (hy : y.deed = some a) (h : x.rank ≤ y.rank) : x ≤ y := by
  refine ⟨h, fun b hb c hc => ?_⟩
  rw [hx] at hb
  rw [hy] at hc
  exact (Option.some.inj hb).symm.trans (Option.some.inj hc)

theorem unborn_le : unborn ≤ x := bot_le

theorem le_forgotten : x ≤ forgotten := le_top

/-- The deed of a life was its deed before, once it had begun. -/
theorem deed_of_le (h : x ≤ y) (hx : x ≠ unborn) (ha : a ∈ y.deed) : a ∈ x.deed := by
  cases hd : x.deed with
  | some b => rw [h.2 b hd a ha, Option.mem_some_iff]
  | none =>
    obtain rfl | rfl := eq_unborn_or_forgotten hd
    · exact absurd rfl hx
    · have hy : y = forgotten := le_antisymm le_forgotten h
      rw [hy] at ha
      cases ha

end Life

end TaskSpooler
