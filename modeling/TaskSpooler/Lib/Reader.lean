import Mathlib.Algebra.Group.Nat.Defs
import Mathlib.Data.List.Forall2
import Mathlib.Tactic.TypeStar

/-!
# Reading from a stream

A `Reader` takes symbols from the front of a stream.  `Reads r w a` says that `r` takes exactly the
symbols `w` from any stream that starts with them, and delivers `a`; a format is read back piece by
piece with the rules `Reads.pure`, `Reads.bind` and `Reads.times`.
-/

namespace TaskSpooler

universe u v

/-- A computation that takes symbols from a stream; `none` if it waits for one that is not there. -/
abbrev Reader (σ : Type u) := StateT (List σ) Option

namespace Reader

variable {σ : Type u} {α β : Type u}

/-- The reader takes the symbols `w`, and no others, and delivers `a`. -/
def Reads (r : Reader σ α) (w : List σ) (a : α) : Prop :=
  ∀ rest, r.run (w ++ rest) = some (a, rest)

/-- A reader used `n` times. -/
def times (r : Reader σ α) : ℕ → Reader σ (List α)
  | 0 => pure []
  | n + 1 => do
    let a ← r
    let as ← times r n
    pure (a :: as)

/-! ### Rules -/

theorem Reads.pure (a : α) : Reads (pure a : Reader σ α) [] a := fun _ => rfl

theorem Reads.bind {r : Reader σ α} {f : α → Reader σ β} {w w' : List σ} {a : α} {b : β}
    (h : Reads r w a) (h' : Reads (f a) w' b) : Reads (r >>= f) (w ++ w') b := by
  intro rest
  rw [List.append_assoc, StateT.run_bind, h]
  exact h' rest

/-- The last symbols are taken by a reader that only wraps up. -/
theorem Reads.bind_pure {r : Reader σ α} {w : List σ} {a : α} (h : Reads r w a) (f : α → β) :
    Reads (r >>= fun a => Pure.pure (f a)) w (f a) := by
  have h' : Reads (r >>= fun a => Pure.pure (f a)) (w ++ []) (f a) := h.bind (Reads.pure (f a))
  rwa [List.append_nil] at h'

/-- A run of pieces, each of which is read. -/
theorem Reads.times {r : Reader σ α} {ws : List (List σ)} {as : List α}
    (h : List.Forall₂ (Reads r) ws as) : Reads (r.times as.length) ws.flatten as := by
  induction h with
  | nil => exact Reads.pure []
  | cons h _ ih => exact h.bind (ih.bind_pure (_ :: ·))

end Reader

end TaskSpooler
