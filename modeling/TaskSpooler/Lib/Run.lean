import Mathlib.Tactic.TypeStar

/-!
# Runs whose steps meet a condition

The systems of this development are relations `step s l s'` on states `S` with labels `L`.  Many
of their properties hold along every run in which some request is never made in some kind of
state.  `Run step ok s₀ s` says that `s` is reached from `s₀` by steps that were each taken in a
state satisfying `ok l`; `Run.invariant` is the induction every such property is proved by.
-/

namespace TaskSpooler

variable {S L : Type*}

/-- The states reached from `s₀` by steps `l` that are taken only where `ok l` holds. -/
inductive Run (step : S → L → S → Prop) (ok : L → S → Prop) (s₀ : S) : S → Prop
  | start : Run step ok s₀ s₀
  | next {s s' : S} {l : L} : Run step ok s₀ s → ok l s → step s l s' → Run step ok s₀ s'

namespace Run

variable {step : S → L → S → Prop} {ok : L → S → Prop} {s₀ s : S}

/-- A predicate of the initial state that every permitted step keeps holds along the run. -/
theorem invariant {I : S → Prop} (hr : Run step ok s₀ s) (hinit : I s₀)
    (hkeep : ∀ {s s' l}, I s → ok l s → step s l s' → I s') : I s := by
  induction hr with
  | start => exact hinit
  | next _ hok hst ih => exact hkeep ih hok hst

theorem mono {ok' : L → S → Prop} (hr : Run step ok s₀ s)
    (himp : ∀ l s, ok l s → ok' l s) : Run step ok' s₀ s := by
  induction hr with
  | start => exact .start
  | next _ hok hst ih => exact ih.next (himp _ _ hok) hst

/-- What an invariant says of the steps of a run may be added to their condition. -/
theorem refine {I : S → Prop} {ok' : L → S → Prop} (hr : Run step ok s₀ s) (hinit : I s₀)
    (hkeep : ∀ {s s' l}, I s → ok l s → step s l s' → I s' ∧ ok' l s) : I s ∧ Run step ok' s₀ s := by
  induction hr with
  | start => exact ⟨hinit, .start⟩
  | next _ hok hst ih =>
    obtain ⟨hI, hr⟩ := ih
    obtain ⟨hI', hok'⟩ := hkeep hI hok hst
    exact ⟨hI', hr.next hok' hst⟩

theorem trans {s' : S} (hr : Run step ok s₀ s) (hr' : Run step ok s s') : Run step ok s₀ s' := by
  induction hr' with
  | start => exact hr
  | next _ hok hst ih => exact ih.next hok hst

/-- The state after some labels, where steps are computed. -/
def follow (f : S → L → Option S) (s : S) : List L → Option S
  | [] => some s
  | l :: ls => (f s l).bind fun s' => follow f s' ls

theorem of_follow {f : S → L → Option S} (hf : ∀ s l s', f s l = some s' → step s l s') {ls : List L}
    (hok : ∀ l ∈ ls, ∀ s, ok l s) (h : follow f s₀ ls = some s) : Run step ok s₀ s := by
  induction ls generalizing s₀ with
  | nil =>
    cases h
    exact .start
  | cons l ls ih =>
    obtain ⟨s₁, hst, h⟩ := Option.bind_eq_some_iff.1 h
    have hfirst : Run step ok s₀ s₁ := Run.start.next (hok l List.mem_cons_self s₀) (hf _ _ _ hst)
    exact hfirst.trans (ih (fun l' hl => hok l' (List.mem_cons_of_mem l hl)) h)

end Run

end TaskSpooler
