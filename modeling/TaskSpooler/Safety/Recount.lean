import TaskSpooler.Safety.Startup
import TaskSpooler.Safety.Suspension

/-!
# The recount along a run

`s_update_slots_usage` brings the server down if it finds `busy_slots` negative or a job without an
owner.  Neither happens in a run in which no job asks for less than zero slots
(`sUpdateSlotsUsage_returns`): the slots that the jobs hold have been counted (`View.Covered`), even
where the counters are not exact.
-/

namespace TaskSpooler

namespace Job

variable {p : Job}

theorem freedSlots_of_allocated (h : p.numAllocated = 0) : Queue.freedSlots p = 0 := if_pos h

theorem Tame.freedSlots_nonneg (h : p.Tame) : 0 ≤ Queue.freedSlots p := by
  have := h.slots
  rw [Queue.freedSlots]
  split_ifs <;> omega

theorem Tame.freedSlots_of_ne (h : p.Tame) (hr : p.state ≠ .running) : Queue.freedSlots p = 0 :=
  freedSlots_of_allocated (h.allocated hr)

theorem freedSlots_started : Queue.freedSlots p.started = p.numSlots := by
  simp only [Queue.freedSlots, started]
  split_ifs with h <;> omega

end Job

namespace Act

variable {v : View} {a : Act}

/-- A move counts the slots that its job holds afterwards. -/
theorem freed_change (hv : v.Tame) (hg : a.Guard v) (ha : a.asksSlots) :
    (a.new v).elim 0 Queue.freedSlots - (a.old v).elim 0 Queue.freedSlots ≤ a.slots := by
  have hold : ∀ {p}, a.old v = some p → p.Tame := fun h => of_old plainFn_tame hg hv h
  -- a job that does not run afterwards holds nothing
  have hidle : ∀ {p}, a.new v = some p → p.state ≠ .running → Queue.freedSlots p = 0 :=
    fun hnew hr => (tame_new hv hg ha hnew).freedSlots_of_ne hr
  cases a with
  | pause p =>
    rw [show (pause p).new v = some _ from rfl, Option.elim_some, hidle rfl (by simp [Job.setState])]
    simp [old, slots, takes, frees]
  | abnormal p =>
    rw [show (abnormal p).new v = some _ from rfl, Option.elim_some,
      hidle rfl (by simp [Job.setState])]
    simp [old, slots, takes, frees]
  | relegate p requeue =>
    have hz := hidle rfl (by split_ifs <;> simp [Job.relegated])
    have hp := (hold rfl).freedSlots_nonneg
    simp only [new, old, Option.elim_some, hz, slots, takes, frees]
    by_cases hr : p.state = .running <;> simp only [hr, if_true, if_false] <;> omega
  | start p =>
    have hp := (hold rfl).freedSlots_nonneg
    simp only [new, old, Option.elim_some, Job.freedSlots_started, slots, takes, frees]
    omega
  | dispatch uid p q =>
    have hp := (hold rfl).freedSlots_nonneg
    simp only [new, old, Option.elim_some, Job.freedSlots_started, slots, takes, frees]
    omega
  | finish r p p' max => simp [new, old, slots, takes, frees]
  | drop p shelf =>
    have hp := (hold rfl).freedSlots_nonneg
    cases shelf <;> simp [new, old, slots, takes, frees, hp]
  | delete p =>
    have hp := (hold rfl).freedSlots_nonneg
    simp [new, old, slots, takes, frees, hp]
  | submit p ds n m q =>
    rw [show (submit p ds n m q).new v = some p from rfl, Option.elim_some,
      Job.freedSlots_of_allocated hg.2.2.2.2.1]
    simp [old, slots, takes, frees]
  | reuse p₀ p ds m q =>
    have hp := hold rfl
    obtain ⟨-, -, hst, -, halloc, -, -, hstate, -⟩ := hg
    have hne : p₀.state ≠ .running := by
      rw [hst]
      obtain h | h | h := hstate <;> simp [h]
    have hz : Queue.freedSlots (p.setState (if p.state = .wait then .queued else p.state)) = 0 :=
      Job.freedSlots_of_allocated (halloc.symm.trans (hp.allocated hne))
    have hp := hp.freedSlots_nonneg
    simp only [new, old, Option.elim_some, hz, slots, takes, frees]
    omega
  | reconnect p st socket =>
    by_cases hf : (v.findjob p.jobid).isSome
    · simp [new, old, hf, slots, takes, frees, Queue.freedSlots, Job.reconnected]
    · simp [new, old, hf, slots, takes, frees]
  | wall p w | asleep uid p q | wake p | lock p | unlock p | gone p | pid p n =>
    simp [new, old, slots, takes, frees, Queue.freedSlots, Job.setWallTime, Job.setState, Job.gone,
      Job.setPid]
  | _ => simp [new, old, slots, takes, frees]

end Act

namespace View

variable {v : View} {a : Act}

theorem freed_le_runs (hv : v.Tame) : v.freed ≤ v.runs id anyone := by
  refine List.sum_le_sum fun p hp => ?_
  have hp := hv p hp
  have hslots := hp.slots
  by_cases hr : p.state = .running
  · simp only [Job.runs, anyone, hr, Queue.freedSlots, id]
    split_ifs <;> simp_all
  · rw [hp.freedSlots_of_ne hr, Job.runs_of_ne hr]

/-- **Every move keeps the slots covered.** -/
theorem covered_apply (hv : v.Tame) (h : v.Covered) (hg : a.Guard v) (ha : a.asksSlots) :
    (a.apply v).Covered := by
  have htame := Act.tame_apply h.ids hv hg ha
  refine ⟨Act.ids_apply h.ids hg, fun p hp => (htame p hp).freedSlots_nonneg, ?_⟩
  have hsum : (a.apply v).freed = _ :=
    Act.sum_apply (w := Queue.freedSlots) (fun _ => rfl) h.ids hg
  have hchange := Act.freed_change hv hg ha
  have hfreed := h.freed
  rw [View.freed] at hfreed
  by_cases hl : a.Local
  · rw [hsum, Act.busySlots_apply hl]
    omega
  · cases a with
    | recount =>
      obtain ⟨hbusy, -, -, hact, -⟩ := recount_counters v
      have hle := freed_le_runs hv
      rw [hbusy, View.freed, hact]
      exact hle
    | users us n => exact h.freed
    | _ => exact absurd trivial hl

end View

namespace Server

variable {e : Env} {s s' s₀ : Server} {C : Config}

/-- The slots are covered, and no job is without an owner. -/
structure Solvent (s : Server) : Prop where
  sound : s.Sound
  queued : s.view.Queued
  tame : s.view.Tame
  covered : s.view.Covered

/-- A step keeps the slots covered. -/
theorem solvent_step {l : Env × Input} (h : s.Solvent) (hok : asksSlots l s) (hst : Step C s l s') :
    s'.Solvent := by
  have htame := tame_step h.sound h.tame hok hst
  refine ⟨hst.sound h.sound, queued_step h.sound h.queued hst, htame, ?_⟩
  obtain ⟨e, i⟩ := l
  obtain ⟨-, hen, hstep⟩ := hst
  by_cases hi : i = .restart
  · subst hi
    dsimp only at hstep
    rw [step, Except.bind_eq_ok] at hstep
    obtain ⟨sp, hsp, hstep⟩ := hstep
    cases hstep
    exact ((Spool.serverMain_usage hsp).moves.invariant (I := fun w => w.Tame ∧ w.Covered)
      ⟨tame_reload hok.2, Spool.covered_reload⟩ fun hI ha hg =>
        ⟨Act.tame_apply hI.2.ids hI.1 hg ha.asksSlots,
          View.covered_apply hI.1 hI.2 hg ha.asksSlots⟩).2
  · have hcourse := step_course (K := fun _ => True) h.sound hen hi (fun _ _ => trivial) hstep
    refine (hcourse.toMoves.invariant (I := fun w => w.Tame ∧ w.Covered) ⟨h.tame, h.covered⟩
      fun hI ha hg => ?_).2
    have hask : Act.asksSlots _ := ha.elim (fun ha => ha.asksSlots hg hok) fun ha => ha.asksSlots
    exact ⟨Act.tame_apply hI.2.ids hI.1 hg hask, View.covered_apply hI.1 hI.2 hg hask⟩

theorem Fresh.solvent (h : s.Fresh) : s.Solvent := by
  refine ⟨h.sound, h.queued, h.tame, h.sound.ids, ?_, ?_⟩
  · rw [h.view_activeJobs]
    exact fun p hp => absurd hp List.not_mem_nil
  · rw [View.freed, h.view_activeJobs]
    exact h.busySlots.ge

theorem Run.solvent (h₀ : s₀.Fresh) (h : Run (Step C) asksSlots s₀ s) : s.Solvent :=
  h.invariant h₀.solvent fun hI hok hst => solvent_step hI hok hst

/-- **`s_update_slots_usage` returns in every state of a run.** -/
theorem Solvent.sUpdateSlotsUsage_returns (h : s.Solvent) (e : Env) :
    ∃ sp, s.sUpdateSlotsUsage e = .ok sp := by
  rw [Spool.sUpdateSlotsUsage_ok_iff h.covered, View.orphans_eq_zero]
  intro p hp hnone
  obtain ⟨u, -, hu⟩ := h.queued.owner p hp
  rw [hnone] at hu
  cases hu

end Server

end TaskSpooler
