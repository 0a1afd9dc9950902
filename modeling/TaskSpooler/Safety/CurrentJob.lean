import TaskSpooler.Ops.Runs
import TaskSpooler.Safety.KeepsFront

/-!
# The current job

`ts -k`, `-p`, `-c` and `-t` without an id ask for the job `-1`.  While slots are busy, the server takes
the first active job for it.  The comments of the source call it the running job, but nothing keeps the
running jobs in front: a job that was submitted later may be started before the others, the first job
may be paused or end while the ones behind it wait, and a job that waits can be made urgent.

`Server.KeepsFront` says for each step what it has to find in the queue, so that a running job is in front
afterwards.  In a run of such steps the requests find a running job in every state
(`current_job_runs`).
-/

namespace TaskSpooler

/-! ### The requests -/

namespace Spool

variable {e : Env} {s s' : Spool} {p : Job}

/-- For `-1`, the three requests act on the job. -/
structure Selects (s : Spool) (p : Job) : Prop where
  current : s.currentJob (-1) = .ok (some p)
  output : ∀ socket, s.sSendOutput socket (-1) =
    .ok (s.send socket (.output p.storeOutput p.pid (if p.storeOutput then p.outputFilename else none)))
  info : ∀ socket, s.sJobInfo socket (-1) =
    if p.user = none ∨ (p.outputFilename = none ∧ p.workDir = none) then .error .nullPointer
    else .ok (s.send socket (.info p))
  wait : ∀ socket, s.sWaitRunningJob socket (-1) = .ok (s.waitFor socket p)

/-- While slots are busy, the requests act on a running job for `-1`, and there always is a job. -/
structure CurrentRuns (s : Spool) : Prop where
  running : 0 < s.busySlots → ∃ p ∈ s.activeJobs, p.state = .running ∧ s.Selects p
  found : ∀ jobid, s.currentJob jobid ≠ .error .noActiveJob

theorem selects_first {rest : List Job} (hbusy : 0 < s.busySlots) (hl : s.activeJobs = p :: rest)
    (hst : p.state = .running) : s.Selects p := by
  have hcurrent : s.currentJob (-1) = .ok (some p) := by
    rw [currentJob, if_pos rfl, if_pos hbusy, hl]
  have hno : s.noJobs (-1) = false := by
    simp [noJobs, hbusy]
  refine ⟨hcurrent, fun socket => ?_, fun socket => ?_, fun socket => ?_⟩
  · simp [sSendOutput, hno, hcurrent, hst, bind, Except.bind]
  · rw [sJobInfo, hno, hcurrent]
    rfl
  · rw [sWaitRunningJob, hno, hcurrent]
    rfl

/-- **The current job runs** if the first job does. -/
theorem currentRuns_iff : s.CurrentRuns ↔ s.Headed := by
  constructor
  · intro h
    by_cases hbusy : 0 < s.busySlots
    · obtain ⟨p, -, hst, hsel⟩ := h.running hbusy
      have hcurrent := hsel.current
      rw [currentJob, if_pos rfl, if_pos hbusy] at hcurrent
      cases hl : s.activeJobs with
      | nil =>
        rw [hl] at hcurrent
        cases hcurrent
      | cons x rest =>
        rw [hl] at hcurrent
        cases hcurrent
        exact .inr (runsFirst_iff.2 ⟨p, rest, hl, hst⟩)
    · exact .inl (Int.not_lt.1 hbusy)
  · intro h
    have hfirst : 0 < s.busySlots → ∃ p rest, s.activeJobs = p :: rest ∧ p.state = .running :=
      fun hbusy => runsFirst_iff.1 (h.resolve_left (Int.not_le.2 hbusy))
    refine ⟨fun hbusy => ?_, fun jobid => ?_⟩
    · obtain ⟨p, rest, hl, hst⟩ := hfirst hbusy
      exact ⟨p, hl ▸ List.mem_cons_self, hst, selects_first hbusy hl hst⟩
    · rw [currentJob]
      split_ifs with hid hbusy
      · obtain ⟨p, rest, hl, -⟩ := hfirst hbusy
        rw [hl]
        exact fun h => by cases h
      · exact fun h => by cases h
      · exact fun h => by cases h

end Spool

namespace Server

open Spool

variable {C : Config} {s₀ s s' : Server} {l : Env × Input}

/-- **The current job runs** in every state of a run whose steps keep the front. -/
theorem current_job_runs (h₀ : s₀.Fresh) (h : Run (Step C) KeepsFront s₀ s) : s.CurrentRuns := by
  have hinv := h.invariant (I := fun s => s.Sound ∧ s.view.Tame ∧ s.Headed)
    ⟨h₀.sound, h₀.tame, .inl h₀.busySlots.le⟩ fun {s l s'} hI hok hst =>
      ⟨hst.sound hI.1, tame_step hI.1 hI.2.1 hok.1 hst, headed_step hI.1 hI.2.1 hI.2.2 hok hst⟩
  exact currentRuns_iff.2 hinv.2.2

/-- The only job is the one that is started. -/
theorem firstInTurn_oneQueued : FirstInTurn (world 3) oneQueued.toSpool := by
  refine ⟨oneQueued.activeJobs.head (by decide +kernel), [], rfl, by decide +kernel, by decide +kernel,
    1, by decide +kernel, by decide +kernel, by decide +kernel, fun j hj => .inl ?_⟩
  obtain rfl : j = 0 := by omega
  decide +kernel

/-- A job is submitted and started. -/
theorem started_job_is_current : 0 < oneRunning.busySlots ∧ oneRunning.CurrentRuns := by
  have haccept : KeepsFront (world 1, .accept 5 1000) started :=
    ⟨by decide, ⟨trivial, trivial⟩, trivial⟩
  have hqueued : KeepsFront (world 2, .message 0 (.newjob {})) (started.enter 5 1000) :=
    ⟨by decide, ⟨by decide, trivial⟩, .inr fun p hp => absurd hp List.not_mem_nil⟩
  have hrunning : KeepsFront (world 3, .schedule) oneQueued :=
    ⟨by decide +kernel, ⟨trivial, trivial⟩, .inr (.inr firstInTurn_oneQueued)⟩
  have h₁ : Step plainConfig started (world 1, .accept 5 1000) (started.enter 5 1000) :=
    ⟨rfl, by decide, rfl⟩
  have h₂ : Step plainConfig (started.enter 5 1000) (world 2, .message 0 (.newjob {})) oneQueued :=
    ⟨rfl, by decide, step_after (by decide +kernel)⟩
  have h₃ : Step plainConfig oneQueued (world 3, .schedule) oneRunning :=
    ⟨rfl, trivial, step_after (by decide +kernel)⟩
  have hrun : Run (Step plainConfig) KeepsFront started oneRunning :=
    ((Run.start.next haccept h₁).next hqueued h₂).next hrunning h₃
  exact ⟨by decide +kernel, current_job_runs fresh_started hrun⟩

/-- A job runs, and one that waits for slots is made urgent: it is the current job. -/
theorem urgent_job_is_current : ¬∀ (C : Config) (s₀ s : Server), s₀.Fresh →
    Run (Step C) anyInput s₀ s → s.CurrentRuns := by
  intro hall
  obtain ⟨s, hr, hP⟩ := exists_run plainConfig anyInput started
    (fun s : Server => decide (0 < s.busySlots) &&
      s.activeJobs.head?.all fun p : Job => decide (p.state ≠ .running))
    [(world 1, .accept 5 1000), (world 2, .message 0 (.newjob { numSlots := 2 })), (world 3, .schedule),
      (world 4, .accept 6 1000), (world 5, .message 1 (.newjob { numSlots := 2 })),
      (world 6, .accept 7 1000), (world 7, .message 2 (.request (.urgent 1001)))]
    (by simp [world]) (by decide +kernel)
  rw [Bool.and_eq_true, decide_eq_true_iff] at hP
  obtain hbusy | hrun := currentRuns_iff.1 (hall _ _ _ fresh_started hr)
  · omega
  · obtain ⟨p, rest, hl, hst⟩ := runsFirst_iff.1 hrun
    have hfirst := hP.2
    rw [hl] at hfirst
    exact of_decide_eq_true hfirst hst

end Server

end TaskSpooler
