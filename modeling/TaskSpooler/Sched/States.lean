import TaskSpooler.Sched.Finished

/-!
# The states of the active jobs

As long as the server is not started again, a job has a pid only while it runs, is paused or has
been given up by the health check, and no job waits for its client to come back: every move keeps
`Job.Proper`.
-/

namespace TaskSpooler

/-- The job has been started. -/
def Job.Started (p : Job) : Prop := p.state = .running ∨ p.state = .pause ∨ p.state = .abnormal

/-- A job has a pid only after it was started. -/
structure Job.Proper (p : Job) : Prop where
  state : p.state ≠ .wait ∧ p.state ≠ .delink
  pid : 0 ≤ p.pid
  started : p.pid ≠ 0 → p.Started
  abnormal : p.state = .abnormal → 0 < p.pid

/-- Every active job is proper. -/
def View.Proper (v : View) : Prop := ∀ p ∈ v.activeJobs, p.Proper

theorem plainFn_proper : PlainFn Job.Proper := fun _ =>
  propext ⟨fun h => ⟨h.state, h.pid, h.started, h.abnormal⟩,
    fun h => ⟨h.state, h.pid, h.started, h.abnormal⟩⟩

namespace Job

variable {p : Job}

theorem Proper.pid_eq (h : p.Proper) (hst : ¬p.Started) : p.pid = 0 := by
  by_contra hpid
  exact hst (h.started hpid)

theorem proper_of_running (h : p.state = .running) (hpid : 0 ≤ p.pid) : p.Proper :=
  ⟨by simp [h], hpid, fun _ => .inl h, by simp [h]⟩

theorem proper_of_pause (h : p.state = .pause) (hpid : 0 ≤ p.pid) : p.Proper :=
  ⟨by simp [h], hpid, fun _ => .inr (.inl h), by simp [h]⟩

theorem proper_of_pid (h : p.state ≠ .wait ∧ p.state ≠ .delink ∧ p.state ≠ .abnormal)
    (hpid : p.pid = 0) : p.Proper :=
  ⟨⟨h.1, h.2.1⟩, hpid.ge, fun hne => absurd hpid hne, fun ha => absurd ha h.2.2⟩

end Job

namespace Act

variable {v : View} {a : Act}

theorem proper_new {p : Job} (hv : v.Proper) (hg : a.Guard v) (hnew : a.new v = some p) :
    p.Proper := by
  have hold : ∀ {p}, a.old v = some p → p.Proper := fun h => of_old plainFn_proper hg hv h
  cases a with
  | pause p =>
    have hp := hold rfl
    cases hnew
    exact Job.proper_of_pause rfl hp.pid
  | relegate p requeue =>
    have hp := hold rfl
    cases hnew
    split_ifs
    · exact Job.proper_of_pause rfl hp.pid
    · exact Job.proper_of_pause rfl hp.pid
  | abnormal p =>
    have hp := hold rfl
    cases hnew
    exact ⟨by simp [Job.setState], hp.pid, fun _ => .inr (.inr rfl), fun _ => hg.2.2⟩
  | wall p w =>
    have hp := hold rfl
    cases hnew
    exact ⟨hp.state, hp.pid, hp.started, hp.abnormal⟩
  | start p =>
    have hp := hold rfl
    cases hnew
    exact Job.proper_of_running rfl hp.pid
  | dispatch uid p q =>
    have hp := hold rfl
    cases hnew
    exact Job.proper_of_running rfl hp.pid
  | asleep uid p q =>
    have hp := hold rfl
    cases hnew
    exact Job.proper_of_pause rfl hp.pid
  | wake p =>
    have hp := hold rfl
    cases hnew
    exact Job.proper_of_pid (by simp [Job.setState]) (hp.pid_eq (by simp [Job.Started, hg.2]))
  | lock p =>
    have hp := hold rfl
    cases hnew
    exact Job.proper_of_pid (by simp [Job.setState]) (hp.pid_eq (by simp [Job.Started, hg.2]))
  | unlock p =>
    have hp := hold rfl
    cases hnew
    exact Job.proper_of_pid (by simp [Job.setState]) (hp.pid_eq (by simp [Job.Started, hg.2]))
  | submit p ds n m q =>
    obtain ⟨-, -, -, hst, -, hpid, -⟩ := hg
    cases hnew
    refine Job.proper_of_pid ?_ hpid
    obtain hst | hst := hst <;> simp [hst]
  | reuse p₀ p ds m q =>
    obtain ⟨-, -, hst, hpid, -, -, -, hstate, -⟩ := hg
    have hp := hold rfl
    cases hnew
    -- the record keeps its pid, and a locked job has none
    have hlocked := locked_of_reuse hst hstate hp.state
    refine Job.proper_of_pid (by simp [Job.setState, hlocked]) ?_
    exact hpid.symm.trans (hp.pid_eq (by simp [Job.Started, hst, hlocked]))
  | gone p =>
    have hp := hold rfl
    cases hnew
    refine Job.proper_of_pid (by simp [Job.gone]) (hp.pid_eq ?_)
    rintro (h | h | h)
    · exact hg.2.1 h
    · exact hg.2.2.1 h
    · exact hg.2.2.2 h
  | pid p n =>
    cases hnew
    exact Job.proper_of_running hg.2.1 hg.2.2.le
  | reconnect p st socket =>
    obtain ⟨hold', hsame⟩ := new_reconnect hg hnew
    have hp := hold hold'
    rw [hsame hp.state.2]
    exact ⟨hp.state, hp.pid, hp.started, hp.abnormal⟩
  | _ => cases hnew

/-- **A move keeps the jobs proper.** -/
theorem proper_apply (hids : v.Ids) (hv : v.Proper) (hg : a.Guard v) : (a.apply v).Proper :=
  forall_apply plainFn_proper hids hg hv fun _ hnew => proper_new hv hg hnew

/-- Only a job that was never started can be removed. -/
theorem not_shelved {p : Job} {x : ℕ × Job} (hv : v.Proper) : ¬(drop p (some x)).Guard v := by
  intro hg
  obtain ⟨hpid, hst, -⟩ := hg.2.2 x rfl
  have hp : p.Proper := of_old (v := v) (a := .drop p (some x)) plainFn_proper hg hv rfl
  obtain h | h | h := hp.started hpid <;> simp [hst] at h

end Act

/-! ### Runs without a restart -/

namespace Server

variable {s s' s₀ : Server} {C : Config} {l : Env × Input}

/-- What every step but a restart keeps: the server is sound, finished jobs are over, and active
jobs have a process only once they were started. -/
structure Tidy (s : Server) : Prop where
  sound : s.Sound
  settled : s.view.Settled
  proper : s.view.Proper

theorem ne_restart_of_noRestart (h : noRestart l s) : l.2 ≠ .restart := by
  intro hl
  simp [noRestart, hl] at h

theorem Tidy.step (hs : s.Tidy) (hok : noRestart l s) (h : Step C s l s') : s'.Tidy := by
  have hmoves := (step_course (K := fun _ => True) hs.sound h.2.1 (ne_restart_of_noRestart hok)
    (fun _ _ => trivial) h.2.2).toMoves
  refine ⟨h.sound hs.sound, hmoves.settled hs.sound.ids hs.settled, ?_⟩
  exact (hmoves.invariant (I := fun w => w.Ids ∧ w.Proper) ⟨hs.sound.ids, hs.proper⟩
    fun hI _ hg => ⟨Act.ids_apply hI.1 hg, Act.proper_apply hI.1 hI.2 hg⟩).2

theorem Fresh.tidy (h : s.Fresh) : s.Tidy := by
  refine ⟨h.sound, h.settled, fun p hp => ?_⟩
  rw [h.view_activeJobs] at hp
  exact absurd hp List.not_mem_nil

/-- Every state of a run without a restart is tidy. -/
theorem Run.tidy (h₀ : s₀.Fresh) (h : Run (Step C) noRestart s₀ s) : s.Tidy :=
  h.invariant h₀.tidy fun hs hok hst => hs.step hok hst

end Server

end TaskSpooler
