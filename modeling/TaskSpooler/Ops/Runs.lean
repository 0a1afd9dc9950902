import TaskSpooler.Ops.Steps
import TaskSpooler.Server.Runs

/-!
# Runs by operations

Every step of the server is a sequence of operations (`Server.step_ops`).  A restart is one as well:
the new process reads the tables and goes on from there (`Server.base`), and in the end it binds the
CPUs again.

Some properties hold only as long as the operations meet a condition.  A run that does so is a run of
`OpStep`s, and `OpStep.invariant` is the induction over the operations of one step.
-/

namespace TaskSpooler

/-- After the tables have been read, the slots are counted and the CPUs are bound again. -/
theorem Spool.serverMain_ops {e : Env} {s₀ s' : Spool} (h : s₀.serverMain e = .ok s') : ∃ s₁,
    Ops e (fun o s => o.ofUsage e s) (s₀.reload e) s₁ ∧
      (s' = s₁ ∨ s₁.cgroupsRestoreAllCpuBind e = .ok s') := by
  rw [serverMain, Except.bind_eq_ok] at h
  obtain ⟨s₁, h₁, h⟩ := h
  refine ⟨s₁, sUpdateSlotsUsage_ops reload_reloaded.ids h₁, ?_⟩
  split_ifs at h
  · exact .inr h
  · cases h
    exact .inl rfl

namespace Server

variable {C : Config} {ok ok' : Env → Op → Spool → Prop} {s s' : Server} {l : Env × Input}

/-- Where the operations of a step begin: a new process reads the tables first. -/
def base (s : Server) (l : Env × Input) : Spool :=
  match l.2 with
  | .restart => s.reload l.1
  | _ => s.toSpool

theorem base_restart (hi : l.2 = .restart) : s.base l = s.reload l.1 := by
  rw [base, hi]

theorem base_of_ne (hi : l.2 ≠ .restart) : s.base l = s.toSpool := by
  rw [base]
  split
  · exact absurd ‹_› hi
  · rfl

theorem Sound.base (hs : s.Sound) : (s.base l).view.Ids := by
  rw [Server.base]
  split
  · exact Spool.reload_reloaded.ids
  · exact hs.ids

/-- A step whose operations meet a condition. -/
def OpStep (C : Config) (ok : Env → Op → Spool → Prop) (s : Server) (l : Env × Input)
    (s' : Server) : Prop :=
  Step C s l s' ∧ ∃ sp, Ops l.1 (ok l.1) (s.base l) sp ∧
    (s'.toSpool = sp ∨ l.2 = .restart ∧ sp.cgroupsRestoreAllCpuBind l.1 = .ok s'.toSpool)

/-- What a step does, with what was tested before. -/
def Contains (s : Server) (l : Env × Input) (o : Op) (sp : Spool) : Prop :=
  l.2 = .restart ∧ o.ofUsage l.1 sp ∨ l.2 ≠ .restart ∧ s.Performs l.1 l.2 o sp

/-- **Every step is a sequence of operations.** -/
theorem Step.ops (hs : s.Sound) (h : Step C s l s') : ∃ sp, Ops l.1 (s.Contains l) (s.base l) sp ∧
    (s'.toSpool = sp ∨ l.2 = .restart ∧ sp.cgroupsRestoreAllCpuBind l.1 = .ok s'.toSpool) := by
  obtain ⟨-, hen, h⟩ := h
  by_cases hi : l.2 = .restart
  · rw [hi, step, Except.bind_eq_ok] at h
    obtain ⟨sp, hsp, h⟩ := h
    cases h
    obtain ⟨s₁, hops, hend⟩ := Spool.serverMain_ops hsp
    rw [base_restart hi]
    exact ⟨s₁, hops.mono fun o sp ho => .inl ⟨hi, ho⟩, hend.imp_right fun h => ⟨hi, h⟩⟩
  · rw [base_of_ne hi]
    exact ⟨s'.toSpool, (step_ops hs hen hi h).mono fun o sp ho => .inr ⟨hi, ho⟩, .inl rfl⟩

theorem OpStep.mono (h : OpStep C ok s l s') (himp : ∀ o sp, ok l.1 o sp → ok' l.1 o sp) :
    OpStep C ok' s l s' := by
  obtain ⟨hst, sp, hops, hend⟩ := h
  exact ⟨hst, sp, hops.mono himp, hend⟩

/-- **The induction over the operations of a step.** -/
theorem OpStep.invariant {I : Spool → Prop} (h : OpStep C ok s l s') (hs : s.Sound)
    (hinit : I (s.base l))
    (hkeep : ∀ {sp sp' o}, sp.view.Ids → I sp → ok l.1 o sp → o.Pre l.1 sp →
      o.run l.1 sp = .ok sp' → I sp')
    (hrestore : ∀ {sp sp'}, I sp → sp.cgroupsRestoreAllCpuBind l.1 = .ok sp' → I sp') :
    I s'.toSpool := by
  obtain ⟨-, sp, hops, hend⟩ := h
  have hsp : sp.view.Ids ∧ I sp :=
    hops.invariant (I := fun sp => sp.view.Ids ∧ I sp) ⟨hs.base, hinit⟩ fun hI ho hpre hr =>
      ⟨(Op.moves hI.1 hpre hr).ids hI.1, hkeep hI.1 hI.2 ho hpre hr⟩
  obtain hsame | ⟨-, hrest⟩ := hend
  · exact hsame ▸ hsp.2
  · exact hrestore hsp.2 hrest

/-! ### A job that runs and ends -/

/-- The state after an input. -/
def after (s : Server) (l : Env × Input) : Server := (s.step l.1 l.2).toOption.getD s

theorem step_after (h : (s.step l.1 l.2).isOk = true) : s.step l.1 l.2 = .ok (s.after l) := by
  rw [after]
  cases hst : s.step l.1 l.2 with
  | ok s' => rfl
  | error f =>
    rw [hst] at h
    cases h

theorem opStep_after (hC : l.1.toConfig = C) (hen : s.Enabled l.2)
    (hok : (s.step l.1 l.2).isOk = true)
    (hops : Ops l.1 (ok l.1) (s.base l) (s.after l).toSpool) : OpStep C ok s l (s.after l) :=
  ⟨⟨hC, hen, step_after hok⟩, _, hops, .inl rfl⟩

/-- A job is queued. -/
def oneQueued : Server := (started.enter 5 1000).after (world 2, .message 0 (.newjob {}))

/-- The job has been started. -/
def oneRunning : Server := oneQueued.after (world 3, .schedule)

/-- The client has sent the pid of the job. -/
def oneWithPid : Server := oneRunning.after (world 4, .message 0 (.runjobOk none 77))

/-- The job is over. -/
def oneFinished : Server := oneWithPid.after (world 5, .message 0 (.endjob {}))

theorem opStep_accept : OpStep plainConfig ok started (world 1, .accept 5 1000)
    (started.enter 5 1000) :=
  ⟨⟨rfl, by decide, rfl⟩, _, .refl, .inl rfl⟩

theorem opStep_oneQueued (hrecount : ok (world 2) .recount (started.enter 5 1000).toSpool)
    (hok : ∀ o sp, o = .fill 5 {} 1 none ∨ o = .send 5 (.newjobOk 1000) → ok (world 2) o sp) :
    OpStep plainConfig ok (started.enter 5 1000) (world 2, .message 0 (.newjob {})) oneQueued := by
  refine opStep_after rfl (by decide) (by decide +kernel) ?_
  have hcount : Ops (world 2) (ok (world 2)) (started.enter 5 1000).toSpool
      ((started.enter 5 1000).toSpool.onQueue Queue.recount) := .single .recount trivial hrecount rfl
  obtain ⟨sp, hrun, hsp⟩ : ∃ sp, Op.run (world 2)
      ((started.enter 5 1000).toSpool.onQueue Queue.recount) (.fill 5 {} 1 none) = .ok sp ∧
      sp.send 5 (.newjobOk 1000) = oneQueued.toSpool := ⟨_, rfl, rfl⟩
  have hpre : (Op.fill 5 {} 1 none).Pre (world 2)
      ((started.enter 5 1000).toSpool.onQueue Queue.recount) :=
    ⟨by decide, rfl, fun p h => by cases h⟩
  exact (hcount.trans (.single _ hpre (hok _ _ (.inl rfl)) hrun)).trans
    (.single (.send 5 (.newjobOk 1000)) rfl (hok _ _ (.inr rfl)) (congrArg Except.ok hsp))

theorem opStep_oneRunning
    (hok : ∀ p ∈ oneQueued.activeJobs.head?, ok (world 3) (.dispatch 1 p) oneQueued.toSpool) :
    OpStep plainConfig ok oneQueued (world 3, .schedule) oneRunning := by
  refine opStep_after rfl (by decide) (by decide +kernel) ?_
  obtain ⟨p, hp, hpre, hrun⟩ : ∃ p, p ∈ oneQueued.activeJobs.head? ∧
      (Op.dispatch 1 p).Pre (world 3) oneQueued.toSpool ∧
      Op.run (world 3) oneQueued.toSpool (.dispatch 1 p) = .ok oneRunning.toSpool := by
    refine ⟨oneQueued.activeJobs.head (by decide +kernel), rfl, ?_, rfl⟩
    exact ⟨List.head_mem _, by decide +kernel, by decide +kernel, by decide +kernel,
      by decide +kernel⟩
  exact .single _ hpre (hok p hp) hrun

theorem opStep_oneWithPid (hok : ok (world 4) (.runjobOk 1000 none 77) oneRunning.toSpool) :
    OpStep plainConfig ok oneRunning (world 4, .message 0 (.runjobOk none 77)) oneWithPid := by
  refine opStep_after rfl (by decide +kernel) (by decide +kernel) ?_
  have hpos : (0 : ℤ) < 77 := by decide
  exact .single (.runjobOk 1000 none 77) hpos hok rfl

theorem opStep_oneFinished (hfinish : ok (world 5) (.finish {} 1000) oneWithPid.toSpool)
    (hnotify : ∀ sp, sp.notifies = [] → ok (world 5) (.notify 1000) sp)
    (hsend : ∀ j sp, ok (world 5) (.send 5 (.endjobOk 1000 j)) sp) :
    OpStep plainConfig ok oneWithPid (world 5, .message 0 (.endjob {})) oneFinished := by
  refine opStep_after rfl (by decide +kernel) (by decide +kernel) ?_
  obtain ⟨sp, sp', j, hrun, hnone, hrun', hsp⟩ : ∃ sp sp' j,
      Op.run (world 5) oneWithPid.toSpool (.finish {} 1000) = .ok sp ∧ sp.notifies = [] ∧
      Op.run (world 5) sp (.notify 1000) = .ok sp' ∧
      sp'.send 5 (.endjobOk 1000 j) = oneFinished.toSpool := ⟨_, _, _, rfl, rfl, rfl, rfl⟩
  have hend : Ops (world 5) (ok (world 5)) oneWithPid.toSpool sp' :=
    (Ops.single (.finish {} 1000) trivial hfinish hrun).trans
      (.single (.notify 1000) trivial (hnotify sp hnone) hrun')
  exact hend.trans
    (.single (.send 5 (.endjobOk 1000 j)) rfl (hsend j sp') (congrArg Except.ok hsp))

end Server

end TaskSpooler
