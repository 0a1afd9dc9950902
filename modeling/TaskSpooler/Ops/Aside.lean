import TaskSpooler.Ops.Steps
import TaskSpooler.Sched.Finished

/-!
# What most operations leave alone

The lock of the server, the list of the waiting sockets and the list of finished jobs are written
to by a few operations only (`Op.Stirs`); the others leave all three as they are
(`Op.aside_run`).
-/

namespace TaskSpooler

namespace Spool

variable {e : Env} {s s' : Spool} {p : Job} {jobid pid socket : ℤ} {f : Job → Job}

/-- The user who has locked the server, and when he did. -/
def lock (s : Spool) : Option ℕ × ℤ := (s.userLocker, s.lockerTime)

/-- The lock of the server, the waiting sockets and the finished jobs. -/
def aside (s : Spool) : (Option ℕ × ℤ) × List (ℤ × ℤ) × List Job :=
  (s.lock, s.notifies, s.finishedJobs)

theorem lock_of_aside (h : s'.aside = s.aside) : s'.lock = s.lock := congrArg Prod.fst h

theorem notifies_of_aside (h : s'.aside = s.aside) : s'.notifies = s.notifies :=
  congrArg (fun a => a.2.1) h

theorem finishedJobs_of_aside (h : s'.aside = s.aside) : s'.finishedJobs = s.finishedJobs :=
  congrArg (fun a => a.2.2) h

theorem aside_onQueue {g : Queue → Queue} (h : (g s.toQueue).finishedJobs = s.finishedJobs) :
    (s.onQueue g).aside = s.aside := by
  show (s.lock, s.notifies, (g s.toQueue).finishedJobs) = s.aside
  rw [h]
  rfl

@[simp] theorem aside_modUser {u : Option ℕ} {f : User → User} : (s.modUser u f).aside = s.aside :=
  aside_onQueue Queue.finishedJobs_modUser

@[simp] theorem aside_freeCores : (s.freeCores p).aside = s.aside :=
  aside_onQueue Queue.finishedJobs_freeCores

@[simp] theorem aside_modJob : (s.modJob jobid f).aside = s.aside := rfl

@[simp] theorem aside_send (r : Reply) : (s.send socket r).aside = s.aside := rfl

@[simp] theorem aside_sendLine (text : String) : (s.sendLine socket text).aside = s.aside := rfl

@[simp] theorem aside_log (ev : Event) : (s.log ev).aside = s.aside := rfl

@[simp] theorem aside_updateDb : (s.updateDb jobid f).aside = s.aside := rfl

@[simp] theorem aside_mkdirCgroup : (s.mkdirCgroup jobid pid).aside = s.aside := by
  rw [mkdirCgroup]
  split_ifs <;> rfl

@[simp] theorem aside_modCgroup {f : Cgroup → Cgroup} : (s.modCgroup jobid pid f).aside = s.aside := rfl

@[simp] theorem aside_cgroupsCreateJob : (s.cgroupsCreateJob p).aside = s.aside := by
  rw [cgroupsCreateJob]
  split_ifs
  · rfl
  · exact aside_mkdirCgroup

@[simp] theorem aside_cgroupsCleanJob : (s.cgroupsCleanJob p).aside = s.aside := by
  rw [cgroupsCleanJob]
  split_ifs <;> rfl

@[simp] theorem aside_cgroupsSetCpuset {a : CpuBind.CpuAlloc} :
    (s.cgroupsSetCpuset e jobid pid a).aside = s.aside := by
  rw [cgroupsSetCpuset]
  split_ifs
  · rfl
  · rw [aside_modCgroup, aside_mkdirCgroup]

@[simp] theorem aside_freeAlloc {ptr : Option ℕ} : (s.freeAlloc e ptr).aside = s.aside := by
  unfold freeAlloc
  cases ptr with
  | none => rfl
  | some ptr =>
    dsimp only
    split <;> rfl

@[simp] theorem aside_freeBind : (s.freeBind e p).aside = s.aside := by
  rw [freeBind, aside_modJob, aside_freeAlloc]

@[simp] theorem aside_bindCpus : (s.bindCpus e p).aside = s.aside := by
  rw [bindCpus]
  split
  · exact aside_cgroupsSetCpuset
  · rfl

@[simp] theorem aside_defragIo {a : CpuBind.CpuAlloc} : (s.defragIo e a).aside = s.aside := by
  rw [defragIo]
  cases s.findjob a.jobid with
  | none => rfl
  | some p =>
    dsimp only
    split
    · rw [aside_modCgroup, aside_mkdirCgroup]
    · rfl

theorem aside_foldl {α : Type*} {f : Spool → α → Spool} (h : ∀ s a, (f s a).aside = s.aside)
    (l : List α) (s : Spool) : (l.foldl f s).aside = s.aside := by
  induction l generalizing s with
  | nil => rfl
  | cons a l ih => rw [List.foldl_cons, ih, h]

@[simp] theorem aside_defrag : (s.defrag e).aside = s.aside := by
  rw [defrag]
  split_ifs
  · exact aside_foldl (fun _ _ => aside_defragIo) _ _
  · rfl

@[simp] theorem aside_pauseJobConfig : (s.pauseJobConfig e p).aside = s.aside := by
  rw [pauseJobConfig]
  split_ifs <;> rfl

@[simp] theorem aside_rerunJobConfig : (s.rerunJobConfig e p).aside = s.aside := by
  rw [rerunJobConfig]
  split_ifs <;> rfl

@[simp] theorem aside_configRunning : (s.configRunning e p).aside = s.aside := by
  have hthaw : (if s.isSleep e p = 1 then s.cgroupsThawJob p else s).aside = s.aside := by
    split_ifs <;> rfl
  rw [configRunning, apply_ite aside, aside_bindCpus, ite_self, aside_rerunJobConfig, aside_updateDb,
    aside_onQueue Queue.finishedJobs_start, hthaw]

@[simp] theorem aside_safePauseJob : (s.safePauseJob e p).aside = s.aside := by
  rw [safePauseJob, aside_pauseJobConfig, aside_freeBind, aside_freeCores]
  rfl

@[simp] theorem aside_sRelegateJob : (s.sRelegateJob e p).aside = s.aside := by
  rw [sRelegateJob, aside_modJob, aside_updateDb, apply_ite aside, aside_safePauseJob, ite_self]

theorem aside_checkHealth : (s.checkHealth e jobid).aside = s.aside := by
  rw [checkHealth]
  cases s.findjob jobid with
  | none => rfl
  | some p =>
    dsimp only
    split_ifs
    · rw [aside_defrag, aside_freeBind, aside_freeCores]
      rfl
    · rfl
    · rfl

/-! ### Functions that can fail -/

theorem aside_sMarkJobRunning (h : s.sMarkJobRunning e jobid = .ok s') : s'.aside = s.aside := by
  rw [sMarkJobRunning] at h
  cases hp : s.findjob jobid with
  | none => simp only [hp, reduceCtorEq] at h
  | some p =>
    simp only [hp] at h
    split_ifs at h
    · cases h
      rfl
    · cases h
      rw [aside_configRunning, aside_modJob]

theorem aside_sSendRunjob (h : s.sSendRunjob socket jobid = .ok s') : s'.aside = s.aside := by
  obtain ⟨p, -, rfl⟩ := sSendRunjob_spec h
  rfl

theorem aside_dispatch {uid : ℕ} (h : s.dispatch e uid p = .ok s') : s'.aside = s.aside := by
  simp only [dispatch, Except.bind_eq_ok] at h
  obtain ⟨s₁, h₁, s₂, h₂, h⟩ := h
  cases h
  have htake : s₁.aside = s.aside := by
    rw [takeJob] at h₁
    split_ifs at h₁
    · exact (aside_sMarkJobRunning h₁).trans rfl
    · cases h₁
      exact aside_configRunning
  rw [aside_log, aside_onQueue rfl, aside_sSendRunjob h₂, htake]

theorem aside_recount (h : s.recount = .ok s') : s'.aside = s.aside := by
  rw [recount] at h
  dsimp only at h
  split_ifs at h
  · cases h
    rfl
  · cases h
    rfl

@[simp] theorem aside_insertFinishedDb : (s.insertFinishedDb p).aside = s.aside := by
  rw [insertFinishedDb]
  split <;> rfl

theorem aside_sDeleteJob (h : s.sDeleteJob jobid = .ok s') : s'.aside = s.aside := by
  rw [sDeleteJob] at h
  split at h
  · cases h
  · cases h
    rfl

theorem aside_newjobEnqueue : (s.newjobEnqueue p).aside = s.aside := by
  rw [newjobEnqueue]
  split
  · exact aside_modUser (s := s.modJob p.jobid (Job.setState .queued))
  · rfl
  · exact aside_modUser (s := s.insertJobsDb p)

theorem aside_newjobFill {m : NewJob} {user : ℕ} {old : Option Job} {r : Spool × ℤ}
    (h : s.newjobFill e socket m user old = .ok r) : r.1.aside = s.aside := by
  rw [newjobFill] at h
  dsimp only at h
  have hids : (if old = none then { s with jobids := s.nextJobids m } else s).aside = s.aside := by
    split_ifs <;> rfl
  revert h hids
  generalize (if old = none then { s with jobids := s.nextJobids m } else s) = s₁
  intro h hids
  split at h
  · cases h
    refine Eq.trans (aside_send _) (Eq.trans (aside_onQueue ?_) hids)
    split_ifs <;> rfl
  · rw [Except.bind_eq_ok] at h
    obtain ⟨⟨q, p⟩, hloop, h⟩ := h
    obtain ⟨ds, rfl, -, -⟩ := Queue.dependLoop_spec hloop
    cases h
    refine Eq.trans aside_newjobEnqueue (Eq.trans (aside_onQueue ?_) hids)
    split_ifs <;> rfl

theorem aside_sProcessRunjobOk {oname : Option String}
    (h : s.sProcessRunjobOk e jobid oname pid = .ok s') : s'.aside = s.aside := by
  rw [sProcessRunjobOk] at h
  split at h
  · cases h
  rename_i p hp
  split_ifs at h
  · cases h
    rfl
  all_goals
    dsimp only at h
    split at h
    · cases h
    · split_ifs at h
      all_goals
        cases h
        refine (aside_cgroupsCreateJob (p := p.setPid pid)).trans ?_
        first | exact aside_bindCpus | rfl

@[simp] theorem aside_toBottom {ids : List ℤ} : (s.toBottom ids).aside = s.aside := by
  rw [toBottom, aside_foldl (f := movebottomDb) fun _ _ => rfl]
  rfl

@[simp] theorem aside_swapDb {jobid₁ jobid₂ : ℤ} : (s.swapDb jobid₁ jobid₂).aside = s.aside := by
  rw [swapDb]
  split <;> rfl

theorem aside_sMoveUrgent : (s.sMoveUrgent socket jobid).aside = s.aside := by
  rw [sMoveUrgent]
  split <;> rfl

theorem aside_sSwapJobs {jobid₁ jobid₂ : ℤ} : (s.sSwapJobs socket jobid₁ jobid₂).aside = s.aside := by
  rw [sSwapJobs]
  split
  · rw [aside_send, aside_swapDb, aside_onQueue rfl]
  · rfl

theorem aside_sAddWtime {w : ℤ} : (s.sAddWtime socket jobid w).aside = s.aside := by
  rw [sAddWtime]
  split_ifs
  · rfl
  · split
    · rfl
    · dsimp only
      split_ifs <;> rfl

end Spool

namespace Op

/-- The operation may write to the lock, to the waiting sockets or to the finished jobs. -/
def Stirs : Op → Prop
  | settings .. | finish .. | notify _ | removeActive _ | removeFinished _ | clear _ | wait ..
  | unnotify _ | reconnect .. => True
  | _ => False

/-- **The other operations leave all of them as they are.** -/
theorem aside_run {e : Env} {s s' : Spool} {o : Op} (h : o.run e s = .ok s') (ho : ¬o.Stirs) :
    s'.aside = s.aside := by
  cases o with
  | settings l t env dir b | finish r jobid | notify jobid | removeActive p | removeFinished p
  | clear user | wait socket p | unnotify socket | reconnect p st socket => exact absurd trivial ho
  | recount => exact Spool.aside_recount h
  | dispatch uid p => exact Spool.aside_dispatch h
  | fill socket m user old =>
    rw [run, Except.map_eq_ok] at h
    obtain ⟨r, hr, rfl⟩ := h
    exact Spool.aside_newjobFill hr
  | runjobOk jobid oname pid => exact Spool.aside_sProcessRunjobOk h
  | delete jobid => exact Spool.aside_sDeleteJob h
  | runjob socket jobid => exact Spool.aside_sSendRunjob h
  | pause p =>
    cases h
    exact Spool.aside_safePauseJob
  | relegate p =>
    cases h
    exact Spool.aside_sRelegateJob
  | bottom ids =>
    cases h
    exact Spool.aside_toBottom
  | health jobid =>
    cases h
    exact Spool.aside_checkHealth
  | start p =>
    cases h
    exact Spool.aside_configRunning
  | lock p =>
    cases h
    rw [Spool.sLockQueue, Spool.aside_updateDb, Spool.aside_modJob,
      Spool.aside_onQueue Queue.finishedJobs_modUser]
  | unlock p =>
    cases h
    rw [Spool.sUnlockQueue, Spool.aside_updateDb, Spool.aside_modJob,
      Spool.aside_onQueue Queue.finishedJobs_modUser]
  | urgent socket jobid =>
    cases h
    exact Spool.aside_sMoveUrgent
  | swap socket jobid₁ jobid₂ =>
    cases h
    exact Spool.aside_sSwapJobs
  | addWtime socket jobid w =>
    cases h
    exact Spool.aside_sAddWtime
  | _ =>
    cases h
    rfl

end Op

end TaskSpooler
