import TaskSpooler.Store.Table
import TaskSpooler.Sched.Usage

/-!
# The books of the server

The queue is kept twice: in `active_jobs`, and in the table `Jobs` with its column `order_id`.  The
same holds for the finished jobs and for the counter of job ids.  `Spool.ledger` is what these books
say: the job ids in memory, the order of the rows, and the two counters.

The lemmas here say which functions leave the books alone.
-/

namespace TaskSpooler

/-- The job ids in memory and in the tables. -/
@[ext]
structure Ledger where
  /-- The ids of `active_jobs`. -/
  active : List ℤ
  /-- The ids of `finished_jobs`. -/
  shelf : List ℤ
  /-- The column `order_id` of the table `Jobs`. -/
  order : ℤ → Option ℤ
  /-- The keys of the table `Finished`. -/
  filed : List ℤ
  jobids : ℤ
  dbJobids : ℤ
  /-- `TS_SORTJOBS`. -/
  sorts : Bool

namespace Queue

variable {q : Queue} {p : Job} {jobid : ℤ} {f : Job → Job}

/-- The ids of the jobs, and the counter. -/
def ids (q : Queue) : List ℤ × List ℤ × ℤ :=
  (q.activeJobs.map Job.jobid, q.finishedJobs.map Job.jobid, q.jobids)

theorem ids_modJob {k : ℤ} (hf : ∀ p, (f p).jobid = p.jobid) : (q.modJob k f).ids = q.ids := by
  rw [ids, ids]
  have h : (q.modJob k f).activeJobs.map Job.jobid = q.activeJobs.map Job.jobid :=
    Keyed.map_modify fun p _ _ => hf p
  rw [h]
  rfl

theorem ids_modAnyJob (hf : ∀ p, (f p).jobid = p.jobid) : (q.modAnyJob jobid f).ids = q.ids := by
  rw [modAnyJob]
  split_ifs
  · exact ids_modJob hf
  · rw [ids, ids]
    have h : (Keyed.modifyFirst Job.jobid jobid f q.finishedJobs).map Job.jobid =
        q.finishedJobs.map Job.jobid := Keyed.map_modifyFirst fun p _ _ => hf p
    rw [h]

theorem ids_modUser {u : Option ℕ} {f : User → User} : (q.modUser u f).ids = q.ids := by
  cases u <;> rfl

theorem ids_freeCores : (q.freeCores p).ids = q.ids := by
  rw [freeCores]
  split_ifs
  · rfl
  · rw [ids_modJob (f := Job.freed) fun _ => rfl]
    exact ids_modUser (q := q)

theorem ids_start : (q.start p).ids = q.ids := by
  rw [start, ids_modJob (f := Job.started) fun _ => rfl]
  exact ids_modUser (q := q)

theorem ids_notifyErrorlevel : (q.notifyErrorlevel p).ids = q.ids := by
  have hfold : ∀ (l : List ℤ) (q : Queue), (l.foldl (fun q jobid =>
      q.modAnyJob jobid (Job.addErrorlevel p.result.errorlevel)) q).ids = q.ids := by
    intro l
    induction l with
    | nil => exact fun q => rfl
    | cons jobid l ih =>
      intro q
      rw [List.foldl_cons, ih]
      exact ids_modAnyJob fun _ => rfl
  exact hfold _ _

theorem ids_finish {r : Result} : (q.finish r p).ids = q.ids := by
  rw [finish, ids_notifyErrorlevel]
  refine (ids_modJob (q := q.freeCores p) (f := Job.done r) (k := p.jobid) ?_).trans ids_freeCores
  exact fun _ => rfl

end Queue

namespace Spool

variable {e : Env} {s : Spool} {p : Job} {jobid pid socket : ℤ} {f : Job → Job}

/-- What the books say. -/
def ledger (s : Spool) : Ledger where
  active := s.activeJobs.map Job.jobid
  shelf := s.finishedJobs.map Job.jobid
  order := s.dbJobs.order
  filed := s.dbFinished.keys
  jobids := s.jobids
  dbJobids := s.dbJobids
  sorts := s.jobsortFlag

/-! ### Functions that leave the books alone -/

theorem ledger_onQueue {f : Queue → Queue} (h : (f s.toQueue).ids = s.toQueue.ids) :
    (s.onQueue f).ledger = s.ledger := by
  simp only [Queue.ids, Prod.mk.injEq] at h
  simp only [ledger, onQueue, h]

theorem ledger_modJob {k : ℤ} (hf : ∀ p, (f p).jobid = p.jobid) :
    (s.modJob k f).ledger = s.ledger :=
  ledger_onQueue (Queue.ids_modJob hf)

@[simp] theorem ledger_send (r : Reply) : (s.send socket r).ledger = s.ledger := rfl

@[simp] theorem ledger_sendLine (text : String) : (s.sendLine socket text).ledger = s.ledger := rfl

@[simp] theorem ledger_log (ev : Event) : (s.log ev).ledger = s.ledger := rfl

@[simp] theorem ledger_updateDb : (s.updateDb jobid f).ledger = s.ledger := by
  have h : (s.updateDb jobid f).dbJobs.order = s.dbJobs.order := Table.order_update fun _ => rfl
  rw [ledger, ledger, h]
  rfl

@[simp] theorem ledger_modCgroup {f : Cgroup → Cgroup} :
    (s.modCgroup jobid pid f).ledger = s.ledger := rfl

@[simp] theorem ledger_mkdirCgroup : (s.mkdirCgroup jobid pid).ledger = s.ledger := by
  rw [mkdirCgroup]
  split_ifs <;> rfl

@[simp] theorem ledger_cgroupsFreezeJob : (s.cgroupsFreezeJob p).ledger = s.ledger := rfl

@[simp] theorem ledger_cgroupsThawJob : (s.cgroupsThawJob p).ledger = s.ledger := rfl

@[simp] theorem ledger_cgroupsCreateJob : (s.cgroupsCreateJob p).ledger = s.ledger := by
  rw [cgroupsCreateJob]
  split_ifs
  · rfl
  · exact ledger_mkdirCgroup

@[simp] theorem ledger_cgroupsCleanJob : (s.cgroupsCleanJob p).ledger = s.ledger := by
  rw [cgroupsCleanJob]
  split_ifs <;> rfl

@[simp] theorem ledger_cgroupsSetCpuset {a : CpuBind.CpuAlloc} :
    (s.cgroupsSetCpuset e jobid pid a).ledger = s.ledger := by
  rw [cgroupsSetCpuset]
  split_ifs
  · rfl
  · rw [ledger_modCgroup, ledger_mkdirCgroup]

@[simp] theorem ledger_freeAlloc {ptr : Option ℕ} : (s.freeAlloc e ptr).ledger = s.ledger := by
  unfold freeAlloc
  cases ptr with
  | none => rfl
  | some ptr =>
    dsimp only
    split <;> rfl

@[simp] theorem ledger_freeBind : (s.freeBind e p).ledger = s.ledger := by
  rw [freeBind, ledger_modJob, ledger_freeAlloc]
  exact fun _ => rfl

@[simp] theorem ledger_bindCpus : (s.bindCpus e p).ledger = s.ledger := by
  rw [bindCpus]
  split
  · rw [ledger_cgroupsSetCpuset, ledger_modJob]
    · rfl
    · exact fun _ => rfl
  · rw [ledger_modJob]
    · rfl
    · exact fun _ => rfl

@[simp] theorem ledger_defragIo {a : CpuBind.CpuAlloc} : (s.defragIo e a).ledger = s.ledger := by
  rw [defragIo]
  cases s.findjob a.jobid with
  | none => rfl
  | some p =>
    dsimp only
    split
    · rw [ledger_modCgroup, ledger_mkdirCgroup]
    · rfl

theorem ledger_foldl {α : Type*} {f : Spool → α → Spool} (h : ∀ s a, (f s a).ledger = s.ledger)
    (l : List α) (s : Spool) : (l.foldl f s).ledger = s.ledger := by
  induction l generalizing s with
  | nil => rfl
  | cons a l ih => rw [List.foldl_cons, ih, h]

@[simp] theorem ledger_defrag : (s.defrag e).ledger = s.ledger := by
  rw [defrag]
  split_ifs
  · exact ledger_foldl (fun _ _ => ledger_defragIo) _ _
  · rfl

@[simp] theorem ledger_pauseJobConfig : (s.pauseJobConfig e p).ledger = s.ledger := by
  rw [pauseJobConfig]
  split_ifs
  · rw [ledger_updateDb, ledger_modJob]
    exact fun _ => rfl
  · rfl

@[simp] theorem ledger_rerunJobConfig : (s.rerunJobConfig e p).ledger = s.ledger := by
  rw [rerunJobConfig]
  split_ifs
  · rw [ledger_updateDb, ledger_modJob]
    exact fun _ => rfl
  · rfl

@[simp] theorem ledger_freeCores : (s.freeCores p).ledger = s.ledger :=
  ledger_onQueue Queue.ids_freeCores

theorem ledger_configRunning : (s.configRunning e p).ledger = s.ledger := by
  have hthaw : (if s.isSleep e p = 1 then s.cgroupsThawJob p else s).ledger = s.ledger := by
    split_ifs <;> rfl
  rw [configRunning, apply_ite ledger, ledger_bindCpus, ite_self, ledger_rerunJobConfig,
    ledger_updateDb, ledger_onQueue Queue.ids_start, hthaw]

theorem ledger_safePauseJob : (s.safePauseJob e p).ledger = s.ledger := by
  rw [safePauseJob, ledger_pauseJobConfig, ledger_freeBind, ledger_freeCores,
    ledger_cgroupsFreezeJob]

theorem ledger_sRelegateJob : (s.sRelegateJob e p).ledger = s.ledger := by
  rw [sRelegateJob, ledger_modJob (f := Job.relegated) fun _ => rfl, ledger_updateDb,
    apply_ite ledger, ledger_safePauseJob, ite_self]

theorem ledger_checkHealth : (s.checkHealth e jobid).ledger = s.ledger := by
  rw [checkHealth]
  cases s.findjob jobid with
  | none => rfl
  | some p =>
    dsimp only
    split_ifs
    · rw [ledger_defrag, ledger_freeBind, ledger_freeCores,
        ledger_modJob (f := Job.setState .abnormal) fun _ => rfl]
    · exact ledger_modJob fun _ => rfl
    · rfl

theorem ledger_sMarkJobRunning {s' : Spool} (h : s.sMarkJobRunning e jobid = .ok s') :
    s'.ledger = s.ledger := by
  rw [sMarkJobRunning] at h
  cases hp : s.findjob jobid with
  | none => simp only [hp, reduceCtorEq] at h
  | some p =>
    simp only [hp] at h
    split_ifs at h
    · cases h
      rw [ledger_modJob (f := Job.setState .pause) fun _ => rfl, ledger_modJob]
      exact fun _ => rfl
    · cases h
      rw [ledger_configRunning, ledger_modJob]
      exact fun _ => rfl

theorem ledger_sSendRunjob {s' : Spool} (h : s.sSendRunjob socket jobid = .ok s') :
    s'.ledger = s.ledger := by
  obtain ⟨p, -, rfl⟩ := sSendRunjob_spec h
  rfl

theorem ledger_dispatch {s' : Spool} {uid : ℕ} (h : s.dispatch e uid p = .ok s') :
    s'.ledger = s.ledger := by
  simp only [dispatch, Except.bind_eq_ok] at h
  obtain ⟨s₁, h₁, s₂, h₂, h⟩ := h
  cases h
  have htake : s₁.ledger = s.ledger := by
    rw [takeJob] at h₁
    split_ifs at h₁
    · rw [ledger_sMarkJobRunning h₁]
      exact ledger_onQueue Queue.ids_modUser
    · cases h₁
      exact ledger_configRunning
  rw [ledger_log, ledger_onQueue (by rfl), ledger_sSendRunjob h₂, htake]

theorem ledger_recount {s' : Spool} (h : s.recount = .ok s') : s'.ledger = s.ledger := by
  rw [recount] at h
  dsimp only at h
  split_ifs at h
  · cases h
    rfl
  · cases h
    rfl

end Spool

end TaskSpooler
