import TaskSpooler.Ops.Frame
import TaskSpooler.Sched.Recount
import TaskSpooler.Store.Entries

/-!
# The times of a job

The limit of a job, the moment of its start and its pauses are written by a few operations only.
`Spool.times` is what is known of them for a job of the queue, and `Op.Retimes` says what an
operation makes of them (`Op.times_run`).

Two invariants of these fields are proved from it: how long a job has worked does not grow while the
clock stands still, and what the operations make of a wall time.
-/

namespace TaskSpooler

/-- What the accounting of time reads of a job. -/
structure Times where
  state : Jobstate
  pid : ℤ
  wallTime : ℤ
  startTime : ℤ
  pauseTime : ℤ
  pauseDuration : ℤ

namespace Times

variable (now : ℤ) (t : Times)

/-- `pause_job_config`. -/
def halted : Times := if t.pauseTime = 0 then { t with pauseTime := now } else t

/-- `rerun_job_config`. -/
def resumed : Times :=
  if t.pauseTime ≠ 0 then
    { t with pauseDuration := t.pauseDuration + (now - t.pauseTime), pauseTime := 0 }
  else t

/-- `config_running`. -/
def started : Times := { t.resumed now with state := .running, wallTime := t.wallTime.natAbs }

/-- `s_relegate_job`. -/
def relegated : Times :=
  { (if t.state = .running then t.halted now else t) with
    wallTime := -(t.wallTime.natAbs : ℤ) - 86400
    state := .pause }

/-- `s_newjob`. -/
def filled (e : Env) (m : NewJob) (t : Times) : Times :=
  { t with
    wallTime := if t.state = .delink then t.wallTime else min e.maxWallTime m.wallTime
    state := if t.state = .wait then .queued else t.state }

end Times

/-- The times of a job. -/
def Job.times (p : Job) : Times where
  state := p.state
  pid := p.pid
  wallTime := p.wallTime
  startTime := p.info.startTime
  pauseTime := p.info.pauseTime
  pauseDuration := p.info.pauseDuration

namespace Spool

/-- The times of an active job. -/
def times (s : Spool) (k : ℤ) : Option Times := (s.findjob k).map Job.times

variable {e : Env} {s s' : Spool} {k jobid : ℤ} {p : Job} {t : Times} {f : Job → Job}

theorem times_eq_some (hids : s.view.Ids) :
    s.times k = some t ↔ ∃ p ∈ s.activeJobs, p.jobid = k ∧ p.times = t := by
  rw [times, Option.map_eq_some_iff]
  constructor
  · rintro ⟨p, hp, rfl⟩
    exact ⟨p, Keyed.mem_of_lookup hp, findjob_jobid hp, rfl⟩
  · rintro ⟨p, hp, rfl, rfl⟩
    exact ⟨p, findjob_of_mem hids hp, rfl⟩

theorem times_of_findjob (hp : s.findjob p.jobid = some p) : s.times p.jobid = some p.times := by
  rw [times, hp, Option.map_some]

theorem times_of_own {p p' : Job} (h : p.own = p'.own) : p.jobid = p'.jobid ∧ p.times = p'.times := by
  have hid : p.own.jobid = p'.own.jobid := congrArg Job.jobid h
  have htimes : p.own.times = p'.own.times := congrArg Job.times h
  exact ⟨hid, htimes⟩

theorem times_eq_of_own (h : s'.activeJobs.map Job.own = s.activeJobs.map Job.own) :
    s'.times k = s.times k := by
  have hlookup : ∀ s₁ : Spool, s₁.times k =
      (Keyed.lookup Job.jobid k (s₁.activeJobs.map Job.own)).map Job.times := by
    intro s₁
    rw [Keyed.lookup_map (c := Job.jobid) (h := Job.own) fun _ => rfl, Option.map_map]
    rfl
  rw [hlookup, hlookup, h]

/-- A job that is not among `T` keeps its times. -/
theorem Confined.times {T : ℤ → Prop} (h : Confined T s s') (hids : s.view.Ids)
    (hids' : s'.view.Ids) (hk : ¬T k) : s'.times k = s.times k := by
  have hiff : ∀ t, s'.times k = some t ↔ s.times k = some t := by
    intro t
    rw [times_eq_some hids, times_eq_some hids']
    constructor
    · rintro ⟨p', hp', rfl, rfl⟩
      obtain ⟨p, hp, heq⟩ := h.exists_own hp' hk
      exact ⟨p, hp, times_of_own heq⟩
    · rintro ⟨p, hp, rfl, rfl⟩
      obtain ⟨p', hp', heq⟩ := List.mem_map.1 ((h p.own hk).2 (List.mem_map_of_mem hp))
      exact ⟨p', hp', times_of_own heq⟩
  exact Option.ext hiff

/-! ### What the functions do to the times -/

theorem times_of_activeJobs (h : s'.activeJobs = s.activeJobs) : s'.times k = s.times k := by
  rw [times, times, Queue.findjob, Queue.findjob, h]

theorem times_modJob {g : Times → Times} (hid : ∀ p, (f p).jobid = p.jobid)
    (hg : ∀ p, (f p).times = g p.times) :
    (s.modJob jobid f).times k = if k = jobid then (s.times k).map g else s.times k := by
  have hfind : (s.modJob jobid f).findjob k =
      if k = jobid then (s.findjob k).map f else s.findjob k :=
    Queue.findjob_modJob (fun p hp => (hid p).trans hp) k
  rw [times, hfind, times]
  split_ifs
  · rw [Option.map_map, Option.map_map]
    exact congrArg (fun h => (s.findjob k).map h) (funext hg)
  · rfl

theorem times_modJob_quiet (hid : ∀ p, (f p).jobid = p.jobid) (hf : ∀ p, (f p).times = p.times) :
    (s.modJob jobid f).times k = s.times k := by
  rw [times_modJob (g := id) hid hf, Option.map_id, id, ite_self]

@[simp] theorem times_updateDb : (s.updateDb jobid f).times k = s.times k := rfl

@[simp] theorem times_freeCores : (s.freeCores p).times k = s.times k := by
  have hfreed : (s.modJob p.jobid Job.freed).times k = s.times k :=
    times_modJob_quiet (fun _ => rfl) fun _ => rfl
  by_cases hz : p.numAllocated = 0
  · refine times_of_activeJobs ?_
    rw [freeCores, onQueue, Queue.freeCores, if_pos hz]
  · refine Eq.trans (times_of_activeJobs ?_) hfreed
    rw [freeCores, onQueue, Queue.freeCores, if_neg hz]
    cases p.user <;> rfl

@[simp] theorem times_freeBind : (s.freeBind e p).times k = s.times k := by
  refine Eq.trans (times_modJob_quiet ?_ ?_) (times_of_activeJobs (activeJobs_freeAlloc _))
  · exact fun _ => rfl
  · exact fun _ => rfl

@[simp] theorem times_bindCpus : (s.bindCpus e p).times k = s.times k := by
  have hmod : ∀ (s₁ : Spool) (ptr : Option ℕ), s₁.activeJobs = s.activeJobs →
      (s₁.modJob p.jobid fun p => { p with cpuAlloc := ptr }).times k = s.times k := by
    intro s₁ ptr h
    refine Eq.trans (times_modJob_quiet ?_ ?_) (times_of_activeJobs h)
    · exact fun _ => rfl
    · exact fun _ => rfl
  rw [bindCpus]
  split
  · exact (times_of_activeJobs activeJobs_cgroupsSetCpuset).trans (hmod _ _ rfl)
  · exact hmod _ _ rfl

/-- The pause begins, if the record of the job says that it has not begun yet. -/
theorem times_pauseJobConfig (ht : s.times p.jobid = some t) (hp : p.info.pauseTime = t.pauseTime) :
    (s.pauseJobConfig e p).times p.jobid = some (t.halted e.now) := by
  rw [pauseJobConfig, hp]
  by_cases hz : t.pauseTime = 0
  · rw [if_pos hz, times_updateDb, Times.halted, if_pos hz]
    refine (times_modJob (g := fun t => { t with pauseTime := e.now }) ?_ ?_).trans ?_
    · exact fun _ => rfl
    · exact fun _ => rfl
    · rw [if_pos rfl, ht, Option.map_some]
  · rw [if_neg hz, ht, Times.halted, if_neg hz]

theorem times_rerunJobConfig (ht : s.times p.jobid = some t) (hp : p.info.pauseTime = t.pauseTime)
    (hd : p.info.pauseDuration = t.pauseDuration) :
    (s.rerunJobConfig e p).times p.jobid = some (t.resumed e.now) := by
  rw [rerunJobConfig, hp, hd]
  by_cases hz : t.pauseTime ≠ 0
  · rw [if_pos hz, Times.resumed, if_pos hz]
    refine (times_modJob (g := fun x => { x with
      pauseDuration := t.pauseDuration + (e.now - t.pauseTime), pauseTime := 0 }) ?_ ?_).trans ?_
    · exact fun _ => rfl
    · exact fun _ => rfl
    · rw [if_pos rfl, ht, Option.map_some]
  · rw [if_neg hz, ht, Times.resumed, if_neg hz]

theorem times_safePauseJob (ht : s.times p.jobid = some t) (hp : p.info.pauseTime = t.pauseTime) :
    (s.safePauseJob e p).times p.jobid = some (t.halted e.now) := by
  refine times_pauseJobConfig ?_ hp
  rw [times_freeBind, times_freeCores, ← ht]
  exact times_of_activeJobs rfl

theorem times_configRunning (ht : s.times p.jobid = some t)
    (hp : p.info.pauseTime = t.pauseTime) (hd : p.info.pauseDuration = t.pauseDuration) :
    (s.configRunning e p).times p.jobid = some (t.started e.now) := by
  set s₁ := if s.isSleep e p = 1 then s.cgroupsThawJob p else s with hs₁
  have h₁ : s₁.times p.jobid = some t := by
    rw [← ht, hs₁]
    split_ifs <;> exact times_of_activeJobs rfl
  set s₂ := ((s₁.onQueue fun q => q.start p).updateDb p.jobid (Job.setWallTime p.wallTime.natAbs))
    with hs₂
  have h₂ : s₂.times p.jobid =
      some { t with state := .running, wallTime := t.wallTime.natAbs } := by
    have hstart : (s₁.modJob p.jobid Job.started).times p.jobid =
        some { t with state := .running, wallTime := t.wallTime.natAbs } := by
      refine (times_modJob (g := fun t => { t with
        state := .running, wallTime := t.wallTime.natAbs }) ?_ ?_).trans ?_
      · exact fun _ => rfl
      · exact fun _ => rfl
      · rw [if_pos rfl, h₁, Option.map_some]
    rw [← hstart, hs₂, times_updateDb]
    refine times_of_activeJobs ?_
    rw [onQueue, Queue.start]
    cases p.user <;> rfl
  have h₃ : (s₂.rerunJobConfig e p).times p.jobid = some (t.started e.now) := by
    rw [times_rerunJobConfig h₂ hp hd, Times.started, Times.resumed, Times.resumed]
    split_ifs <;> rfl
  rw [configRunning, ← hs₁, ← hs₂]
  split_ifs
  · exact (times_bindCpus (p := { p with numAllocated := p.numSlots })).trans h₃
  · exact h₃

theorem times_sRelegateJob (hp : s.findjob p.jobid = some p) :
    (s.sRelegateJob e p).times p.jobid = some (p.times.relegated e.now) := by
  have ht := times_of_findjob hp
  have hpause : (if p.state = .running then s.safePauseJob e p else s).times p.jobid =
      some (if p.state = .running then p.times.halted e.now else p.times) := by
    split_ifs
    · exact times_safePauseJob ht rfl
    · exact ht
  rw [sRelegateJob]
  refine (times_modJob (g := fun t => { t with
    wallTime := -(t.wallTime.natAbs : ℤ) - 86400, state := .pause }) ?_ ?_).trans ?_
  · exact fun _ => rfl
  · exact fun _ => rfl
  · rw [if_pos rfl, times_updateDb, hpause, Option.map_some, Times.relegated]
    have hw : (if p.state = .running then p.times.halted e.now else p.times).wallTime =
        p.times.wallTime := by
      rw [Times.halted]
      split_ifs <;> rfl
    rw [hw]
    rfl

theorem times_checkHealth (hp : s.findjob jobid = some p) :
    (s.checkHealth e jobid).times jobid = some p.times ∨
    p.state = .running ∧
      (s.checkHealth e jobid).times jobid = some { p.times with state := .abnormal } := by
  obtain rfl := findjob_jobid hp
  have ht := times_of_findjob hp
  simp only [checkHealth, hp]
  split_ifs with hdue hdead
  · simp only [healthDue, decide_eq_true_eq] at hdue
    refine .inr ⟨hdue.1, ?_⟩
    rw [times_of_activeJobs activeJobs_defrag, times_freeBind, times_freeCores]
    refine (times_modJob (g := fun t => { t with state := .abnormal }) ?_ ?_).trans ?_
    · exact fun _ => rfl
    · exact fun _ => rfl
    · rw [if_pos rfl, ht, Option.map_some]
  · refine .inl (Eq.trans (times_modJob_quiet ?_ ?_) ht)
    · exact fun _ => rfl
    · exact fun _ => rfl
  · exact .inl ht

/-! ### Functions that can fail -/

theorem times_sMarkJobRunning (hp : s.findjob p.jobid = some p)
    (h : s.sMarkJobRunning e p.jobid = .ok s') :
    s'.times p.jobid = some (p.times.started e.now) ∨
    0 < p.pid ∧ s'.times p.jobid = some { p.times with state := .pause } := by
  rw [sMarkJobRunning] at h
  simp only [hp] at h
  set name := (p.setOutput (p.outputFilename.or (e.stdoutOf p.pid))).outputFilename
  have ht : (s.modJob p.jobid (Job.setOutput name)).times p.jobid = some p.times :=
    (times_modJob_quiet (f := Job.setOutput name) (fun _ => rfl) fun _ => rfl).trans
      (times_of_findjob hp)
  split_ifs at h with hsleep
  · cases h
    refine .inr ⟨pid_pos_of_isSleep hsleep, ?_⟩
    rw [times_modJob (f := Job.setState .pause) (g := fun t => { t with state := .pause })
      (fun _ => rfl) fun _ => rfl, if_pos rfl, ht, Option.map_some]
  · cases h
    left
    have hstart := times_configRunning (e := e)
      (p := p.setOutput (p.outputFilename.or (e.stdoutOf p.pid))) ht rfl rfl
    exact hstart

theorem times_takeJob {uid : ℕ} (hp : s.findjob p.jobid = some p)
    (h : s.takeJob e uid p = .ok s') :
    s'.times p.jobid = some (p.times.started e.now) ∨
    p.state = .queued ∧ 0 < p.pid ∧ s'.times p.jobid = some { p.times with state := .pause } := by
  rw [takeJob] at h
  split_ifs at h with hq
  · have hp' : (s.onQueue fun q => q.uncountQueued (some uid)).findjob p.jobid = some p := hp
    obtain ht | ⟨hpid, ht⟩ := times_sMarkJobRunning hp' h
    · exact .inl ht
    · exact .inr ⟨hq, hpid, ht⟩
  · cases h
    exact .inl (times_configRunning (times_of_findjob hp) rfl rfl)

theorem times_dispatch {uid : ℕ} (hp : s.findjob p.jobid = some p)
    (h : s.dispatch e uid p = .ok s') :
    s'.times p.jobid = some (p.times.started e.now) ∨
    p.state = .queued ∧ 0 < p.pid ∧ s'.times p.jobid = some { p.times with state := .pause } := by
  simp only [dispatch, Except.bind_eq_ok] at h
  obtain ⟨s₁, h₁, s₂, h₂, h⟩ := h
  cases h
  obtain ⟨x, -, rfl⟩ := sSendRunjob_spec h₂
  have hsame : (((s₁.send p.clientSocket (.runjob p.jobid x.dependencyErrorlevel)).onQueue fun q =>
      q.served uid).log (.dispatch p s.toQueue)).times p.jobid = s₁.times p.jobid :=
    times_of_activeJobs rfl
  rw [hsame]
  exact times_takeJob hp h₁

/-- `RUNJOB_OK` is ignored for a paused job.  Otherwise it brings the pid, and the first time also
the start. -/
theorem times_sProcessRunjobOk {oname : Option String} {pid : ℤ}
    (h : s.sProcessRunjobOk e jobid oname pid = .ok s') :
    ∃ p, s.findjob jobid = some p ∧ (p.state = .pause ∧ s'.times jobid = some p.times ∨
      p.state = .running ∧ s'.times jobid = some { p.times with
        pid := pid
        startTime := if p.info.startTime = 0 then e.now else p.info.startTime }) := by
  rw [sProcessRunjobOk] at h
  cases hp : s.findjob jobid with
  | none => simp only [hp, reduceCtorEq] at h
  | some p =>
    simp only [hp] at h
    obtain rfl := findjob_jobid hp
    have ht := times_of_findjob hp
    refine ⟨p, rfl, ?_⟩
    by_cases hpause : p.state = .pause
    · rw [if_pos hpause] at h
      cases h
      exact .inl ⟨hpause, ht⟩
    · rw [if_neg hpause] at h
      by_cases hrun : p.state = .running
      · rw [if_neg (not_not.2 hrun)] at h
        refine .inr ⟨hrun, ?_⟩
        have hpid : (s.modJob p.jobid (Job.setPid pid)).times p.jobid =
            some { p.times with pid := pid } := by
          rw [times_modJob (f := Job.setPid pid) (g := fun t => { t with pid := pid })
            (fun _ => rfl) fun _ => rfl, if_pos rfl, ht, Option.map_some]
        have hbind : ∀ (c : Prop) [Decidable c], ((if c then (s.modJob p.jobid
            (Job.setPid pid)).bindCpus e (p.setPid pid) else s.modJob p.jobid
              (Job.setPid pid)).cgroupsCreateJob (p.setPid pid)).times p.jobid =
                some { p.times with pid := pid } := by
          intro c _
          rw [times_of_activeJobs activeJobs_cgroupsCreateJob]
          split_ifs
          · rw [times_bindCpus, hpid]
          · exact hpid
        have hrow : ∀ (s₁ : Spool) (x : Job), (if 0 < pid then s₁.replaceJobsDb x else s₁).times
            p.jobid = s₁.times p.jobid := by
          intro s₁ x
          split_ifs <;> rfl
        have hbound := hbind (e.cpuBind ∧ (s.modJob p.jobid (Job.setPid pid)).cpu.disabled = false ∧
          (p.setPid pid).noCpuBinding = false ∧ 0 < (p.setPid pid).numAllocated)
        split at h
        · cases h
        · split at h
          · cases h
          · cases h
            rw [hrow]
            refine (times_modJob (g := fun t => { t with
              startTime := if t.startTime = 0 then e.now else t.startTime }) ?_ ?_).trans ?_
            · exact fun _ => rfl
            · intro x
              by_cases hz : x.info.startTime = 0 <;> simp only [Job.times, hz, if_true, if_false]
            · rw [if_pos rfl, hbound, Option.map_some]
              rfl
      · rw [if_pos hrun] at h
        cases h

/-! ### Jobs that leave the queue and new ones -/

theorem times_eq_none (h : k ∉ s.activeJobs.map Job.jobid) : s.times k = none := by
  have hnone : s.findjob k = none :=
    Keyed.lookup_eq_none.2 fun p hp hk => h (hk ▸ List.mem_map_of_mem hp)
  rw [times, hnone, Option.map_none]

theorem ids_removeActive (hids : s.view.Ids) (h : s.removeActive e p = .ok s') :
    s'.activeJobs.map Job.jobid = (s.activeJobs.map Job.jobid).filter (· ≠ p.jobid) := by
  rw [removeActive, Except.bind_eq_ok] at h
  obtain ⟨s₁, h₁, h⟩ := h
  have hactive : s₁.activeJobs.map Job.jobid = s.activeJobs.map Job.jobid := by
    obtain ⟨l, -, hs₁⟩ := ledger_checkNotifyList h₁
    rw [ledger_onQueue Queue.ids_notifyErrorlevel, ledger_modJob (f := Job.gone) fun _ => rfl,
      ledger_deleteJobsDb] at hs₁
    exact congrArg Ledger.active hs₁
  have hdrop : ((s₁.onQueue fun q => q.dropJob p.jobid).log (.removed p.gone)).ledger =
      { s₁.ledger with active := s₁.ledger.active.filter (· ≠ p.jobid) } := by
    rw [ledger_log, ledger_dropJob]
    rw [hactive]
    exact nodup_of_ids hids
  have hend : s'.ledger.active = s₁.ledger.active.filter (· ≠ p.jobid) := by
    split_ifs at h with hpid
    · cases h
      exact congrArg Ledger.active hdrop
    · cases h
      obtain ⟨l, -, hl⟩ := ledger_newFinishedJob (e := e)
        (p := { removedRecord e p.gone.freed with cpuAlloc := none })
        (s := (((((s₁.onQueue fun q => q.dropJob p.jobid).log (.removed p.gone)).freeCores
          p.gone).cgroupsCleanJob p.gone).freeAlloc e p.cpuAlloc).defrag e)
      rw [ledger_defrag, ledger_freeAlloc, ledger_cgroupsCleanJob, ledger_freeCores, hdrop] at hl
      exact congrArg Ledger.active hl
  exact hend.trans (congrArg (List.filter _) hactive)

theorem times_newjobEnqueue {t : Times} (ht : s.times p.jobid = some t) (hst : p.state = t.state) :
    (s.newjobEnqueue p).times p.jobid =
      some { t with state := if t.state = .wait then .queued else t.state } := by
  rw [newjobEnqueue]
  split
  · rename_i hwait
    refine Eq.trans (times_of_activeJobs Queue.activeJobs_modUser) ?_
    rw [times_modJob (f := Job.setState .queued) (g := fun t => { t with state := .queued })
      (fun _ => rfl) fun _ => rfl, if_pos rfl, ht, Option.map_some, if_pos (hst.symm.trans hwait)]
  · rename_i hlocked
    rw [ht, if_neg (by rw [← hst, hlocked]; decide)]
  · rename_i hwait _
    rw [if_neg fun h => hwait (hst.trans h)]
    exact (times_of_activeJobs Queue.activeJobs_modUser).trans ht

theorem times_newjobTexts {m : NewJob} (hp : (p.state = .delink ∨ p.state = .wait ∨ p.state = .locked) ∨
    p.info = {}) : (newjobTexts e m p).times = p.times := by
  have hinfo : ∀ i : Procinfo, i = (if p.state = .delink ∨ p.state = .wait ∨ p.state = .locked then
      p.info else { enqueueTime := e.now, bootTime := e.wallClock - e.now }) →
      i.startTime = p.info.startTime ∧ i.pauseTime = p.info.pauseTime ∧
        i.pauseDuration = p.info.pauseDuration := by
    rintro i rfl
    split_ifs with hst
    · exact ⟨rfl, rfl, rfl⟩
    · rw [hp.resolve_left hst]
      exact ⟨rfl, rfl, rfl⟩
  obtain ⟨h₁, h₂, h₃⟩ := hinfo _ rfl
  cases henv : m.environment <;>
    simp only [newjobTexts, Job.times, henv, Procinfo.addinfo, h₁, h₂, h₃]

theorem times_dropJob (hnd : (s.activeJobs.map Job.jobid).Nodup) :
    (s.onQueue fun q => q.dropJob jobid).times jobid = none := by
  refine times_eq_none fun hmem => ?_
  obtain ⟨p, hp, hid⟩ := List.mem_map.1 hmem
  exact ((Keyed.mem_remove hnd).1 hp).2 hid

theorem times_fillRecord {old : Option Job} (hnone : old = none → s.times p.jobid = none)
    (hsome : old ≠ none → s.times p.jobid ≠ none) :
    (s.onQueue fun q => if old = none then { q with activeJobs := q.activeJobs ++ [p] }
      else q.modJob p.jobid fun _ => p).times p.jobid = some p.times := by
  by_cases ho : old = none
  · simp only [ho, if_true]
    have hfind : s.findjob p.jobid = none := by
      have h := hnone ho
      rwa [times, Option.map_eq_none_iff] at h
    have happ : Keyed.lookup Job.jobid p.jobid (s.activeJobs ++ [p]) = some p := by
      have hl : List.find? (fun a : Job => decide (a.jobid = p.jobid)) s.activeJobs = none := hfind
      rw [Keyed.lookup, List.find?_append, hl]
      simp
    rw [times]
    exact congrArg (Option.map Job.times) happ
  · simp only [ho, if_false]
    have hfind : ((s.modJob p.jobid fun _ => p).findjob p.jobid) = (s.findjob p.jobid).map fun _ => p := by
      refine Eq.trans (Queue.findjob_modJob ?_ p.jobid) (if_pos rfl)
      exact fun _ _ => rfl
    have hx := hsome ho
    rw [times, ne_eq, Option.map_eq_none_iff] at hx
    obtain ⟨x, hx⟩ := Option.ne_none_iff_exists'.1 hx
    rw [hx, Option.map_some] at hfind
    exact times_of_findjob hfind

theorem times_nextJobids (s : Spool) (m : NewJob) (old : Option Job) :
    (if old = none then { s with jobids := s.nextJobids m } else s).activeJobs = s.activeJobs := by
  split_ifs <;> rfl

/-- A submission that asks for too many slots leaves no job with its id. -/
theorem times_refused {socket id : ℤ} {m : NewJob} {user : ℕ} {old : Option Job} (hids : s.view.Ids)
    (hnew : old = none → s.findjob (s.newjobptr m).jobid = none)
    (h : s.newjobFill e socket m user old = .ok (s', id)) (hno : ¬s.admits user m.numSlots) :
    s'.times (old.getD (s.newjobptr m)).jobid = none := by
  have hmany : 0 < (s.users user).maxSlots ∧ (s.users user).maxSlots < m.numSlots := by
    rw [Queue.admits] at hno
    omega
  have hact := times_nextJobids s m old
  have husers : (if old = none then { s with jobids := s.nextJobids m } else s).users = s.users := by
    split_ifs <;> rfl
  rw [newjobFill] at h
  dsimp only at h
  generalize (if old = none then { s with jobids := s.nextJobids m } else s) = s₁ at h hact husers
  have hmany' : 0 < (s₁.users user).maxSlots ∧ (s₁.users user).maxSlots <
      (newjobOwner socket m user (old.getD (s.newjobptr m))).numSlots := by
    rw [husers]
    exact hmany
  rw [if_pos hmany'] at h
  cases h
  have hid : (newjobOwner socket m user (old.getD (s.newjobptr m))).jobid =
      (old.getD (s.newjobptr m)).jobid := rfl
  by_cases ho : old = none
  · simp only [ho, if_true]
    refine Eq.trans (times_of_activeJobs hact) ?_
    have hfind : s.findjob (s.newjobptr m).jobid = none := hnew ho
    rw [times, Option.getD_none, hfind, Option.map_none]
  · simp only [ho, if_false, hid]
    refine times_dropJob (s := s₁) ?_
    rw [hact]
    exact nodup_of_ids hids

/-- The record that `s_newjob` leaves in the queue. -/
theorem times_newjobFill {socket id : ℤ} {m : NewJob} {user : ℕ} {old : Option Job} {t' : Times}
    (hids : s.view.Ids)
    (hold : ∀ p, old = some p → s.findjob p.jobid = some p ∧
      (p.state = .delink ∨ p.state = .wait ∨ p.state = .locked))
    (hnew : old = none → s.findjob (s.newjobptr m).jobid = none)
    (h : s.newjobFill e socket m user old = .ok (s', id))
    (ht : s'.times (old.getD (s.newjobptr m)).jobid = some t') :
    s.admits user m.numSlots ∧ t' = (old.getD (s.newjobptr m)).times.filled e m := by
  have hadm : s.admits user m.numSlots := by
    by_contra hno
    rw [times_refused hids hnew h hno] at ht
    cases ht
  refine ⟨hadm, ?_⟩
  have hkept : ((old.getD (s.newjobptr m)).state = .delink ∨ (old.getD (s.newjobptr m)).state = .wait ∨
      (old.getD (s.newjobptr m)).state = .locked) ∨ (old.getD (s.newjobptr m)).info = {} := by
    cases old with
    | none => exact .inr rfl
    | some p => exact .inl (hold p rfl).2
  have hnone : old = none → s.times (old.getD (s.newjobptr m)).jobid = none := by
    rintro rfl
    have hfind : s.findjob (s.newjobptr m).jobid = none := hnew rfl
    rw [times, Option.getD_none, hfind, Option.map_none]
  have hsome : old ≠ none → s.times (old.getD (s.newjobptr m)).jobid ≠ none := by
    intro hne
    obtain ⟨p, rfl⟩ := Option.ne_none_iff_exists'.1 hne
    rw [Option.getD_some, times_of_findjob (hold p rfl).1]
    exact Option.some_ne_none _
  have hact := times_nextJobids s m old
  have husers : (if old = none then { s with jobids := s.nextJobids m } else s).users = s.users := by
    split_ifs <;> rfl
  rw [newjobFill] at h
  dsimp only at h
  generalize (if old = none then { s with jobids := s.nextJobids m } else s) = s₁ at h hact husers
  generalize old.getD (s.newjobptr m) = p₀ at *
  have hfew : ¬(0 < (s₁.users user).maxSlots ∧ (s₁.users user).maxSlots <
      (newjobOwner socket m user p₀).numSlots) := by
    rw [husers]
    exact hadm
  rw [if_neg hfew] at h
  rw [Except.bind_eq_ok] at h
  obtain ⟨⟨q, p⟩, hloop, h⟩ := h
  obtain ⟨ds, rfl, hdep, -⟩ := Queue.dependLoop_spec hloop
  cases h
  -- the dependency loop writes to the notifications only
  have hp : p.times = (newjobFields e m (newjobOwner socket m user p₀)).times ∧
      p.jobid = p₀.jobid ∧ p.info = p₀.info ∧ p.state = p₀.state := by
    rw [hdep]
    exact ⟨rfl, rfl, rfl, rfl⟩
  obtain ⟨htimes, hid, hinfo, hst⟩ := hp
  have htexts : (newjobTexts e m p).times = p.times := by
    refine times_newjobTexts ?_
    rw [hinfo, hst]
    exact hkept
  set s₂ := s₁.onQueue fun q => q.notifiedBy ds p₀.jobid with hs₂
  have hnotified : s₂.times p₀.jobid = s.times p₀.jobid := by
    have hown : s₂.activeJobs.map Job.own = s₁.activeJobs.map Job.own := Queue.own_notifiedBy
    rw [← times_of_activeJobs hact]
    exact times_eq_of_own hown
  have hid' : (newjobTexts e m p).jobid = p₀.jobid := hid
  have hrecord := times_newjobEnqueue (p := newjobTexts e m p) (times_fillRecord (s := s₂)
    (p := newjobTexts e m p) (fun (ho : old = none) => ?_) fun ho => ?_) rfl
  · rw [htexts, htimes] at hrecord
    exact Option.some.inj ((ht.symm.trans (congrArg _ hid'.symm)).trans hrecord)
  · rw [hid', hnotified, hnone ho]
  · rw [hid', hnotified]
    exact hsome ho

/-- `s_add_wtime` leaves the wall time, or adds to its magnitude. -/
theorem times_sAddWtime (jobid socket n : ℤ) (ht : s.times k = some t) :
    (s.sAddWtime socket jobid n).times k = some t ∨
    k = jobid ∧ 0 < (t.wallTime.natAbs : ℤ) + n ∧
      ¬(0 < n ∧ 2 ^ 63 - 1 - n < (t.wallTime.natAbs : ℤ)) ∧
      (s.sAddWtime socket jobid n).times k = some { t with
        wallTime := if t.wallTime < 0 then -((t.wallTime.natAbs : ℤ) + n)
                    else t.wallTime.natAbs + n } := by
  rw [sAddWtime]
  by_cases hz : jobid = 0
  · rw [if_pos hz]
    exact .inl ht
  · rw [if_neg hz]
    cases hp : s.findjob jobid with
    | none => exact .inl ht
    | some p =>
      dsimp only
      by_cases hover : 0 < n ∧ 2 ^ 63 - 1 - n < (p.wallTime.natAbs : ℤ)
      · rw [if_pos hover]
        exact .inl ht
      rw [if_neg hover]
      by_cases hneg : (p.wallTime.natAbs : ℤ) + n ≤ 0
      · rw [if_pos hneg]
        exact .inl ht
      rw [if_neg hneg]
      generalize hw : (if p.wallTime < 0 then -((p.wallTime.natAbs : ℤ) + n)
        else (p.wallTime.natAbs : ℤ) + n) = w
      have hset : (s.modJob jobid (Job.setWallTime w)).times k =
          if k = jobid then (s.times k).map fun t => { t with wallTime := w } else s.times k :=
        times_modJob (fun _ => rfl) fun _ => rfl
      by_cases hk : k = jobid
      · subst hk
        rw [if_pos rfl, ht, Option.map_some] at hset
        rw [times, hp, Option.map_some, Option.some.injEq] at ht
        subst ht
        exact .inr ⟨rfl, not_le.1 hneg, hover, hw ▸ hset⟩
      · rw [if_neg hk, ht] at hset
        exact .inl hset

end Spool

namespace Op

variable {e : Env} {s s' : Spool} {o : Op} {k : ℤ} {t' : Times}

/-- What an operation makes of the times of the job it is about, and when. -/
def Retimes (e : Env) (o : Op) (t t' : Times) : Prop :=
  match o with
  | pause _ => t.pid ≠ 0 ∧ t.state ≠ .queued ∧ t.state ≠ .locked ∧ t.state ≠ .pause ∧
      t' = { t.halted e.now with state := .pause }
  | relegate _ => (t.state = .running ∨ t.state = .pause) ∧ t' = t.relegated e.now
  | dispatch _ _ => (t.state = .queued ∨ t.state = .pause ∧ t.wallTime < 0) ∧
      (t' = t.started e.now ∨ t.state = .queued ∧ 0 < t.pid ∧ t' = { t with state := .pause })
  | start _ => t.state = .pause ∧ t.pid ≠ 0 ∧ t' = t.started e.now
  | wake _ => t.state = .holdingClient ∧ t' = { t with state := .queued }
  | unlock _ => t.state = .locked ∧ t' = { t with state := .queued }
  | lock _ => t.state = .queued ∧ t' = { t with state := .locked }
  | fill _ m _ _ => (t.state = .delink ∨ t.state = .wait ∨ t.state = .locked) ∧ t' = t.filled e m
  | runjobOk _ _ pid => t.state = .pause ∧ t' = t ∨ t.state = .running ∧ t' = { t with
      pid := pid
      startTime := if t.startTime = 0 then e.now else t.startTime }
  | health _ => t' = t ∨ t.state = .running ∧ t' = { t with state := .abnormal }
  | wall _ w => t' = { t with wallTime := w }
  | absWall _ => t.state ≠ .queued ∧ t.state ≠ .locked ∧ t' = { t with wallTime := t.wallTime.natAbs }
  | addWtime _ _ n => t' = t ∨ 0 < (t.wallTime.natAbs : ℤ) + n ∧
      ¬(0 < n ∧ 2 ^ 63 - 1 - n < (t.wallTime.natAbs : ℤ)) ∧ t' = { t with
        wallTime := if t.wallTime < 0 then -((t.wallTime.natAbs : ℤ) + n)
                    else t.wallTime.natAbs + n }
  | reconnect _ _ _ => t' = { t with state := if t.state = .delink then .running else t.state }
  | _ => False

theorem retimes_modJob {f : Job → Job} {p : Job} {g : Times → Times} (hid : ∀ p, (f p).jobid = p.jobid)
    (hg : ∀ p, (f p).times = g p.times) (hp : s.findjob p.jobid = some p)
    (ht' : (s.modJob p.jobid f).times p.jobid = some t') :
    ∃ t, s.times p.jobid = some t ∧ t' = g t := by
  rw [Spool.times_modJob hid hg, if_pos rfl, Spool.times_of_findjob hp, Option.map_some] at ht'
  exact ⟨_, Spool.times_of_findjob hp, (Option.some.inj ht').symm⟩

/-- The operation takes its job out of the queue. -/
def Takes : Op → Prop
  | finish _ _ | delete _ | removeActive _ => True
  | _ => False

theorem times_taken (hids : s.view.Ids) (h : o.run e s = .ok s') (hk : o.Touches s k)
    (ho : o.Takes) : s'.times k = none := by
  cases o with
  | finish r jobid =>
    obtain rfl := hk
    obtain ⟨p, p', hp, -, hg, hv⟩ := Spool.jobFinished_spec h
    obtain rfl := Spool.findjob_jobid hp
    have hnone : s'.view.findjob p.jobid = none := by
      rw [hv]
      exact Spool.findjob_finish hids hg
    rw [Spool.view_findjob, Option.map_eq_none_iff] at hnone
    rw [Spool.times, hnone, Option.map_none]
  | delete jobid =>
    obtain rfl := hk
    have h' : s.sDeleteJob k = .ok s' := h
    rw [Spool.sDeleteJob] at h'
    split at h'
    · cases h'
    · cases h'
      exact Spool.times_dropJob (Spool.nodup_of_ids hids)
  | removeActive p =>
    obtain rfl := hk
    refine Spool.times_eq_none ?_
    rw [Spool.ids_removeActive hids h]
    simp
  | _ => exact ho.elim

/-- The job that is left after a submission has passed the test of its slots. -/
theorem admits_of_fill {socket : ℤ} {m : NewJob} {user : ℕ} {old : Option Job} (hids : s.view.Ids)
    (hpre : (fill socket m user old).Pre e s) (h : (fill socket m user old).run e s = .ok s')
    (hk : (fill socket m user old).Touches s k) (ht' : s'.times k = some t') :
    s.admits user m.numSlots := by
  simp only [run, Except.map_eq_ok] at h
  obtain ⟨⟨s₁, id⟩, h, rfl⟩ := h
  by_contra hno
  have hnone := Spool.times_refused hids (fun ho => Spool.findjob_newjobptr hids (ho ▸ hpre.2.1)) h hno
  have hk' : k = (old.getD (s.newjobptr m)).jobid := by
    cases old <;> exact hk
  rw [hk', hnone] at ht'
  cases ht'

/-! ### One lemma for each operation -/

theorem retimes_pause {p : Job} (hpre : (pause p).Pre e s) (h : (pause p).run e s = .ok s')
    (ht' : s'.times p.jobid = some t') :
    ∃ t, s.times p.jobid = some t ∧ (pause p).Retimes e t t' := by
  cases h
  have hpaused := Spool.times_safePauseJob (e := e) (Spool.times_of_findjob hpre.1) rfl
  rw [Spool.times_modJob (f := Job.setState .pause) (g := fun t => { t with state := .pause })
    (fun _ => rfl) fun _ => rfl, if_pos rfl, hpaused, Option.map_some] at ht'
  exact ⟨_, Spool.times_of_findjob hpre.1, hpre.2.1, hpre.2.2.1, hpre.2.2.2.1, hpre.2.2.2.2,
    (Option.some.inj ht').symm⟩

theorem retimes_relegate {p : Job} (hpre : (relegate p).Pre e s)
    (h : (relegate p).run e s = .ok s') (ht' : s'.times p.jobid = some t') :
    ∃ t, s.times p.jobid = some t ∧ (relegate p).Retimes e t t' := by
  cases h
  rw [Spool.times_sRelegateJob hpre.1] at ht'
  exact ⟨_, Spool.times_of_findjob hpre.1, hpre.2, (Option.some.inj ht').symm⟩

theorem retimes_dispatch {uid : ℕ} {p : Job} (hids : s.view.Ids)
    (hpre : (dispatch uid p).Pre e s) (h : (dispatch uid p).run e s = .ok s')
    (ht' : s'.times p.jobid = some t') :
    ∃ t, s.times p.jobid = some t ∧ (dispatch uid p).Retimes e t t' := by
  have hp := Spool.findjob_of_mem hids hpre.1
  refine ⟨_, Spool.times_of_findjob hp, ?_, ?_⟩
  · have hel := hpre.2.1
    simp only [Queue.eligible, decide_eq_true_eq] at hel
    obtain ⟨-, hq | hr⟩ := hel
    · simp only [Queue.queuedReady, decide_eq_true_eq] at hq
      exact .inl hq.1
    · simp only [Queue.retryReady, decide_eq_true_eq] at hr
      exact .inr ⟨hr.1, hr.2.1⟩
  · obtain ht | ⟨hq, hpid, ht⟩ := Spool.times_dispatch hp h
    · exact .inl (Option.some.inj (ht'.symm.trans ht))
    · exact .inr ⟨hq, hpid, Option.some.inj (ht'.symm.trans ht)⟩

theorem retimes_wake {p : Job} (hpre : (wake p).Pre e s) (h : (wake p).run e s = .ok s')
    (ht' : s'.times p.jobid = some t') :
    ∃ t, s.times p.jobid = some t ∧ (wake p).Retimes e t t' := by
  cases h
  obtain ⟨t, ht, heq⟩ := retimes_modJob (f := Job.setState .queued)
    (g := fun t => { t with state := .queued }) (fun _ => rfl) (fun _ => rfl) hpre.1 ht'
  refine ⟨t, ht, ?_, heq⟩
  rw [Spool.times_of_findjob hpre.1, Option.some.injEq] at ht
  exact ht ▸ hpre.2

theorem retimes_lock {p : Job} (hpre : (lock p).Pre e s) (h : (lock p).run e s = .ok s')
    (ht' : s'.times p.jobid = some t') :
    ∃ t, s.times p.jobid = some t ∧ (lock p).Retimes e t t' := by
  cases h
  have hp : (s.onQueue fun q => q.uncountQueued p.user).findjob p.jobid = some p := by
    rw [← hpre.1, Queue.findjob, Queue.findjob]
    exact congrArg _ Queue.activeJobs_modUser
  obtain ⟨t, ht, heq⟩ := retimes_modJob (f := Job.setState .locked)
    (g := fun t => { t with state := .locked }) (fun _ => rfl) (fun _ => rfl) hp ht'
  rw [Spool.times_of_activeJobs Queue.activeJobs_modUser] at ht
  refine ⟨t, ht, ?_, heq⟩
  rw [Spool.times_of_findjob hpre.1, Option.some.injEq] at ht
  exact ht ▸ hpre.2

theorem retimes_unlock {p : Job} (hpre : (unlock p).Pre e s) (h : (unlock p).run e s = .ok s')
    (ht' : s'.times p.jobid = some t') :
    ∃ t, s.times p.jobid = some t ∧ (unlock p).Retimes e t t' := by
  cases h
  have hp : (s.onQueue fun q => q.countQueued p.user).findjob p.jobid = some p := by
    rw [← hpre.1, Queue.findjob, Queue.findjob]
    exact congrArg _ Queue.activeJobs_modUser
  obtain ⟨t, ht, heq⟩ := retimes_modJob (f := Job.setState .queued)
    (g := fun t => { t with state := .queued }) (fun _ => rfl) (fun _ => rfl) hp ht'
  rw [Spool.times_of_activeJobs Queue.activeJobs_modUser] at ht
  refine ⟨t, ht, ?_, heq⟩
  rw [Spool.times_of_findjob hpre.1, Option.some.injEq] at ht
  exact ht ▸ hpre.2

theorem retimes_absWall {p : Job} (hpre : (absWall p).Pre e s)
    (h : (absWall p).run e s = .ok s') (ht' : s'.times p.jobid = some t') :
    ∃ t, s.times p.jobid = some t ∧ (absWall p).Retimes e t t' := by
  cases h
  obtain ⟨t, ht, heq⟩ := retimes_modJob (f := Job.setWallTime p.wallTime.natAbs)
    (g := fun t => { t with wallTime := p.wallTime.natAbs }) (fun _ => rfl) (fun _ => rfl)
    hpre.1 ht'
  rw [Spool.times_of_findjob hpre.1, Option.some.injEq] at ht
  subst ht
  exact ⟨_, Spool.times_of_findjob hpre.1, hpre.2.1, hpre.2.2, heq⟩

theorem retimes_start {p : Job} (hpre : (start p).Pre e s) (h : (start p).run e s = .ok s')
    (ht' : s'.times p.jobid = some t') :
    ∃ t, s.times p.jobid = some t ∧ (start p).Retimes e t t' := by
  cases h
  have hp := Spool.times_of_findjob hpre.1
  rw [Spool.times_configRunning hp rfl rfl] at ht'
  exact ⟨_, hp, hpre.2.1, hpre.2.2, (Option.some.inj ht').symm⟩

theorem retimes_reconnect {p : Job} {st : Jobstate} {socket : ℤ}
    (hpre : (reconnect p st socket).Pre e s) (h : (reconnect p st socket).run e s = .ok s')
    (ht' : s'.times p.jobid = some t') :
    ∃ t, s.times p.jobid = some t ∧ (reconnect p st socket).Retimes e t t' := by
  cases h
  by_cases hsome : (s.findjob p.jobid).isSome
  · have hp : s.findjob p.jobid = some p := by
      have hget := hpre.1
      rwa [Queue.getJob, Option.or_of_isSome hsome] at hget
    have hmod : (s.onQueue fun q => q.modAnyJob p.jobid (Job.reconnected st socket)) =
        s.modJob p.jobid (Job.reconnected st socket) := by
      rw [Spool.onQueue, Queue.modAnyJob, if_pos hsome]
      rfl
    rw [hmod] at ht'
    obtain ⟨t, ht, heq⟩ := retimes_modJob (f := Job.reconnected st socket)
      (g := fun t => { t with state := st }) (fun _ => rfl) (fun _ => rfl) hp ht'
    refine ⟨t, ht, ?_⟩
    rw [Spool.times_of_findjob hp, Option.some.injEq] at ht
    subst ht
    rw [heq, hpre.2.2]
    rfl
  · -- the job has finished
    have hmod : (s.onQueue fun q => q.modAnyJob p.jobid (Job.reconnected st socket)).activeJobs =
        s.activeJobs := by
      rw [Spool.onQueue, Queue.modAnyJob, if_neg hsome]
    rw [Spool.times_of_activeJobs hmod, Spool.times,
      Option.not_isSome_iff_eq_none.1 hsome] at ht'
    cases ht'

theorem retimes_runjobOk {jobid pid : ℤ} {oname : Option String}
    (h : (runjobOk jobid oname pid).run e s = .ok s') (ht' : s'.times jobid = some t') :
    ∃ t, s.times jobid = some t ∧ (runjobOk jobid oname pid).Retimes e t t' := by
  obtain ⟨p, hp, hcase⟩ := Spool.times_sProcessRunjobOk h
  have hpt : s.times jobid = some p.times := by rw [Spool.times, hp, Option.map_some]
  refine ⟨_, hpt, ?_⟩
  obtain ⟨hst, ht⟩ | ⟨hst, ht⟩ := hcase
  · exact .inl ⟨hst, Option.some.inj (ht'.symm.trans ht)⟩
  · exact .inr ⟨hst, Option.some.inj (ht'.symm.trans ht)⟩

theorem retimes_health {jobid : ℤ} (h : (health jobid).run e s = .ok s')
    (ht' : s'.times jobid = some t') :
    ∃ t, s.times jobid = some t ∧ (health jobid).Retimes e t t' := by
  cases h
  cases hp : s.findjob jobid with
  | none =>
    rw [Spool.checkHealth, hp, Spool.times, hp] at ht'
    cases ht'
  | some p =>
    have hpt : s.times jobid = some p.times := by rw [Spool.times, hp, Option.map_some]
    refine ⟨_, hpt, ?_⟩
    obtain ht | ⟨hst, ht⟩ := Spool.times_checkHealth (e := e) hp
    · exact .inl (Option.some.inj (ht'.symm.trans ht))
    · exact .inr ⟨hst, Option.some.inj (ht'.symm.trans ht)⟩

theorem retimes_wall {jobid w : ℤ} (hpre : (wall jobid w).Pre e s)
    (h : (wall jobid w).run e s = .ok s') (ht' : s'.times jobid = some t') :
    ∃ t, s.times jobid = some t ∧ (wall jobid w).Retimes e t t' := by
  cases h
  obtain ⟨p, hp⟩ := Option.isSome_iff_exists.1 hpre
  obtain rfl := Spool.findjob_jobid hp
  obtain ⟨t, ht, heq⟩ := retimes_modJob (f := Job.setWallTime w)
    (g := fun t => { t with wallTime := w }) (fun _ => rfl) (fun _ => rfl) hp ht'
  exact ⟨t, ht, heq⟩

theorem retimes_addWtime {jobid n socket : ℤ}
    (h : (addWtime socket jobid n).run e s = .ok s') (ht' : s'.times jobid = some t') :
    ∃ t, s.times jobid = some t ∧ (addWtime socket jobid n).Retimes e t t' := by
  cases h
  cases hpt : s.times jobid with
  | none =>
    rw [Spool.times, Option.map_eq_none_iff] at hpt
    rw [Spool.sAddWtime, hpt] at ht'
    have hnone : s.times jobid = some t' := by
      split_ifs at ht'
      · exact ht'
      · exact ht'
    rw [Spool.times, hpt] at hnone
    cases hnone
  | some t =>
    refine ⟨t, rfl, ?_⟩
    obtain ht | ⟨-, hpos, hover, ht⟩ := Spool.times_sAddWtime jobid socket n hpt
    · exact .inl (Option.some.inj (ht'.symm.trans ht))
    · exact .inr ⟨hpos, hover, Option.some.inj (ht'.symm.trans ht)⟩

/-- A submission fills the record it has found. -/
theorem retimes_fill {socket : ℤ} {m : NewJob} {user : ℕ} {p : Job} (hids : s.view.Ids)
    (hpre : (fill socket m user (some p)).Pre e s)
    (h : (fill socket m user (some p)).run e s = .ok s') (ht' : s'.times p.jobid = some t') :
    ∃ t, s.times p.jobid = some t ∧ (fill socket m user (some p)).Retimes e t t' := by
  simp only [run, Except.map_eq_ok] at h
  obtain ⟨⟨s₁, id⟩, h, rfl⟩ := h
  obtain ⟨-, hold, hstate⟩ := hpre
  have hp : s.findjob p.jobid = some p := by
    split_ifs at hold with hm
    rw [← hold, Spool.findjob_jobid hold]
  exact ⟨_, Spool.times_of_findjob hp, hstate p rfl,
    (Spool.times_newjobFill hids (fun x hx => by
      cases hx
      exact ⟨hp, hstate p rfl⟩) (fun h => by cases h) h ht').2⟩

/-- A submission that has found none makes a new record. -/
theorem times_fill_new {socket : ℤ} {m : NewJob} {user : ℕ} (hids : s.view.Ids)
    (hpre : (fill socket m user none).Pre e s) (h : (fill socket m user none).run e s = .ok s')
    (ht' : s'.times (s.newjobptr m).jobid = some t') :
    s.times (s.newjobptr m).jobid = none ∧ t' = (s.newjobptr m).times.filled e m := by
  simp only [run, Except.map_eq_ok] at h
  obtain ⟨⟨s₁, id⟩, h, rfl⟩ := h
  have hnew : s.findjob (s.newjobptr m).jobid = none := Spool.findjob_newjobptr hids hpre.2.1
  refine ⟨?_, ?_⟩
  · rw [Spool.times, hnew, Option.map_none]
  · exact (Spool.times_newjobFill hids (fun _ h => by cases h) (fun _ => hnew) h ht').2

/-- **An operation writes to the times of one job**, or it makes a new one. -/
theorem times_run (hids : s.view.Ids) (hpre : o.Pre e s) (h : o.run e s = .ok s')
    (ht' : s'.times k = some t') :
    ¬o.Touches s k ∧ s.times k = some t' ∨
    o.Touches s k ∧ (∃ t, s.times k = some t ∧ o.Retimes e t t') ∨
    ∃ socket m user, o = .fill socket m user none ∧ k = (s.newjobptr m).jobid ∧
      s.times k = none ∧ t' = (s.newjobptr m).times.filled e m := by
  have hids' := (moves hids hpre h).ids hids
  by_cases hk : o.Touches s k
  · cases o with
    | finish r jobid | delete jobid | removeActive p =>
      rw [times_taken hids h hk trivial] at ht'
      cases ht'
    | pause p =>
      obtain rfl := hk
      exact .inr (.inl ⟨rfl, retimes_pause hpre h ht'⟩)
    | relegate p =>
      obtain rfl := hk
      exact .inr (.inl ⟨rfl, retimes_relegate hpre h ht'⟩)
    | dispatch uid p =>
      obtain rfl := hk
      exact .inr (.inl ⟨rfl, retimes_dispatch hids hpre h ht'⟩)
    | wake p =>
      obtain rfl := hk
      exact .inr (.inl ⟨rfl, retimes_wake hpre h ht'⟩)
    | lock p =>
      obtain rfl := hk
      exact .inr (.inl ⟨rfl, retimes_lock hpre h ht'⟩)
    | unlock p =>
      obtain rfl := hk
      exact .inr (.inl ⟨rfl, retimes_unlock hpre h ht'⟩)
    | absWall p =>
      obtain rfl := hk
      exact .inr (.inl ⟨rfl, retimes_absWall hpre h ht'⟩)
    | start p =>
      obtain rfl := hk
      exact .inr (.inl ⟨rfl, retimes_start hpre h ht'⟩)
    | reconnect p st socket =>
      obtain rfl := hk
      exact .inr (.inl ⟨rfl, retimes_reconnect hpre h ht'⟩)
    | runjobOk jobid oname pid =>
      obtain rfl := hk
      exact .inr (.inl ⟨rfl, retimes_runjobOk h ht'⟩)
    | health jobid =>
      obtain rfl := hk
      exact .inr (.inl ⟨rfl, retimes_health h ht'⟩)
    | wall jobid w =>
      obtain rfl := hk
      exact .inr (.inl ⟨rfl, retimes_wall hpre h ht'⟩)
    | addWtime socket jobid n =>
      obtain rfl := hk
      exact .inr (.inl ⟨rfl, retimes_addWtime h ht'⟩)
    | fill socket m user old =>
      cases old with
      | none =>
        have hk' : k = (s.newjobptr m).jobid := hk
        subst hk'
        exact .inr (.inr ⟨socket, m, user, rfl, rfl, times_fill_new hids hpre h ht'⟩)
      | some p =>
        obtain rfl : k = p.jobid := hk
        exact .inr (.inl ⟨rfl, retimes_fill hids hpre h ht'⟩)
    | _ => exact hk.elim
  · exact .inl ⟨hk, ((confined hids hpre h).times hids hids' hk).symm.trans ht'⟩

end Op

end TaskSpooler
