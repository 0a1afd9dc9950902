import TaskSpooler.Server.Causes
import TaskSpooler.Server.Sockets

/-!
# What a restart brings back

A new process counts the slots of the jobs that it finds in the table `Jobs`, and knows nothing
else about them: none of them holds slots or has a client.  `Spool.Reloaded` is what is known of the
queue before that count, and `serverMain_usage` says that nothing but the count follows.
-/

namespace TaskSpooler

/-- The job comes from a row of the table `Jobs`; there are `n` users. -/
structure Job.RestoredFrom (e : Env) (n : ℕ) (r : Row) (p : Job) : Prop where
  jobid : p.jobid = r.job.jobid
  state : Spool.restoredState e r.job = some p.state
  pid : p.pid = r.job.pid
  shouldKeepFinished : p.shouldKeepFinished = r.job.shouldKeepFinished
  wallTime : p.wallTime = r.job.wallTime
  numSlots : p.numSlots = r.job.numSlots
  numAllocated : p.numAllocated = 0
  owner : ∀ u, p.user = some u → u < n

namespace Spool

variable {e : Env} {s s₀ s' : Spool}

/-- What a new process knows before it counts the slots, if the last one left `s₀`. -/
structure Reloaded (e : Env) (s₀ s : Spool) : Prop where
  nodup : (s.activeJobs.map Job.jobid).Nodup
  lt : ∀ p ∈ s.activeJobs, p.jobid < s.jobids
  uids : ∀ u < s.nusers, ∀ u' < s.nusers, (s.users u).uid = (s.users u').uid → u = u'
  restored : ∀ p ∈ s.activeJobs, ∃ r ∈ s₀.dbJobs.rows, p.RestoredFrom e s.nusers r
  busySlots : s.busySlots = 0
  events : s.events = s₀.events
  counters : ∀ u < s.nusers, (s.users u).busy = 0 ∧ (s.users u).jobs = 0
  maxSlots : 0 < s.maxSlots

theorem Reloaded.ids (h : Reloaded e s₀ s) : s.view.Ids := by
  refine ⟨?_, fun p hp => ?_, h.uids⟩
  · show ((s.activeJobs.map Job.strip).map Job.jobid).Nodup
    rw [List.map_map]
    exact h.nodup
  · obtain ⟨x, hx, rfl⟩ := List.mem_map.1 hp
    exact h.lt x hx

/-! ### Reading the table -/

theorem restoredUser_lt {r : Row} {jobs : Bool} {u : ℕ} (h : s.restoredUser e r jobs = some u) :
    u < s.nusers := by
  rw [restoredUser, Option.or_eq_some_iff] at h
  obtain h | ⟨-, h⟩ := h
  · split_ifs at h
    rw [getUserByPid] at h
    split_ifs at h
    obtain ⟨uid, -, h⟩ := Option.bind_eq_some_iff.1 h
    exact (findUserByUid_some h).1
  · exact (findUserByUid_some h).1

/-- The states that a job can be restored in. -/
theorem restoredState_some {j : Job} {st : Jobstate} (h : restoredState e j = some st) :
    (j.state = .queued ∨ j.state = .locked ∨ j.state = .pause) ∧ st = j.state ∨
    j.state = .running ∧ 0 < j.pid ∧ e.alive j.pid ∧
      st = if 0 < j.info.pauseTime then .pause else .running := by
  rw [restoredState] at h
  cases hj : j.state <;> simp only [hj] at h
  case running =>
    rw [Option.ite_none_right_eq_some] at h
    exact .inr ⟨rfl, h.1.1, h.1.2, (Option.some.inj h.2).symm⟩
  all_goals cases h
  all_goals simp

theorem restoredFrom_readDb {r : Row} {st : Jobstate} {info : Procinfo}
    (hst : restoredState e (s.readDb e r true) = some st) :
    ({ s.readDb e r true with state := st, info := info } : Job).RestoredFrom e s.nusers r :=
  ⟨rfl, hst, rfl, rfl, rfl, rfl, rfl, fun _ hu => restoredUser_lt hu⟩

/-- The rows that have been read. -/
structure ReadSoFar (e : Env) (s₀ : Spool) (l : List Row) (s : Spool) : Prop
    extends Reloaded e s₀ s where
  ids : (s.activeJobs.map Job.jobid).Sublist (l.map fun r => r.job.jobid)

theorem countQueued_keeps {u : Option ℕ} (i : ℕ) :
    ((s.countQueued u).users i).uid = (s.users i).uid ∧
    ((s.countQueued u).users i).busy = (s.users i).busy ∧
    ((s.countQueued u).users i).jobs = (s.users i).jobs := by
  rw [Queue.users_countQueued]
  split_ifs <;> simp [User.bump]

theorem readSoFar_countQueued {l : List Row} (h : ReadSoFar e s₀ l s) (u : Option ℕ) :
    ReadSoFar e s₀ l (s.onQueue fun q => q.countQueued u) := by
  have hkeep := countQueued_keeps (s := s) (u := u)
  have hn : (s.countQueued u).nusers = s.nusers := by cases u <;> rfl
  have hj : (s.countQueued u).jobids = s.jobids := by cases u <;> rfl
  have ha : (s.countQueued u).activeJobs = s.activeJobs := Queue.activeJobs_modUser
  have hb : (s.countQueued u).busySlots = s.busySlots := by cases u <;> rfl
  have hm : (s.countQueued u).maxSlots = s.maxSlots := by cases u <;> rfl
  refine ⟨⟨ha ▸ h.nodup, ?_, ?_, ?_, hb.trans h.busySlots, h.events, ?_,
    h.maxSlots.trans_eq hm.symm⟩, ha ▸ h.ids⟩
  · show ∀ p ∈ (s.countQueued u).activeJobs, p.jobid < (s.countQueued u).jobids
    rw [ha, hj]
    exact h.lt
  · show ∀ i < (s.countQueued u).nusers, ∀ j < (s.countQueued u).nusers,
      ((s.countQueued u).users i).uid = ((s.countQueued u).users j).uid → i = j
    intro i hi j hj heq
    rw [hn] at hi hj
    rw [(hkeep i).1, (hkeep j).1] at heq
    exact h.uids i hi j hj heq
  · show ∀ p ∈ (s.countQueued u).activeJobs, ∃ r ∈ s₀.dbJobs.rows,
      p.RestoredFrom e (s.countQueued u).nusers r
    rw [ha, hn]
    exact h.restored
  · show ∀ i < (s.countQueued u).nusers, ((s.countQueued u).users i).busy = 0 ∧
      ((s.countQueued u).users i).jobs = 0
    intro i hi
    rw [(hkeep i).2.1, (hkeep i).2.2]
    exact h.counters i (hn ▸ hi)

theorem readSoFar_sAddJob {l : List Row} {r : Row} (h : ReadSoFar e s₀ l s)
    (hr : r ∈ s₀.dbJobs.rows) (hnew : r.job.jobid ∉ l.map fun r => r.job.jobid) :
    ReadSoFar e s₀ (l ++ [r]) (s.sAddJob e (s.readDb e r true)) := by
  have hsub : (l.map fun r => r.job.jobid).Sublist ((l ++ [r]).map fun r => r.job.jobid) :=
    (List.sublist_append_left _ _).map _
  rw [sAddJob]
  cases hst : restoredState e (s.readDb e r true) with
  | none =>
    dsimp only
    split_ifs
    · exact ⟨⟨h.nodup, h.lt, h.uids, h.restored, h.busySlots, h.events, h.counters,
        h.maxSlots⟩,
        h.ids.trans hsub⟩
    · exact ⟨h.toReloaded, h.ids.trans hsub⟩
  | some st =>
    dsimp only
    -- the job goes behind the others, which have smaller rows
    have hadd : ∀ {s₁ : Spool} (info : Procinfo), ReadSoFar e s₀ l s₁ → s₁.nusers = s.nusers →
        ReadSoFar e s₀ (l ++ [r]) (s₁.onQueue fun q =>
          { q with
            activeJobs := q.activeJobs ++ [{ s.readDb e r true with state := st, info := info }]
            jobids := if (s.readDb e r true).jobid < q.jobids then q.jobids
                      else (s.readDb e r true).jobid + 1 }) := by
      intro s₁ info h₁ hn
      have hids : (s₁.activeJobs.map Job.jobid ++ [r.job.jobid]).Sublist
          ((l ++ [r]).map fun r => r.job.jobid) := by
        rw [List.map_append]
        exact h₁.ids.append (List.Sublist.refl _)
      refine ⟨⟨?_, ?_, h₁.uids, ?_, h₁.busySlots, h₁.events, h₁.counters, h₁.maxSlots⟩, ?_⟩
      · show ((s₁.activeJobs ++ [_]).map Job.jobid).Nodup
        rw [List.map_append]
        refine List.nodup_append.2 ⟨h₁.nodup, List.nodup_singleton _, ?_⟩
        rintro a ha b hb rfl
        rw [List.map_singleton, List.mem_singleton] at hb
        exact hnew (hb ▸ h₁.ids.subset ha)
      · intro p hp
        simp only [onQueue]
        obtain hp | hp := List.mem_append.1 hp
        · have := h₁.lt p hp
          split_ifs <;> omega
        · rw [List.mem_singleton] at hp
          subst hp
          split_ifs with hlt
          · exact hlt
          · show (s.readDb e r true).jobid < (s.readDb e r true).jobid + 1
            omega
      · intro p hp
        obtain hp | hp := List.mem_append.1 hp
        · exact h₁.restored p hp
        · rw [List.mem_singleton] at hp
          subst hp
          refine ⟨r, hr, ?_⟩
          show ({ s.readDb e r true with state := st, info := info } : Job).RestoredFrom e s₁.nusers r
          rw [hn]
          exact restoredFrom_readDb hst
      · show ((s₁.activeJobs ++ [_]).map Job.jobid).Sublist _
        rw [List.map_append]
        exact hids
    split_ifs
    all_goals first
      | exact hadd _ h rfl
      | exact hadd _ (readSoFar_countQueued h _) (by cases (s.readDb e r true).user <;> rfl)

theorem readSoFar_foldl {l m : List Row} (h : ReadSoFar e s₀ l s)
    (hsub : ∀ r ∈ m, r ∈ s₀.dbJobs.rows) (hnd : ((l ++ m).map fun r => r.job.jobid).Nodup) :
    ReadSoFar e s₀ (l ++ m) (m.foldl (fun s r => s.sAddJob e (s.readDb e r true)) s) := by
  induction m generalizing l s with
  | nil =>
    rw [List.append_nil]
    exact h
  | cons r l' ih =>
    have hnew : r.job.jobid ∉ l.map fun r => r.job.jobid := by
      rw [List.map_append, List.map_cons, List.nodup_append] at hnd
      exact fun hmem => hnd.2.2 _ hmem _ List.mem_cons_self rfl
    have := ih (readSoFar_sAddJob h (hsub r List.mem_cons_self) hnew)
      (fun r hr => hsub r (List.mem_cons_of_mem _ hr)) (by simpa using hnd)
    rw [List.foldl_cons]
    simpa using this

theorem reloaded_sReadSqlite (h : Reloaded e s₀ s) (hnone : s.activeJobs = [])
    (hdb : s.dbJobs = s₀.dbJobs) : Reloaded e s₀ (s.sReadSqlite e) := by
  have hperm : (rowsInOrder e s.dbJobs).Perm s.dbJobs.rows := e.Q.perm _ _
  have hread := readSoFar_foldl (l := []) (m := rowsInOrder e s.dbJobs) (s := s) ⟨h, by simp [hnone]⟩
    (fun r hr => hdb ▸ hperm.subset hr)
    ((hperm.map _).nodup_iff.2 s.dbJobs.nodup)
  have hfin : ∀ (l : List Row) (s : Spool), Reloaded e s₀ s → Reloaded e s₀
      (l.foldl (fun s r => s.onQueue fun q =>
        { q with finishedJobs := q.finishedJobs ++ [s.readDb e r false] }) s) := by
    intro l
    induction l with
    | nil => exact fun s h => h
    | cons r l ih =>
      exact fun s h => ih _ ⟨h.nodup, h.lt, h.uids, h.restored, h.busySlots, h.events, h.counters,
        h.maxSlots⟩
  exact hfin _ _ hread.toReloaded

/-! ### The start -/

/-- A new process before it has read the tables. -/
structure Started (s₀ s : Spool) : Prop where
  activeJobs : s.activeJobs = []
  finishedJobs : s.finishedJobs = []
  dbJobs : s.dbJobs = s₀.dbJobs
  dbFinished : s.dbFinished = s₀.dbFinished
  uids : ∀ u < s.nusers, ∀ u' < s.nusers, (s.users u).uid = (s.users u').uid → u = u'
  busySlots : s.busySlots = 0
  events : s.events = s₀.events
  counters : ∀ u < s.nusers, (s.users u).busy = 0 ∧ (s.users u).jobs = 0
  maxSlots : 0 < s.maxSlots

theorem Started.reloaded (h : Started s₀ s) : Reloaded e s₀ s := by
  refine ⟨by simp [h.activeJobs], ?_, h.uids, ?_, h.busySlots, h.events, h.counters,
    h.maxSlots⟩
  · simp [h.activeJobs]
  · simp [h.activeJobs]

theorem started_boot : Started s₀ (s₀.boot e) := by
  refine ⟨rfl, rfl, rfl, rfl, fun u hu u' hu' _ => ?_, rfl, rfl, fun _ _ => ⟨rfl, rfl⟩, zero_lt_one⟩
  exact (Nat.lt_one_iff.1 hu).trans (Nat.lt_one_iff.1 hu').symm

theorem db_readUserFile :
    ((s.readUserFile e).dbJobs, (s.readUserFile e).dbFinished) = (s.dbJobs, s.dbFinished) := by
  refine Except.foldl_induction (R := fun s s' : Spool =>
    (s'.dbJobs, s'.dbFinished) = (s.dbJobs, s.dbFinished)) (fun _ => rfl)
    (fun h h' => h'.trans h) s fun {s l} _ => ?_
  cases l with
  | slots n =>
    rw [readUserLine]
    split_ifs
    · rw [sSetMaxSlots]
      split_ifs <;> rfl
    · rfl
  | user name uid maxSlots =>
    rw [readUserLine]
    split
    · rfl
    · split_ifs <;> rfl

theorem started_readUserFile (h : Started s₀ s) : Started s₀ (s.readUserFile e) := by
  have hr := readUserFile_reads (e := e) (s := s)
  have hbusy : (s.readUserFile e).view.busySlots = s.busySlots := by rw [hr.view]; rfl
  have hev : (s.readUserFile e).view.events = s.events := by rw [hr.view]; rfl
  have hfin : (s.readUserFile e).view.finishedJobs = [] := by
    rw [hr.view]
    show s.finishedJobs.map Job.strip = []
    rw [h.finishedJobs, List.map_nil]
  have hdb := db_readUserFile (e := e) (s := s)
  rw [Prod.mk.injEq] at hdb
  refine ⟨hr.activeJobs.trans h.activeJobs, List.map_eq_nil_iff.1 hfin, hdb.1.trans h.dbJobs,
    hdb.2.trans h.dbFinished, hr.uids h.uids,
    hbusy.trans h.busySlots, hev.trans h.events, fun u hu => ?_, ?_⟩
  swap
  · obtain hpos | heq := hr.maxSlots
    · exact hpos
    · rw [heq]
      exact h.maxSlots
  by_cases hold : u < s.nusers
  · obtain ⟨-, h₂, h₃, -⟩ := hr.old u hold
    rw [h₂, h₃]
    exact h.counters u hold
  · obtain ⟨h₂, h₃, -⟩ := hr.new u hu (by omega)
    exact ⟨h₂, h₃⟩

theorem started_sSetMaxSlots {n : ℤ} (h : Started s₀ s) : Started s₀ (s.sSetMaxSlots 0 n) := by
  rw [sSetMaxSlots, if_neg (lt_irrefl 0)]
  split_ifs with hn
  · exact ⟨h.activeJobs, h.finishedJobs, h.dbJobs, h.dbFinished, h.uids, h.busySlots, h.events,
      h.counters, hn⟩
  · exact h

theorem started_capUsers (h : Started s₀ s) : Started s₀ s.capUsers := by
  have hkeep : ∀ u, (s.capUsers.users u).uid = (s.users u).uid ∧
      (s.capUsers.users u).busy = (s.users u).busy ∧
      (s.capUsers.users u).jobs = (s.users u).jobs := by
    intro u
    simp only [capUsers, onQueue]
    split_ifs <;> exact ⟨rfl, rfl, rfl⟩
  refine ⟨h.activeJobs, h.finishedJobs, h.dbJobs, h.dbFinished, fun u hu u' hu' heq => ?_,
    h.busySlots, h.events, fun u hu => ?_, h.maxSlots⟩
  · rw [(hkeep u).1, (hkeep u').1] at heq
    exact h.uids u hu u' hu' heq
  · rw [(hkeep u).2.1, (hkeep u).2.2]
    exact h.counters u hu

theorem started_initCpuBind (h : Started s₀ s) : Started s₀ (s.initCpuBind e) := by
  rw [initCpuBind]
  split_ifs
  · have h' : Started s₀ { s with cpu := { CpuBind.Bind.cpuBindInit e.T with
        disabled := e.noCpuBinding, defragDisabled := e.noBindDefrag } } :=
      ⟨h.activeJobs, h.finishedJobs, h.dbJobs, h.dbFinished, h.uids, h.busySlots, h.events,
    h.counters, h.maxSlots⟩
    dsimp only
    split_ifs
    · exact started_sSetMaxSlots h'
    · exact h'
  · exact h

theorem started_initJobids (h : Started s₀ s) : Started s₀ (s.initJobids e) := by
  rw [initJobids]
  split_ifs <;> exact ⟨h.activeJobs, h.finishedJobs, h.dbJobs, h.dbFinished, h.uids, h.busySlots, h.events,
    h.counters, h.maxSlots⟩

/-- A new process when it opens the tables. -/
def opened (e : Env) (s₀ : Spool) : Spool :=
  { (((s₀.boot e).readUserFile e).setDefaultMaxslots e).capUsers.initCpuBind e with
    jobsortFlag := e.tsSortjobs ≠ 0 }.initJobids e

theorem reload_eq : s₀.reload e = (opened e s₀).sReadSqlite e := rfl

theorem started_opened : Started s₀ (opened e s₀) := by
  have h₁ : Started s₀ (((s₀.boot e).readUserFile e).setDefaultMaxslots e) := by
    rw [setDefaultMaxslots]
    split
    · exact started_sSetMaxSlots (started_readUserFile started_boot)
    · exact started_readUserFile started_boot
  have h₂ := started_initCpuBind (e := e) (started_capUsers h₁)
  have h₃ : Started s₀ { (((s₀.boot e).readUserFile e).setDefaultMaxslots e).capUsers.initCpuBind e
      with jobsortFlag := e.tsSortjobs ≠ 0 } :=
    ⟨h₂.activeJobs, h₂.finishedJobs, h₂.dbJobs, h₂.dbFinished, h₂.uids, h₂.busySlots, h₂.events,
      h₂.counters, h₂.maxSlots⟩
  exact started_initJobids h₃

/-- **What a new process finds.** -/
theorem reload_reloaded : Reloaded e s₀ (s₀.reload e) := by
  have hs : Started s₀ (opened e s₀) := started_opened
  rw [reload_eq]
  exact reloaded_sReadSqlite hs.reloaded hs.activeJobs hs.dbJobs

theorem finished_sAddJob {j : Job} :
    ((s.sAddJob e j).dbFinished, (s.sAddJob e j).finishedJobs) = (s.dbFinished, s.finishedJobs) := by
  rw [sAddJob]
  split
  · split_ifs <;> rfl
  · cases j.user <;> simp only [onQueue] <;> split_ifs <;> rfl

theorem finished_readRows {l : List Row} :
    (l.foldl (fun s r => s.onQueue fun q =>
      { q with finishedJobs := q.finishedJobs ++ [s.readDb e r false] }) s).finishedJobs.map
        (fun p => (p.jobid, p.shouldKeepFinished)) =
      s.finishedJobs.map (fun p => (p.jobid, p.shouldKeepFinished)) ++
        l.map fun r => (r.job.jobid, r.job.shouldKeepFinished) := by
  induction l generalizing s with
  | nil => exact (List.append_nil _).symm
  | cons r l ih =>
    rw [List.foldl_cons, ih]
    show (s.finishedJobs ++ [s.readDb e r false]).map _ ++ _ = _
    rw [List.map_append, List.map_singleton, List.append_assoc, List.map_cons]
    rfl

/-- The finished jobs of a new process are the rows of `Finished`. -/
theorem finished_reload : (s₀.reload e).finishedJobs.map (fun p => (p.jobid, p.shouldKeepFinished)) =
    (rowsInOrder e s₀.dbFinished).map fun r => (r.job.jobid, r.job.shouldKeepFinished) := by
  have hs : Started s₀ (opened e s₀) := started_opened
  rw [reload_eq]
  generalize opened e s₀ = s at hs
  have hjobs := Except.foldl_induction (R := fun s s' : Spool =>
    (s'.dbFinished, s'.finishedJobs) = (s.dbFinished, s.finishedJobs)) (fun _ => rfl)
    (fun h h' => h'.trans h) (l := rowsInOrder e s.dbJobs)
    (f := fun s r => s.sAddJob e (s.readDb e r true)) s fun _ => finished_sAddJob
  rw [Prod.mk.injEq] at hjobs
  rw [sReadSqlite, finished_readRows, hjobs.1, hjobs.2, hs.finishedJobs, hs.dbFinished]
  rfl

theorem finishedJobs_reload (h : s₀.dbFinished.rows = []) : (s₀.reload e).finishedJobs = [] := by
  have hperm : (rowsInOrder e s₀.dbFinished).Perm s₀.dbFinished.rows := e.Q.perm _ _
  rw [h] at hperm
  have hnil : (s₀.reload e).finishedJobs.map _ = (rowsInOrder e s₀.dbFinished).map _ := finished_reload
  rw [hperm.eq_nil, List.map_nil] at hnil
  exact List.map_eq_nil_iff.1 hnil

theorem view_rewriteCpuset (p : Job) : (s.rewriteCpuset e p).view = s.view := by
  rw [rewriteCpuset]
  split_ifs
  · cases p.cpuAlloc with
    | none => rfl
    | some ptr =>
      dsimp only
      split
      · rfl
      · exact view_cgroupsSetCpuset ..
  · rfl

theorem view_restoreCgroup {g : Cgroup} (h : s.restoreCgroup e g = .ok s') : s'.view = s.view := by
  rw [restoreCgroup] at h
  dsimp only at h
  split_ifs at h
  · cases h
    rfl
  · cases h
    rfl
  · split at h
    · cases h
      rfl
    · split_ifs at h
      · split at h
        · cases h
          rfl
        · split at h
          · cases h
          · cases h
            rfl
          · split_ifs at h
            · cases h
              rfl
            · cases h
              exact view_modJob_quiet fun _ => rfl
      · cases h
        rfl

theorem view_cgroupsRestoreAllCpuBind (h : s.cgroupsRestoreAllCpuBind e = .ok s') :
    s'.view = s.view := by
  rw [cgroupsRestoreAllCpuBind, Except.bind_eq_ok] at h
  obtain ⟨s₁, h₁, h⟩ := h
  cases h
  rw [view_foldl fun s p => view_rewriteCpuset p]
  exact Except.foldlM_induction (R := fun s s' : Spool => s'.view = s.view) (fun _ => rfl)
    (fun h h' => h'.trans h) (fun _ h => view_restoreCgroup h) h₁

/-- **`server_main`**: after the jobs have been read, nothing but a recount happens to the queue. -/
theorem serverMain_usage (h : s₀.serverMain e = .ok s') :
    Usage e ((s₀.reload e).Late e) (s₀.reload e).view s'.view := by
  rw [serverMain, Except.bind_eq_ok] at h
  obtain ⟨s₁, h₁, h⟩ := h
  have husage := sUpdateSlotsUsage_usage reload_reloaded.ids h₁
  split_ifs at h
  · rw [view_cgroupsRestoreAllCpuBind h]
    exact husage
  · cases h
    exact husage

end Spool

namespace Server

variable {e : Env} {s s' : Server}

/-- **A restart brings up a sound server.** -/
theorem restart_sound (h : s.step e .restart = .ok s') : s'.Sound := by
  rw [step, Except.bind_eq_ok] at h
  obtain ⟨sp, hsp, h⟩ := h
  cases h
  refine ⟨(Spool.serverMain_usage hsp).ids Spool.reload_reloaded.ids, fun i hi => ?_⟩
  exact absurd (show (i : ℤ) < 0 from hi) (by omega)

/-- **Every step keeps the server sound.** -/
theorem Step.sound {C : Config} {l : Env × Input} (hs : s.Sound) (h : Step C s l s') :
    s'.Sound := by
  obtain ⟨-, hen, h⟩ := h
  by_cases hi : l.2 = .restart
  · rw [hi] at h
    exact restart_sound h
  · exact step_sound hs hen hi h

end Server

end TaskSpooler
