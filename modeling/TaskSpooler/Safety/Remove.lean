import TaskSpooler.Ops.Times
import TaskSpooler.Ops.Shelf

/-!
# Removing a job

`s_remove_job` tells the clients that wait for the job while it is still in its list.  If it is not
to be kept, the last of them destroys it there: the server stops with an error if the job is an
active one, and uses a freed job otherwise.  A removed job that had a process comes back as a
finished one.

`remove_job_iff` says when none of this happens: the job is kept or nobody is the last one who waits
for it, and it had no process if it was active.
-/

namespace TaskSpooler

open Waiting

namespace Spool

variable {e : Env} {s s' : Spool} {p : Job} {jobid socket : ℤ} {client : ℕ}

/-- The job that a request removes: it is named, the client may remove it, and it is not at work. -/
def removable (s : Spool) (jobid : ℤ) (client : ℕ) : Option Job :=
  (s.namedJob jobid).filter fun p => (client = 0 ∨ p.user = some client) ∧ p.state ≠ .running ∧
    p.state ≠ .pause ∧ p.state ≠ .abnormal

/-- No two jobs have this id. -/
def Sole (s : Spool) (k : ℤ) : Prop :=
  (s.activeJobs.map Job.jobid ++ s.finishedJobs.map Job.jobid).count k ≤ 1

instance {k : ℤ} : Decidable (s.Sole k) := inferInstanceAs (Decidable (_ ≤ _))

/-- The request returns, and leaves what its answer says. -/
def RemovesWell (e : Env) (s : Spool) (socket jobid : ℤ) (client : ℕ) : Prop :=
  ∃ s' removed, s.sRemoveJob e socket jobid client = .ok (s', removed) ∧
    match removed with
    | some k => s'.sent.head? = some (socket, .removejobOk) ∧
        k ∉ s'.activeJobs.map Job.jobid ∧ k ∉ s'.finishedJobs.map Job.jobid
    | none => (∃ text, s'.sent = (socket, .removejobNok text) :: s.sent) ∧
        s'.activeJobs = s.activeJobs ∧ s'.finishedJobs = s.finishedJobs ∧ s'.notifies = s.notifies

/-- Nobody destroys the job while it is removed, and it does not come back. -/
def SafeToRemove (s : Spool) (p : Job) : Prop :=
  (p.shouldKeepFinished = true ∨ ¬s.ServesAll p.jobid) ∧
    ((s.findjob p.jobid).isSome → p.pid = 0)

theorem removable_eq_some : s.removable jobid client = some p ↔ s.namedJob jobid = some p ∧
    (client = 0 ∨ p.user = some client) ∧ p.state ≠ .running ∧ p.state ≠ .pause ∧
      p.state ≠ .abnormal := by
  rw [removable, Option.filter_eq_some_iff, decide_eq_true_eq]

theorem removeRefusal_eq_none (h : p.state ≠ .running ∧ p.state ≠ .pause ∧ p.state ≠ .abnormal) :
    s.removeRefusal jobid p = none := by
  simp [removeRefusal, h]

theorem sRemoveJob_of_none (h : s.removable jobid client = none) :
    ∃ text, s.sRemoveJob e socket jobid client = .ok (s.sSendRemovejobNok socket text, none) := by
  rw [sRemoveJob]
  cases hp : s.namedJob jobid with
  | none =>
    rw [namedJob] at hp
    simp only [hp]
    exact ⟨_, rfl⟩
  | some p =>
    have hno : ¬((client = 0 ∨ p.user = some client) ∧ p.state ≠ .running ∧ p.state ≠ .pause ∧
        p.state ≠ .abnormal) := fun hall => by
      rw [removable_eq_some.2 ⟨hp, hall⟩] at h
      cases h
    rw [namedJob] at hp
    simp only [hp]
    by_cases hown : client ≠ 0 ∧ p.user ≠ some client
    · rw [if_pos hown]
      exact ⟨_, rfl⟩
    · rw [if_neg hown]
      cases href : s.removeRefusal jobid p with
      | none => exact absurd ⟨by tauto, removeRefusal_none href⟩ hno
      | some text => exact ⟨text, rfl⟩

theorem sRemoveJob_of_some (h : s.removable jobid client = some p) :
    s.sRemoveJob e socket jobid client =
      (if (s.findjob p.jobid).isSome then s.removeActive e p else s.removeFinished p).map
        fun s => (s.send socket .removejobOk, some p.jobid) := by
  obtain ⟨hp, hown, hst⟩ := removable_eq_some.1 h
  rw [namedJob] at hp
  have hown' : ¬(client ≠ 0 ∧ p.user ≠ some client) := by tauto
  simp only [sRemoveJob, hp, if_neg hown', removeRefusal_eq_none hst]
  split_ifs
  · cases s.removeActive e p <;> rfl
  · cases s.removeFinished p <;> rfl

/-! ### An active job -/

/-- The state in which the clients that wait for a removed job are told. -/
def markedGone (s : Spool) (p : Job) : Spool :=
  ((s.deleteJobsDb p.jobid).modJob p.jobid Job.gone).onQueue fun q => q.notifyErrorlevel p.gone

theorem finishedIds_markedGone :
    (s.markedGone p).finishedJobs.map Job.jobid = s.finishedJobs.map Job.jobid :=
  Queue.map_finished_notifyErrorlevel fun _ _ => rfl

theorem getJob_markedGone (hp : s.findjob p.jobid = some p) : ∃ j, (s.markedGone p).getJob p.jobid =
    some j ∧ j.jobid = p.jobid ∧ j.state = .finished ∧
      j.shouldKeepFinished = p.shouldKeepFinished := by
  have hmod : ((s.deleteJobsDb p.jobid).modJob p.jobid Job.gone).findjob p.jobid = some p.gone := by
    have h : ((s.deleteJobsDb p.jobid).modJob p.jobid Job.gone).findjob p.jobid = _ :=
      Queue.findjob_modJob (f := Job.gone) (fun _ h => h) p.jobid
    have hp' : (s.deleteJobsDb p.jobid).findjob p.jobid = some p := hp
    rw [h, if_pos rfl, hp', Option.map_some]
  have hplain : ((s.markedGone p).findjob p.jobid).map Job.plain = some p.gone.plain := by
    rw [Queue.findjob_plain, markedGone, onQueue, Queue.plain_notifyErrorlevel, ← Queue.findjob_plain,
      hmod, Option.map_some]
  obtain ⟨j, hj, hjp⟩ := Option.map_eq_some_iff.1 hplain
  have hst : j.plain.state = .finished := by rw [hjp]; rfl
  have hkeep : j.plain.shouldKeepFinished = p.shouldKeepFinished := by rw [hjp]; rfl
  exact ⟨j, by rw [Queue.getJob, hj, Option.some_or], findjob_jobid hj, hst, hkeep⟩

theorem findFinishedJob_eq_none (h : p.jobid ∉ s.finishedJobs.map Job.jobid) :
    s.findFinishedJob p.jobid = none :=
  Keyed.lookup_eq_none.2 fun _ hx hid => h (hid ▸ List.mem_map_of_mem hx)

/-- What the clients that wait for an active job do to it. -/
theorem checkNotifyList_markedGone (hp : s.findjob p.jobid = some p)
    (hno : p.jobid ∉ s.finishedJobs.map Job.jobid) :
    ∃ s₂, s₂.toQueue = (s.markedGone p).toQueue ∧ (s.markedGone p).checkNotifyList p.jobid =
      if s.ServesAll p.jobid ∧ p.shouldKeepFinished = false then .error (.destroyFinished p.jobid)
      else .ok s₂ := by
  obtain ⟨j, hget, hid, hst, hkeep⟩ := getJob_markedGone hp
  refine ⟨(s.markedGone p).toldOf j, toQueue_tell, ?_⟩
  have hserves : (s.markedGone p).ServesAll p.jobid ↔ s.ServesAll p.jobid := Iff.rfl
  rw [← hid] at hget
  have heq := checkNotifyList_eq hget (.inl hst)
  rw [hid, hkeep] at heq
  have hnone : ((s.markedGone p).toldOf j).findFinishedJob p.jobid = none := by
    refine findFinishedJob_eq_none ?_
    rw [toldOf, toQueue_tell, finishedIds_markedGone]
    exact hno
  rw [heq]
  simp only [hserves, destroyFinishedJob, hnone]

/-- **The removal of an active job** stops the server if a client destroys the job. -/
theorem removeActive_cases (hp : s.findjob p.jobid = some p)
    (hno : p.jobid ∉ s.finishedJobs.map Job.jobid) :
    (s.ServesAll p.jobid ∧ p.shouldKeepFinished = false ∧
      s.removeActive e p = .error (.destroyFinished p.jobid)) ∨
    ¬(s.ServesAll p.jobid ∧ p.shouldKeepFinished = false) ∧ ∃ s', s.removeActive e p = .ok s' ∧
      (p.jobid ∈ s'.finishedJobs.map Job.jobid ↔ p.pid ≠ 0) := by
  obtain ⟨s₂, hq, heq⟩ := checkNotifyList_markedGone hp hno
  have hrem : s.removeActive e p = (do
      let s ← (s.markedGone p).checkNotifyList p.jobid
      let s := (s.onQueue fun q => q.dropJob p.jobid).log (.removed p.gone)
      if p.pid = 0 then .ok s
      else
        let s := ((s.freeCores p.gone).cgroupsCleanJob p.gone).freeAlloc e p.cpuAlloc
        .ok ((s.defrag e).newFinishedJob e { removedRecord e p.gone.freed with cpuAlloc := none })) := rfl
  by_cases hlast : s.ServesAll p.jobid ∧ p.shouldKeepFinished = false
  · rw [if_pos hlast] at heq
    exact .inl ⟨hlast.1, hlast.2, by rw [hrem, heq]; rfl⟩
  · rw [if_neg hlast] at heq
    refine .inr ⟨hlast, ?_⟩
    have hfin : s₂.finishedJobs.map Job.jobid = s.finishedJobs.map Job.jobid := by
      rw [hq, finishedIds_markedGone]
    by_cases hpid : p.pid = 0
    · refine ⟨_, by rw [hrem, heq]; exact if_pos hpid, ?_⟩
      refine iff_of_false ?_ (by simp [hpid])
      show p.jobid ∉ s₂.finishedJobs.map Job.jobid
      rw [hfin]
      exact hno
    · refine ⟨_, by rw [hrem, heq]; exact if_neg hpid, ?_⟩
      refine iff_of_true ?_ hpid
      rw [finishedJobs_newFinishedJob, Queue.pushFinished, List.map_append, List.mem_append]
      exact .inr (List.mem_singleton_self _)

/-! ### A finished job -/

/-- The record of a finished job that is removed, and its dependents know. -/
def goneFinished (s : Spool) (p : Job) : Spool :=
  ((s.deleteJobsDb p.jobid).onQueue fun q =>
    { q with finishedJobs := Keyed.modifyFirst Job.jobid p.jobid Job.gone q.finishedJobs }).onQueue
      fun q => q.notifyErrorlevel p.gone

theorem ids_goneFinished : (s.goneFinished p).activeJobs.map Job.jobid = s.activeJobs.map Job.jobid ∧
    (s.goneFinished p).finishedJobs.map Job.jobid = s.finishedJobs.map Job.jobid := by
  constructor
  · exact Queue.map_notifyErrorlevel fun _ _ => rfl
  · exact (Queue.map_finished_notifyErrorlevel fun _ _ => rfl).trans
      (Keyed.map_modifyFirst fun _ _ _ => rfl)

theorem findFinishedJob_goneFinished (hp : p ∈ s.finishedJobs)
    (hone : (s.finishedJobs.map Job.jobid).count p.jobid ≤ 1) :
    ∃ j, (s.goneFinished p).findFinishedJob p.jobid = some j ∧ j.jobid = p.jobid ∧
      j.state = .finished ∧ j.shouldKeepFinished = p.shouldKeepFinished := by
  have hplain : ((s.goneFinished p).findFinishedJob p.jobid).map Job.plain = some p.gone.plain := by
    have hlookup : ∀ l : List Job, (Keyed.lookup Job.jobid p.jobid l).map Job.plain =
        Keyed.lookup Job.jobid p.jobid (l.map Job.plain) := fun l =>
      (Keyed.lookup_map (c := Job.jobid) (h := Job.plain) fun _ => rfl).symm
    rw [Queue.findFinishedJob, hlookup, goneFinished, onQueue, Queue.finished_notifyErrorlevel,
      ← hlookup]
    have hmod : Keyed.lookup Job.jobid p.jobid
        (Keyed.modifyFirst Job.jobid p.jobid Job.gone s.finishedJobs) = some p.gone := by
      rw [Keyed.lookup_modifyFirst (f := Job.gone) fun _ => rfl,
        Keyed.lookup_of_count hone hp rfl, Option.map_some]
    exact congrArg (Option.map Job.plain) hmod
  obtain ⟨j, hj, hjp⟩ := Option.map_eq_some_iff.1 hplain
  have hst : j.plain.state = .finished := by rw [hjp]; rfl
  have hkeep : j.plain.shouldKeepFinished = p.shouldKeepFinished := by rw [hjp]; rfl
  exact ⟨j, hj, Keyed.key_of_lookup hj, hst, hkeep⟩

/-- **The removal of a finished job** uses a freed job if a client destroys it. -/
theorem removeFinished_cases (hp : p ∈ s.finishedJobs) (hact : s.findjob p.jobid = none)
    (hone : (s.finishedJobs.map Job.jobid).count p.jobid ≤ 1) :
    (s.ServesAll p.jobid ∧ p.shouldKeepFinished = false ∧
      s.removeFinished p = .error .useAfterFree) ∨
    ¬(s.ServesAll p.jobid ∧ p.shouldKeepFinished = false) ∧ ∃ s', s.removeFinished p = .ok s' ∧
      s'.activeJobs.map Job.jobid = s.activeJobs.map Job.jobid ∧
        p.jobid ∉ s'.finishedJobs.map Job.jobid := by
  set s₁ := s.goneFinished p
  obtain ⟨f, hrem, hfree, hdone⟩ : ∃ f, s.removeFinished p = s₁.checkNotifyList p.jobid >>= f ∧
      (∀ s₂, s₂.findFinishedJob p.jobid = none → f s₂ = .error .useAfterFree) ∧
      ∀ s₂ j, s₂.findFinishedJob p.jobid = some j → f s₂ = .ok (((s₂.onQueue fun q =>
        { q with finishedJobs := Keyed.remove Job.jobid p.jobid q.finishedJobs }).deleteFinishedDb
          p.jobid).log (.removed p.gone)) :=
    ⟨_, rfl, fun s₂ h => by simp only [h], fun s₂ j h => by simp only [h]⟩
  obtain ⟨hactive, hfinished⟩ := ids_goneFinished (s := s) (p := p)
  have hone₁ : (s₁.finishedJobs.map Job.jobid).count p.jobid ≤ 1 := by rwa [hfinished]
  obtain ⟨j, hj, hid, hst, hkeep⟩ := findFinishedJob_goneFinished hp hone
  have hget : s₁.getJob j.jobid = some j := by
    have hnone : s₁.findjob p.jobid = none := by
      rw [Queue.findjob, ← Option.not_isSome_iff_eq_none, Keyed.isSome_lookup, hactive,
        ← Keyed.isSome_lookup, Option.not_isSome_iff_eq_none]
      exact hact
    rw [hid, Queue.getJob, hnone, Option.none_or, hj]
  have hserves : s₁.ServesAll p.jobid ↔ s.ServesAll p.jobid := Iff.rfl
  have heq := checkNotifyList_eq hget (.inl hst)
  rw [hid, hkeep] at heq
  simp only [hserves] at heq
  have htold : (s₁.toldOf j).findFinishedJob p.jobid = some j := by
    rw [toldOf, toQueue_tell, hj]
  by_cases hlast : s.ServesAll p.jobid ∧ p.shouldKeepFinished = false
  · refine .inl ⟨hlast.1, hlast.2, ?_⟩
    have hgone : Keyed.lookup Job.jobid p.jobid
        (Keyed.remove Job.jobid p.jobid (s₁.toldOf j).finishedJobs) = none := by
      refine Keyed.lookup_eq_none.2 fun x hx hxid => Keyed.notMem_remove_of_count ?_
        (hxid ▸ List.mem_map_of_mem hx)
      rw [hxid, toldOf, toQueue_tell]
      exact hone₁
    rw [if_pos hlast, destroyFinishedJob, htold] at heq
    rw [hrem, heq]
    exact hfree _ hgone
  · refine .inr ⟨hlast, ?_⟩
    rw [if_neg hlast] at heq
    refine ⟨_, by rw [hrem, heq]; exact hdone _ j htold, ?_, ?_⟩
    · show (s₁.toldOf j).activeJobs.map Job.jobid = _
      rw [toldOf, toQueue_tell, hactive]
    · show p.jobid ∉ (Keyed.remove Job.jobid p.jobid (s₁.toldOf j).finishedJobs).map Job.jobid
      rw [toldOf, toQueue_tell]
      exact Keyed.notMem_remove_of_count hone₁

/-! ### The request -/

/-- **When removing a job goes well**, if it shares its id with no other job. -/
theorem removesWell_iff (hids : s.view.Ids)
    (halone : ∀ p, s.removable jobid client = some p → s.Sole p.jobid) :
    s.RemovesWell e socket jobid client ↔
      ∀ p, s.removable jobid client = some p → s.SafeToRemove p := by
  cases hp : s.removable jobid client with
  | none =>
    obtain ⟨text, heq⟩ : ∃ text, s.sRemoveJob e socket jobid client =
      .ok (s.sSendRemovejobNok socket text, none) := sRemoveJob_of_none hp
    exact iff_of_true ⟨_, none, heq, ⟨_, rfl⟩, rfl, rfl, rfl⟩ fun p h => by cases h
  | some p =>
    have hone := halone p hp
    rw [Sole, List.count_append] at hone
    have heq : s.sRemoveJob e socket jobid client = _ := sRemoveJob_of_some hp
    have hgoal : (∀ p', some p = some p' → s.SafeToRemove p') ↔ s.SafeToRemove p :=
      ⟨fun h => h p rfl, fun h p' hp' => Option.some.inj hp' ▸ h⟩
    rw [hgoal, RemovesWell, SafeToRemove, heq]
    -- the second list is looked through only if the first does not hold the job
    obtain hact | ⟨hact, hfin⟩ := namedJob_cases hids (removable_eq_some.1 hp).1
    · have hmem : p.jobid ∈ s.activeJobs.map Job.jobid :=
        List.mem_map_of_mem (Keyed.mem_of_lookup hact)
      have hno : p.jobid ∉ s.finishedJobs.map Job.jobid := by
        have hpos := List.count_pos_iff.2 hmem
        rw [← List.count_eq_zero]
        omega
      simp only [hact, Option.isSome_some, if_true, forall_const]
      obtain ⟨hlast, hdrop, herr⟩ | ⟨hlast, s', hok, hpid⟩ := removeActive_cases (e := e) hact hno
      · rw [herr]
        refine iff_of_false ?_ fun h => ?_
        · rintro ⟨s', removed, h, -⟩
          cases h
        · simp [hlast, hdrop] at h
      · rw [hok]
        constructor
        · rintro ⟨s₂, removed, h, hwell⟩
          cases h
          refine ⟨by rw [not_and] at hlast; simpa [imp_iff_not_or, or_comm] using hlast, ?_⟩
          by_contra hne
          exact hwell.2.2 (hpid.2 hne)
        · rintro ⟨-, hzero⟩
          refine ⟨_, _, rfl, rfl, ?_, fun h => hpid.1 h hzero⟩
          show p.jobid ∉ s'.activeJobs.map Job.jobid
          rw [ids_removeActive hids hok]
          simp
    · simp only [hact, Option.isSome_none, Bool.false_eq_true, if_false, false_imp_iff, and_true]
      obtain ⟨hlast, hdrop, herr⟩ | ⟨hlast, s', hok, hactive, hgone⟩ :=
        removeFinished_cases hfin hact (by omega)
      · rw [herr]
        refine iff_of_false ?_ fun h => ?_
        · rintro ⟨s', removed, h, -⟩
          cases h
        · simp [hlast, hdrop] at h
      · rw [hok]
        refine iff_of_true ⟨_, _, rfl, rfl, ?_, hgone⟩ ?_
        · show p.jobid ∉ s'.activeJobs.map Job.jobid
          rw [hactive, ← Keyed.isSome_lookup]
          simpa [Queue.findjob] using hact
        · rw [not_and] at hlast
          simpa [imp_iff_not_or, or_comm] using hlast

end Spool

namespace Server

variable {e : Env} {s s₀ : Server} {C : Config} {jobid socket : ℤ} {client : ℕ}

/-- **`s_remove_job` in a reachable state** returns and does what it answers, exactly if the job is
kept or no client is the last one who waits for it, and it is not an active one with a process.  The
job is the only one with its id. -/
theorem remove_job_iff (h₀ : s₀.Fresh) (h : Run (Step C) anyInput s₀ s)
    (halone : ∀ p, s.removable jobid client = some p → s.Sole p.jobid) :
    s.RemovesWell e socket jobid client ↔
      ∀ p, s.removable jobid client = some p → s.SafeToRemove p :=
  Spool.removesWell_iff (Run.sound h₀.sound h).ids halone

/-- A client waits for a job that is kept. -/
theorem kept_job_removed : ∃ s : Server, s.notifies = [(6, 1000)] ∧
    (s.removable 1000 1).isSome ∧ (s.RemovesWell (world 5) 7 1000 1 ↔
      ∀ p, s.removable 1000 1 = some p → s.SafeToRemove p) := by
  obtain ⟨s, hr, hP⟩ := exists_run plainConfig anyInput started
    (fun s => decide (s.notifies = [(6, 1000)]) && (s.removable 1000 1).isSome &&
      (s.removable 1000 1).all fun p => s.Sole p.jobid)
    [(world 1, .accept 5 1000), (world 2, .message 0 (.newjob { shouldKeepFinished := true })),
      (world 3, .accept 6 1000), (world 4, .message 1 (.request (.waitjob 1000)))]
    (by simp [world]) (by decide +kernel)
  rw [Bool.and_eq_true, Bool.and_eq_true, decide_eq_true_eq, Option.all_eq_true] at hP
  obtain ⟨⟨hwait, hsome⟩, halone⟩ := hP
  exact ⟨s, hwait, hsome, remove_job_iff fresh_started hr fun p hp => of_decide_eq_true (halone p hp)⟩

/-- A client waits for a job that is not to be kept, and the job is removed.  The server stops. -/
theorem awaited_job_not_removed : ¬∀ (C : Config) (s₀ s : Server) (e : Env) (socket jobid : ℤ)
    (client : ℕ), s₀.Fresh → Run (Step C) anyInput s₀ s → s.RemovesWell e socket jobid client := by
  intro hall
  obtain ⟨s, hr, hP⟩ := exists_run plainConfig anyInput started
    (fun s => (s.sRemoveJob (world 5) 7 1000 1).toBool = false)
    [(world 1, .accept 5 1000), (world 2, .message 0 (.newjob { shouldKeepFinished := false })),
      (world 3, .accept 6 1000), (world 4, .message 1 (.request (.waitjob 1000)))]
    (by simp [world]) (by decide +kernel)
  obtain ⟨s', removed, heq, -⟩ := hall _ _ _ (world 5) 7 1000 1 fresh_started hr
  rw [heq] at hP
  exact absurd (of_decide_eq_true hP) (by simp [Except.toBool])

end Server

end TaskSpooler
