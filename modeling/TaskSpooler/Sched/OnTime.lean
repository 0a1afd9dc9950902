import TaskSpooler.Sched.Requests

/-!
# Requests that make no job late

A recount schedules only if some job ran too long.  `SUSPEND_USER` and `KILL_ALL` change the queue
before they recount; the lemmas here show that no job is late then unless one was late before.
-/

namespace TaskSpooler

namespace Spool

variable {e : Env} {s s' s'' : Spool} {jobid socket : ℤ} {p : Job}

/-- If a job is late in `s'`, then one is late in `s`. -/
def NoLater (e : Env) (s s' : Spool) : Prop := (∃ p, Late e s' p) → ∃ p, Late e s p

theorem NoLater.refl : NoLater e s s := id

theorem NoLater.trans (h : NoLater e s s') (h' : NoLater e s' s'') : NoLater e s s'' :=
  fun hlate => h (h' hlate)

theorem NoLater.of_map (h : s'.activeJobs.map (timedOut e) = s.activeJobs.map (timedOut e)) :
    NoLater e s s' := by
  rintro ⟨p, hp, hlate⟩
  have hmem : true ∈ s.activeJobs.map (timedOut e) := h ▸ hlate ▸ List.mem_map_of_mem hp
  obtain ⟨p, hp, hlate⟩ := List.mem_map.1 hmem
  exact ⟨p, hp, hlate⟩

theorem NoLater.of_eq (h : s'.activeJobs = s.activeJobs) : NoLater e s s' := .of_map (by rw [h])

theorem NoLater.of_subset (h : s'.activeJobs ⊆ s.activeJobs) : NoLater e s s' :=
  fun ⟨p, hp, hlate⟩ => ⟨p, h hp, hlate⟩

theorem NoLater.modJob {f : Job → Job} (hf : ∀ p, timedOut e (f p) → timedOut e p) :
    NoLater e s (s.modJob jobid f) := by
  rintro ⟨p, hp, hlate⟩
  obtain ⟨x, hx, -, rfl⟩ | ⟨hx, -⟩ := Keyed.mem_modify.1 hp
  · exact ⟨x, hx, hf x hlate⟩
  · exact ⟨p, hx, hlate⟩

theorem timedOut_setState {st : Jobstate} (h : st ≠ .running) :
    timedOut e (p.setState st) = false := by
  simp [timedOut, Job.setState, h]

theorem noLater_freeCores : NoLater e s (s.freeCores p) := by
  refine .of_map ?_
  show (s.toQueue.freeCores p).activeJobs.map (timedOut e) = _
  rw [Queue.freeCores]
  split_ifs
  · rfl
  · have hmap : (Keyed.modify Job.jobid p.jobid Job.freed s.activeJobs).map (timedOut e) =
        s.activeJobs.map (timedOut e) := Keyed.map_modify fun _ _ _ => rfl
    cases p.user <;> exact hmap

theorem activeJobs_freeAlloc (ptr : Option ℕ) : (s.freeAlloc e ptr).activeJobs = s.activeJobs := by
  unfold freeAlloc
  cases ptr with
  | none => rfl
  | some ptr =>
    dsimp only
    split <;> rfl

theorem noLater_freeBind : NoLater e s (s.freeBind e p) :=
  (NoLater.of_eq (activeJobs_freeAlloc _)).trans (.modJob fun _ h => h)

theorem noLater_pauseJobConfig : NoLater e s (s.pauseJobConfig e p) := by
  rw [pauseJobConfig]
  split_ifs
  · refine NoLater.trans (.modJob fun x hx => ?_) (.of_eq rfl)
    -- the time of a pause does not count while the job runs
    simp only [timedOut, checkTimeout, getWorkTimeByJob, decide_eq_true_eq] at hx ⊢
    obtain ⟨hrun, hx⟩ := hx
    simp only [hrun, reduceCtorEq, if_false] at hx ⊢
    simpa using hx
  · exact .refl

theorem noLater_safePauseJob : NoLater e s (s.safePauseJob e p) := by
  have hfreeze : NoLater e s (s.cgroupsFreezeJob p) := .of_eq rfl
  exact ((hfreeze.trans noLater_freeCores).trans noLater_freeBind).trans noLater_pauseJobConfig

theorem noLater_suspendJob {u : ℕ} : NoLater e s (s.suspendJob e socket u jobid) := by
  rw [suspendJob]
  split
  · exact .refl
  · split_ifs
    · refine noLater_safePauseJob.trans (.modJob fun x hx => ?_)
      rw [timedOut_setState (by simp)] at hx
      cases hx
    · exact .of_eq rfl
    · exact .refl

theorem noLater_checkNotifyList (h : s.checkNotifyList jobid = .ok s') : NoLater e s s' :=
  .of_eq (checkNotifyList_activeJobs h)

theorem noLater_sDeleteJob (h : s.sDeleteJob jobid = .ok s') : NoLater e s s' := by
  rw [sDeleteJob] at h
  split at h
  · cases h
  · cases h
    exact .of_subset Keyed.remove_subset

/-- The record of a job that is being finished. -/
theorem state_of_mem_finish {q : Queue} {r : Result} {x : Job}
    (hx : x ∈ (q.finish r p).activeJobs) (hid : x.jobid = p.jobid) : x.state ≠ .running := by
  have hmap : (q.finish r p).activeJobs.map (fun x => (x.jobid, x.state)) =
      ((q.freeCores p).modJob p.jobid (Job.done r)).activeJobs.map fun x => (x.jobid, x.state) :=
    Queue.map_notifyErrorlevel fun _ _ => rfl
  have hmem : (x.jobid, x.state) ∈
      ((q.freeCores p).modJob p.jobid (Job.done r)).activeJobs.map fun x => (x.jobid, x.state) :=
    hmap ▸ List.mem_map_of_mem hx
  obtain ⟨y, hy, hyx⟩ := List.mem_map.1 hmem
  rw [Prod.mk.injEq] at hyx
  rw [← hyx.2]
  obtain ⟨z, -, -, rfl⟩ | ⟨-, hne⟩ := Keyed.mem_modify.1 hy
  · simp only [Job.done]
    split_ifs <;> simp
  · exact absurd (hyx.1.trans hid) hne

theorem noLater_finish {r : Result} : NoLater e s (s.onQueue fun q => q.finish r p) := by
  have hdone : NoLater e s ((s.freeCores p).modJob p.jobid (Job.done r)) := by
    refine noLater_freeCores.trans (.modJob fun x hx => ?_)
    simp only [timedOut, Job.done] at hx
    split_ifs at hx <;> simp at hx
  refine hdone.trans (.of_map ?_)
  exact Queue.map_notifyErrorlevel fun _ _ => rfl

theorem activeJobs_mkdirCgroup {pid : ℤ} : (s.mkdirCgroup jobid pid).activeJobs = s.activeJobs := by
  unfold mkdirCgroup
  split <;> rfl

theorem activeJobs_defragIo (a : CpuBind.CpuAlloc) :
    (s.defragIo e a).activeJobs = s.activeJobs := by
  unfold defragIo
  cases s.findjob a.jobid with
  | none => rfl
  | some p =>
    dsimp only
    split
    · exact activeJobs_mkdirCgroup
    · rfl

theorem activeJobs_defrag : (s.defrag e).activeJobs = s.activeJobs := by
  unfold defrag
  split_ifs
  · exact Except.foldl_induction (R := fun s s' : Spool => s'.activeJobs = s.activeJobs)
      (fun _ => rfl) (fun h h' => h'.trans h) _ fun _ => activeJobs_defragIo _
  · rfl

theorem activeJobs_newFinishedJob : (s.newFinishedJob e p).activeJobs = s.activeJobs := by
  have hclean : ∀ s : Spool, (s.cgroupsCleanJob p).activeJobs = s.activeJobs := by
    intro s
    unfold cgroupsCleanJob
    split_ifs <;> rfl
  have hdb : ∀ s : Spool, (s.insertFinishedDb p).activeJobs = s.activeJobs := by
    intro s
    unfold insertFinishedDb
    split <;> rfl
  rw [newFinishedJob, activeJobs_defrag, activeJobs_freeAlloc, hclean, hdb]
  rfl

theorem noLater_jobFinished {r : Result} (h : s.jobFinished e r jobid = .ok s') :
    NoLater e s s' := by
  rw [jobFinished] at h
  split_ifs at h
  cases hp : s.findjob jobid with
  | none => simp [hp] at h
  | some p =>
    simp only [hp] at h
    obtain rfl := findjob_jobid hp
    split at h
    · cases h
    · cases h
      have hend : NoLater e s ((s.onQueue fun q => q.finish r p).modJob p.jobid (finishInfo e r)) := by
        rintro ⟨x, hx, hlate⟩
        obtain ⟨y, hy, hid, rfl⟩ | ⟨hx, -⟩ := Keyed.mem_modify.1 hx
        · have hrun : y.state = .running := by
            simp only [timedOut, finishInfo, decide_eq_true_eq] at hlate
            exact hlate.1
          exact absurd hrun (state_of_mem_finish hy hid)
        · exact noLater_finish ⟨x, hx, hlate⟩
      refine hend.trans (.of_subset ?_)
      show (newFinishedJob e _ _).activeJobs ⊆ _
      rw [activeJobs_newFinishedJob]
      exact Keyed.remove_subset

theorem noLater_sweepDead (h : s.sweepDead e = .ok s') : NoLater e s s' := by
  refine Except.foldlM_induction (R := NoLater e) (fun _ => .refl) (fun h h' => h.trans h')
    (fun {s s' jobid} _ h => ?_) h
  rw [sweepJob] at h
  cases hp : s.findjob jobid with
  | none =>
    simp only [hp] at h
    cases h
    exact .refl
  | some p =>
    simp only [hp] at h
    split_ifs at h
    · rw [Except.bind_eq_ok] at h
      obtain ⟨s₁, h₁, h⟩ := h
      exact (noLater_jobFinished h₁).trans (noLater_checkNotifyList h)
    · cases h
      exact .refl

theorem recount_activeJobs (h : s.recount = .ok s') : s'.activeJobs = s.activeJobs := by
  rw [recount] at h
  dsimp only at h
  split_ifs at h
  all_goals
    cases h
    rfl

/-- A recount makes no job late, unless one was. -/
theorem noLater_sUpdateSlotsUsage (h : s.sUpdateSlotsUsage e = .ok s') : NoLater e s s' := by
  by_cases hlate : ∃ p, Late e s p
  · exact fun _ => hlate
  · have hnone : s.activeJobs.filter (timedOut e) = [] := by
      rw [List.filter_eq_nil_iff]
      exact fun p hp ht => hlate ⟨p, hp, ht⟩
    simp only [sUpdateSlotsUsage, sCheckTimeout, hnone, List.reverse_nil, List.map_nil,
      List.foldl_nil, List.not_mem_nil, not_false_eq_true, decide_true, List.filter_true,
      List.filterMap_nil, List.append_nil, List.isEmpty_nil, Bool.not_true, Except.bind_eq_ok] at h
    obtain ⟨s₁, h₁, s₂, h₂, h⟩ := h
    cases h
    exact (noLater_sweepDead h₁).trans (.of_eq (recount_activeJobs h₂))

end Spool

end TaskSpooler
