import TaskSpooler.Sched.Progress
import TaskSpooler.Sched.Slots

/-!
# `s_update_slots_usage` returns

The recount finishes the jobs whose process has died, tells those who wait for them, and counts the
slots again.  It fails if `busy_slots` is negative when a job is finished, and if it counts a job
without an owner.  The first does not happen if the slots that the jobs give back have been counted
(`View.Covered`).  So it returns exactly if every job has an owner or is swept
(`sUpdateSlotsUsage_ok_iff`).
-/

namespace TaskSpooler

/-! ### Jobs without an owner -/

/-- `1` for a job that has no owner and will not be swept. -/
def Job.orphan (e : Env) (p : Job) : ℤ := if p.user = none ∧ Spool.isDead e p = false then 1 else 0

/-- The jobs that have no owner and will not be swept. -/
def View.orphans (e : Env) (v : View) : ℤ := (v.activeJobs.map (Job.orphan e)).sum

/-- The slots that the end of the jobs would give back. -/
def View.freed (v : View) : ℤ := (v.activeJobs.map Queue.freedSlots).sum

/-- The slots that are given back have been counted. -/
structure View.Covered (v : View) : Prop where
  ids : v.Ids
  nonneg : ∀ p ∈ v.activeJobs, 0 ≤ Queue.freedSlots p
  freed : v.freed ≤ v.busySlots

namespace View

variable {e : Env} {v v' : View} {late : Job → Prop} {a : Act}

theorem orphans_eq_zero : v.orphans e = 0 ↔ ∀ p ∈ v.activeJobs, p.user = none → Spool.isDead e p := by
  have hnn : ∀ x ∈ v.activeJobs.map (Job.orphan e), 0 ≤ x := by
    intro x hx
    obtain ⟨p, -, rfl⟩ := List.mem_map.1 hx
    rw [Job.orphan]
    split_ifs <;> omega
  constructor
  · intro h p hp hnone
    by_contra hdead
    have hle := List.single_le_sum hnn _ (List.mem_map_of_mem hp)
    have hone : p.orphan e = 1 := if_pos ⟨hnone, by simpa using hdead⟩
    rw [orphans] at h
    omega
  · intro h
    refine List.sum_eq_zero fun x hx => ?_
    obtain ⟨p, hp, rfl⟩ := List.mem_map.1 hx
    refine if_neg fun hor => ?_
    rw [h p hp hor.1] at hor
    cases hor.2

/-- A sweep neither makes nor removes jobs without an owner that are alive. -/
theorem orphans_apply (hids : v.Ids) (ha : a.ofSweep e late) (hg : a.Guard v) :
    (a.apply v).orphans e = v.orphans e := by
  have hsum := Act.sum_apply (w := Job.orphan e) (fun _ => rfl) hids hg
  rw [orphans, orphans, hsum]
  obtain ⟨p, rfl, -⟩ | ⟨r, p, p', max, rfl, hdead, -⟩ | ⟨l, rfl⟩ | ⟨l, rfl⟩ := Act.ofSweep_cases ha
  · have hsame : (if p.state = .running then p.freed.relegated else p.relegated).orphan e =
        p.orphan e := by
      have hst := hg.2.1
      have hdead : ∀ x : Job, x.state = .pause → x.pid = p.pid → Spool.isDead e x = Spool.isDead e p := by
        intro x hx hpid
        obtain hst | hst := hst <;> simp [Spool.isDead, hx, hst, hpid]
      rw [Job.orphan, Job.orphan, hdead]
      all_goals split_ifs <;> first | rfl | simp_all [Job.relegated, Job.freed]
    simp only [Act.new, Act.old, Option.elim_some, hsame]
    omega
  · have hzero : p.orphan e = 0 := if_neg fun hor => by simp [hdead] at hor
    simp only [Act.new, Act.old, Option.elim_some, Option.elim_none, hzero]
    omega
  · simp [Act.new, Act.old]
  · simp [Act.new, Act.old]

theorem Covered.busySlots (h : v.Covered) : 0 ≤ v.busySlots := by
  refine le_trans (List.sum_nonneg fun x hx => ?_) h.freed
  obtain ⟨p, hp, rfl⟩ := List.mem_map.1 hx
  exact h.nonneg p hp

theorem Covered.apply (h : v.Covered) (ha : a.ofSweep e late) (hg : a.Guard v) :
    (a.apply v).Covered := by
  obtain ⟨hids, hnn, hfreed⟩ := h
  have hsum : (a.apply v).freed = _ :=
    Act.sum_apply (w := Queue.freedSlots) (fun _ => rfl) hids hg
  rw [View.freed] at hfreed
  obtain ⟨p, rfl, -⟩ | ⟨r, p, p', max, rfl, -, -⟩ | ⟨l, rfl⟩ | ⟨l, rfl⟩ := Act.ofSweep_cases ha
  · have hp : 0 ≤ Queue.freedSlots p := hnn p.strip hg.1.mem
    by_cases hst : p.state = .running
    · have hnew : Queue.freedSlots p.freed.relegated = 0 := by
        simp [Queue.freedSlots, Job.relegated, Job.freed]
      refine ⟨Act.ids_apply hids hg, ?_, ?_⟩
      · refine Act.forall_apply (fun _ => rfl) hids hg hnn fun x hx => ?_
        simp only [Act.new, hst, if_true] at hx
        cases hx
        exact hnew.ge
      · rw [hsum, Act.busySlots_apply (a := .relegate p false) trivial]
        simp only [Act.new, Act.old, Act.slots, Act.takes, Act.frees, hst, if_true,
          Option.elim_some, hnew]
        omega
    · have hnew : Queue.freedSlots p.relegated = Queue.freedSlots p := rfl
      refine ⟨Act.ids_apply hids hg, ?_, ?_⟩
      · refine Act.forall_apply (fun _ => rfl) hids hg hnn fun x hx => ?_
        simp only [Act.new, hst, if_false] at hx
        cases hx
        exact hnew ▸ hp
      · rw [hsum, Act.busySlots_apply (a := .relegate p false) trivial]
        simp only [Act.new, Act.old, Act.slots, Act.takes, Act.frees, hst, if_false,
          Option.elim_some, hnew]
        omega
  · refine ⟨Act.ids_apply hids hg, ?_, ?_⟩
    · exact Act.forall_apply (fun _ => rfl) hids hg hnn fun x hx => by cases hx
    · rw [hsum, Act.busySlots_apply (a := .finish r p p' max) trivial]
      simp only [Act.new, Act.old, Act.slots, Act.takes, Act.frees, Option.elim_some,
        Option.elim_none]
      omega
  · refine ⟨Act.ids_apply hids hg, fun p hp => hnn p (List.Perm.subset hg hp), ?_⟩
    have hsame : v.freed = (Act.apply v (.reorder l)).freed := by
      rw [hsum]
      simp [Act.new, Act.old, View.freed]
    exact hsame ▸ hfreed
  · exact ⟨Act.ids_apply hids hg, hnn, hfreed⟩

theorem Covered.sweep (h : v.Covered) (hm : Moves (fun a _ => a.ofSweep e late) v v') :
    v'.Covered ∧ v'.orphans e = v.orphans e :=
  hm.invariant (I := fun w => w.Covered ∧ w.orphans e = v.orphans e) ⟨h, rfl⟩ fun hI ha hg =>
    ⟨hI.1.apply ha hg, (orphans_apply hI.1.ids ha hg).trans hI.2⟩

end View

namespace Spool

variable {e : Env} {s s' s₀ : Spool} {p : Job} {jobid : ℤ}

/-! ### The sweep -/

theorem ids_finish {q : Queue} {r : Result} :
    (q.finish r p).activeJobs.map Job.jobid = q.activeJobs.map Job.jobid := by
  have hfree : (q.freeCores p).activeJobs.map Job.jobid = q.activeJobs.map Job.jobid := by
    rw [Queue.freeCores]
    split_ifs
    · rfl
    · refine (Keyed.map_modify (c := Job.jobid) (f := Job.freed) fun _ _ _ => rfl).trans ?_
      cases p.user <;> rfl
  refine (Queue.map_notifyErrorlevel fun _ _ => rfl).trans ?_
  exact (Keyed.map_modify (c := Job.jobid) (f := Job.done r) fun _ _ _ => rfl).trans hfree

/-- `job_finished` of a job that is there. -/
theorem jobFinished_ok {r : Result} (hbusy : 0 ≤ s.busySlots) (hp : s.findjob jobid = some p) :
    ∃ s', s.jobFinished e r jobid = .ok s' := by
  have hsome : (((s.onQueue fun q => q.finish r p).modJob jobid (finishInfo e r)).findjob
      jobid).isSome := by
    refine Keyed.isSome_lookup.2 ?_
    have hids : ((s.onQueue fun q => q.finish r p).modJob jobid (finishInfo e r)).activeJobs.map
        Job.jobid = s.activeJobs.map Job.jobid :=
      (Keyed.map_modify (c := Job.jobid) (f := finishInfo e r) fun _ _ _ => rfl).trans ids_finish
    rw [hids]
    exact Keyed.isSome_lookup.1 (by rw [← Queue.findjob, hp]; rfl)
  obtain ⟨p', hp'⟩ := Option.isSome_iff_exists.1 hsome
  simp only [jobFinished, if_neg (not_lt.2 hbusy), hp, hp']
  exact ⟨_, rfl⟩

theorem findjob_finish {v : View} {p' : Job} {r : Result} {max : ℕ} (hids : v.Ids)
    (hg : (Act.finish r p p' max).Guard v) :
    ((Act.finish r p p' max).apply v).findjob p.jobid = none := by
  have hperm := Act.ids_perm hids hg
  simp only [Act.old, Act.new, Option.toList_some, Option.toList_none, List.map_cons,
    List.map_nil, List.nil_append, List.singleton_append] at hperm
  have hnot := (List.nodup_cons.1 (hperm.nodup_iff.2 hids.nodup)).1
  exact Keyed.lookup_eq_none.2 fun x hx heq => hnot (heq ▸ List.mem_map_of_mem hx)

/-- The loop of `check_notify_list` for a job that is over.  The job may be destroyed after the last
waiter has been told: before that, one that has not been told is in the list. -/
theorem notifyAll_ok {l : List (ℤ × ℤ)} (hact : s.findjob jobid = none)
    (hfin : (s.findFinishedJob jobid).isSome)
    (hlen : l.length ≤ s.notifies.countP fun n => n.2 = jobid) :
    ∃ s', l.foldlM (fun s n => s.notifyWaiter jobid n.1) s = .ok s' := by
  induction l generalizing s with
  | nil => exact ⟨s, rfl⟩
  | cons n l ih =>
    rw [List.length_cons] at hlen
    obtain ⟨j, hj⟩ := Option.isSome_iff_exists.1 hfin
    have hget : s.getJob jobid = some j := by rw [Queue.getJob, hact, hj]; rfl
    set s₁ := (s.send n.1 (.waitjobOk j.result.errorlevel)).sRemoveNotification n.1 with hs₁
    -- one entry of the socket is removed, which need not be the one that is visited
    have hcount : l.length ≤ s₁.notifies.countP fun n => n.2 = jobid := by
      have hle := countP_le_eraseP (fun m : ℤ × ℤ => m.1 = n.1) (fun m : ℤ × ℤ => m.2 = jobid)
        s.notifies
      show l.length ≤ (s.notifies.eraseP fun m => m.1 = n.1).countP _
      omega
    suffices hstep : ∃ s₂, s.notifyWaiter jobid n.1 = .ok s₂ ∧
        ∃ s', l.foldlM (fun s n => s.notifyWaiter jobid n.1) s₂ = .ok s' by
      obtain ⟨s₂, h₂, s', h'⟩ := hstep
      exact ⟨s', by rw [List.foldlM_cons, Except.bind_eq_ok]; exact ⟨s₂, h₂, h'⟩⟩
    simp only [notifyWaiter, hget, ← hs₁]
    split_ifs with hover hlast
    · -- the last waiter
      have hnil : l = [] := by
        have hzero : s₁.notifies.countP (fun n => n.2 = jobid) = 0 := by
          rw [List.countP_eq_zero]
          exact fun m hm hmj => by simpa [hmj] using List.any_eq_false.1 hlast.1 m hm
        exact List.length_eq_zero_iff.1 (by omega)
      subst hnil
      have hj₁ : s₁.findFinishedJob jobid = some j := hj
      rw [destroyFinishedJob, hj₁]
      exact ⟨_, rfl, _, rfl⟩
    · exact ⟨s₁, rfl, ih (s := s₁) hact hfin hcount⟩
    · exact ⟨s, rfl, ih hact hfin (by omega)⟩

/-- `check_notify_list` of a job that has just been finished. -/
theorem checkNotifyList_ok {r : Result} (hids : s.view.Ids) (h : s.jobFinished e r jobid = .ok s') :
    ∃ s'', s'.checkNotifyList jobid = .ok s'' := by
  obtain ⟨p, p', hp, -, hg, hv⟩ := jobFinished_spec h
  obtain rfl := findjob_jobid hp
  refine notifyAll_ok ?_ ?_ (by rw [List.countP_eq_length_filter])
  · have hgone : s'.view.findjob p.jobid = none := by
      rw [hv]
      exact findjob_finish hids hg
    rw [view_findjob] at hgone
    exact Option.map_eq_none_iff.1 hgone
  · have hfin : (s'.view.findFinishedJob p.jobid).isSome := by
      rw [hv]
      refine Keyed.isSome_lookup.2 ?_
      have hid : p'.strip.jobid = p.jobid := Keyed.key_of_lookup hg.2
      rw [← hid]
      exact List.mem_map_of_mem (List.mem_append_right _ (List.mem_singleton_self _))
    have hstrip : s'.view.findFinishedJob p.jobid = (s'.findFinishedJob p.jobid).map Job.strip :=
      Queue.strip_findFinishedJob
    rwa [hstrip, Option.isSome_map] at hfin

theorem sweepJob_ok (hcov : s.view.Covered) : ∃ s', s.sweepJob e jobid = .ok s' := by
  rw [sweepJob]
  cases hp : s.findjob jobid with
  | none => exact ⟨s, rfl⟩
  | some p =>
    dsimp only
    split_ifs
    · obtain ⟨s₁, h₁⟩ := jobFinished_ok (e := e) (r := deadResult e p) hcov.busySlots hp
      obtain ⟨s₂, h₂⟩ := checkNotifyList_ok hcov.ids h₁
      exact ⟨s₂, Except.bind_eq_ok.2 ⟨s₁, h₁, h₂⟩⟩
    · exact ⟨s, rfl⟩

theorem sweepAll_ok {l : List ℤ} (hcov : s.view.Covered) :
    ∃ s', l.foldlM (fun s jobid => s.sweepJob e jobid) s = .ok s' := by
  induction l generalizing s with
  | nil => exact ⟨s, rfl⟩
  | cons jobid l ih =>
    obtain ⟨s₁, h₁⟩ : ∃ s₁, s.sweepJob e jobid = .ok s₁ := sweepJob_ok hcov
    obtain ⟨hcov₁, -⟩ := hcov.sweep (@sweepJob_moves _ _ _ _ (fun _ => False) h₁)
    obtain ⟨s', hs'⟩ := ih hcov₁
    exact ⟨s', by rw [List.foldlM_cons, Except.bind_eq_ok]; exact ⟨s₁, h₁, hs'⟩⟩

/-- A swept job is not dead any more. -/
theorem sweepJob_dead {l : List ℤ} (hids : s.view.Ids)
    (hdead : ∀ p ∈ s.view.activeJobs, isDead e p → p.jobid ∈ jobid :: l)
    (h : s.sweepJob e jobid = .ok s') : ∀ p ∈ s'.view.activeJobs, isDead e p → p.jobid ∈ l := by
  rw [sweepJob] at h
  cases hp : s.findjob jobid with
  | none =>
    simp only [hp, Except.ok.injEq] at h
    subst h
    intro p' hp' hd
    refine (List.mem_cons.1 (hdead p' hp' hd)).resolve_left fun heq => ?_
    obtain ⟨p, hmem, rfl⟩ := List.mem_map.1 hp'
    exact Keyed.lookup_eq_none.1 hp p hmem heq
  | some p₀ =>
    simp only [hp] at h
    obtain rfl := findjob_jobid hp
    split_ifs at h with hd₀
    · rw [Except.bind_eq_ok] at h
      obtain ⟨s₁, h₁, h⟩ := h
      obtain ⟨p₁, p₂, hp₁, -, hg, hv⟩ := jobFinished_spec h₁
      obtain rfl : p₀ = p₁ := Option.some.inj (hp.symm.trans hp₁)
      -- the job is gone, and nothing happens to the state of the others
      have hkept : ∀ p ∈ s₁.view.activeJobs, isDead e p → p.jobid ∈ p₀.jobid :: l := by
        rw [hv]
        exact Act.forall_apply (fun _ => rfl) hids hg hdead fun p hnew => by cases hnew
      have hgone : s₁.view.findjob p₀.jobid = none := by
        rw [hv]
        exact findjob_finish hids hg
      have hnotify : s'.view.activeJobs = s₁.view.activeJobs :=
        (checkNotifyList_moves (fun a _ => a.ofNotify) (fun _ _ ha => ha) h).invariant
          (I := fun w => w.activeJobs = s₁.view.activeJobs) rfl fun {w a} hI ha _ => by
            cases a with
            | forget l => exact hI
            | _ => exact ha.elim
      rw [hnotify]
      intro p hp' hd
      exact (List.mem_cons.1 (hkept p hp' hd)).resolve_left (Keyed.lookup_eq_none.1 hgone p hp')
    · cases h
      intro p' hp' hd
      refine (List.mem_cons.1 (hdead p' hp' hd)).resolve_left fun heq => hd₀ ?_
      obtain ⟨p, hmem, rfl⟩ := List.mem_map.1 hp'
      obtain rfl : p = p₀ :=
        Option.some.inj ((findjob_of_mem hids hmem).symm.trans ((congrArg s.findjob heq).trans hp))
      exact hd

theorem sweepAll_dead {l : List ℤ} (hids : s.view.Ids)
    (hdead : ∀ p ∈ s.view.activeJobs, isDead e p → p.jobid ∈ l)
    (h : l.foldlM (fun s jobid => s.sweepJob e jobid) s = .ok s') :
    ∀ p ∈ s'.view.activeJobs, ¬isDead e p := by
  induction l generalizing s with
  | nil =>
    cases h
    exact fun p hp hd => List.not_mem_nil (hdead p hp hd)
  | cons jobid l ih =>
    rw [List.foldlM_cons, Except.bind_eq_ok] at h
    obtain ⟨s₁, h₁, h⟩ := h
    have hmoves := @sweepJob_moves _ _ _ _ (fun _ => False) h₁
    exact ih (hmoves.ids hids) (sweepJob_dead hids hdead h₁) h

/-- **The sweep returns, and leaves no job whose process has died.** -/
theorem sweepDead_ok (hcov : s.view.Covered) :
    ∃ s', s.sweepDead e = .ok s' ∧ ∀ p ∈ s'.view.activeJobs, ¬isDead e p := by
  obtain ⟨s', hs'⟩ := sweepAll_ok (e := e) (l := (s.activeJobs.map Job.jobid).reverse) hcov
  refine ⟨s', hs', sweepAll_dead hcov.ids (fun p' hp' _ => ?_) hs'⟩
  obtain ⟨p, hp, rfl⟩ := List.mem_map.1 hp'
  have hid : p.jobid ∈ s.activeJobs.map Job.jobid := List.mem_map_of_mem hp
  exact List.mem_reverse.2 hid

theorem recount_ok (h : ∀ p ∈ s.view.activeJobs, p.user ≠ none) : ∃ s', s.recount = .ok s' := by
  have hno : ¬s.activeJobs.any fun p => p.user = none := by
    simp only [List.any_eq_true, decide_eq_true_eq, not_exists, not_and]
    exact fun p hp => h p.strip (List.mem_map_of_mem (f := Job.strip) hp)
  rw [recount, if_neg hno]
  dsimp only
  split_ifs
  · exact ⟨_, rfl⟩
  · exact ⟨_, rfl⟩

/-- **`s_update_slots_usage` returns** exactly if every job has an owner or is swept. -/
theorem sUpdateSlotsUsage_ok_iff (hcov : s.view.Covered) :
    (∃ s', s.sUpdateSlotsUsage e = .ok s') ↔ s.view.orphans e = 0 := by
  constructor
  · rintro ⟨s', h⟩
    obtain ⟨v₁, h₁, hg, -⟩ := sUpdateSlotsUsage_usage hcov.ids h
    rw [← (hcov.sweep h₁).2, View.orphans_eq_zero]
    exact fun p hp hnone => absurd hnone (hg p hp)
  · intro horph
    rw [sUpdateSlotsUsage]
    have htime := sCheckTimeout_moves (e := e) hcov.ids
    revert htime
    generalize s.sCheckTimeout e = r
    obtain ⟨s₀, timeout⟩ := r
    intro htime
    obtain ⟨hcov₀, horph₀⟩ := hcov.sweep htime
    obtain ⟨s₁, h₁, hdead⟩ := sweepDead_ok (e := e) hcov₀
    obtain ⟨hcov₁, horph₁⟩ := hcov₀.sweep (sweepDead_moves (fun _ => False) h₁)
    have howner : ∀ p ∈ s₁.view.activeJobs, p.user ≠ none := by
      have hzero : s₁.view.orphans e = 0 := (horph₁.trans horph₀).trans horph
      exact fun p hp hno => hdead p hp (View.orphans_eq_zero.1 hzero p hp hno)
    obtain ⟨s₂, h₂⟩ := recount_ok howner
    have hids₂ : s₂.view.Ids := by
      obtain ⟨hg, hv⟩ := recount_spec h₂
      rw [hv]
      exact Act.ids_apply hcov₁.ids hg
    obtain ⟨s₃, h₃⟩ := nextRunJob_ok (e := e) hids₂
    simp only [Except.bind_eq_ok]
    cases timeout with
    | true => exact ⟨s₃, s₁, h₁, s₂, h₂, h₃⟩
    | false => exact ⟨s₂, s₁, h₁, s₂, h₂, rfl⟩

end Spool

end TaskSpooler
