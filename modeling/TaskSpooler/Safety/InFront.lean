import TaskSpooler.Ops.Leader
import TaskSpooler.Safety.Suspension

/-!
# Requests that keep a running job in front

What a request may find in the queue, so that after it the first job runs or no slots are busy.

* `headed_suspendUser` : the first job is not among those that are paused, or all that run are.
* `headed_resumeUser` : the first job runs, or it is one of those that are started.
* `headed_contJob`, `headed_requeueJob`, `headed_holdJob`, `headed_sorted` : requests about one job.
-/

namespace TaskSpooler

/-- The operations of `s_suspend_user`, apart from the recount. -/
def Op.suspends (u : ℕ) (o : Op) (_ : Spool) : Prop :=
  match o with
  | pause p => p.user = some u ∧ p.state = .running ∧ p.pid ≠ 0
  | send _ _ | users _ _ _ => True
  | _ => False

namespace Spool

variable {e : Env} {s s' : Spool} {p x : Job} {u user : ℕ} {us : List ℕ} {socket jobid : ℤ}

/-! ### Suspending users -/

/-- The job has a process, and the request is about its owner. -/
def Concerns (s : Spool) (user : ℕ) (jobid : ℤ) (p : Job) : Prop :=
  p.pid ≠ 0 ∧ ∃ u, p.user = some u ∧ s.Targets user jobid u

/-- The first job is one that runs on, or every job that runs is paused or over or takes no slots. -/
def SuspendsInFront (e : Env) (s : Spool) (user : ℕ) (jobid : ℤ) : Prop :=
  (∃ p l, s.activeJobs = p :: l ∧ p.state = .running ∧ stays e p = true ∧ ¬s.Concerns user jobid p) ∨
    ∀ p ∈ s.activeJobs, p.state = .running →
      timedOut e p = false ∧ (isDead e p = true ∨ p.numSlots ≤ 0 ∨ s.Concerns user jobid p)

/-- The first job runs on while another user is suspended. -/
theorem LedBy.sSuspendUser (h : s.LedBy p) (hids : s.view.Ids) (hst : p.state = .running)
    (hstay : stays e p = true) (hnot : ¬(p.user = some u ∧ p.pid ≠ 0))
    (hs : s.sSuspendUser e socket u = .ok s') : s'.LedBy p := by
  obtain ⟨s₁, hops, husage⟩ : ∃ s₁, Ops e (Op.suspends u) s s₁ ∧ s₁.sUpdateSlotsUsage e = .ok s' :=
    sSuspendUser_cases hids (fun _ _ => trivial) (fun _ _ _ _ => trivial)
      (fun _ _ hu hrun hpid => ⟨hu, hrun, hpid⟩) hs
  have hled : s₁.LedBy p := h.ops hids hops fun o sp ho hids hpre hled => by
    cases o with
    | pause q =>
      -- only jobs of the user with a process are paused, and the first one is none
      intro hid
      have hown := hled.own hids (Keyed.mem_of_lookup hpre.1) hid
      exact hnot ⟨(Job.user_of_own hown).symm.trans ho.1, (Job.pid_of_own hown).symm.trans_ne ho.2.2⟩
    | send | users => trivial
    | _ => exact ho.elim
  exact hled.usage (hops.ids hids) hst hstay husage

/-- Every running job has died or takes no slots, or belongs to one of the users and has a process. -/
def Drains (e : Env) (us : List ℕ) (s : Spool) : Prop :=
  ∀ p ∈ s.activeJobs, p.state = .running → timedOut e p = false ∧
    (isDead e p = true ∨ p.numSlots ≤ 0 ∨ p.pid ≠ 0 ∧ ∃ u ∈ us, p.user = some u)

/-- `s_suspend_user` before the recount. -/
theorem sSuspendUser_done (hids : s.view.Ids) (h : s.sSuspendUser e socket u = .ok s') :
    ∃ s₁, RanIn s s₁ ∧ s₁.view.Ids ∧ s₁.sUpdateSlotsUsage e = .ok s' ∧
      ∀ p ∈ s₁.activeJobs, p.user = some u → p.state = .running → p.pid = 0 := by
  rw [sSuspendUser] at h
  set s₀ := s.modUser (some u) fun u => { u with maxSlots := -(u.maxSlots.natAbs : ℤ), locked := true }
  have hlimit : Ops e (fun o _ => o.StartsNone) s s₀ := modUser_ops _ hids (fun _ _ _ => trivial)
    fun x => ⟨⟨rfl, rfl, rfl, rfl⟩, by rw [Int.natAbs_neg, Int.natAbs_natCast]⟩
  have hpause : Ops e (fun o _ => o.StartsNone) s₀ ((s₀.activeJobs.map Job.jobid).foldl
      (fun s jobid => s.suspendJob e socket u jobid) s₀) :=
    suspendAll_ops (fun _ _ => trivial) (fun _ _ _ _ _ => trivial) _
  have hdone := suspendAll_done (e := e) socket (l := s₀.activeJobs.map Job.jobid) (u := u)
    (hlimit.ids hids) (d := []) fun _ _ h => absurd h List.not_mem_nil
  set s₁ := (s₀.activeJobs.map Job.jobid).foldl (fun s jobid => s.suspendJob e socket u jobid) s₀
  have hops : ∀ text, Ops e (fun o _ => o.StartsNone) s (s₁.sendLine socket text) := fun _ =>
    (hlimit.trans hpause).trans (sendLine_ops fun _ => trivial)
  refine ⟨_, .ops hids (hops _), (hops _).ids hids, h, fun p hp hu hrun => ?_⟩
  have hran : RanIn s₀ s₁ := .ops (hlimit.ids hids) hpause
  -- what runs now ran before, so the loop has come by it
  obtain ⟨y, hy, hown⟩ := hran p hp hrun
  have hmem : p.jobid ∈ s₀.activeJobs.map Job.jobid := by
    rw [← Job.jobid_of_own hown]
    exact List.mem_map_of_mem hy
  exact hdone p.strip (List.mem_map_of_mem hp) (.inl hmem) hu hrun

theorem Drains.of_ranIn (h : Drains e us s) (hran : RanIn s s') : Drains e us s' := by
  intro x hx hrun
  obtain ⟨y, hy, hown⟩ := hran x hx hrun
  obtain ⟨hlate, hend⟩ := h y hy ((Job.state_of_own hown).trans hrun)
  rw [timedOut_own hown] at hlate
  rw [isDead_own hown, Job.numSlots_of_own hown, Job.pid_of_own hown, Job.user_of_own hown] at hend
  exact ⟨hlate, hend⟩

theorem not_timedOut_of (h : ∀ p ∈ s.activeJobs, p.state = .running → timedOut e p = false) :
    ∀ p ∈ s.activeJobs, timedOut e p = false := by
  intro p hp
  by_contra hto
  rw [Bool.not_eq_false] at hto
  rw [h p hp (running_of_timedOut hto)] at hto
  cases hto

/-- One more user has been suspended. -/
theorem Drains.step (h : Drains e (u :: us) s) (hids : s.view.Ids)
    (hs : s.sSuspendUser e socket u = .ok s') :
    s'.view.Ids ∧ s'.busySlots = Queue.runningSlots s'.activeJobs ∧ ∀ p ∈ s'.activeJobs,
      p.state = .running → timedOut e p = false ∧
        (p.numSlots ≤ 0 ∨ p.pid ≠ 0 ∧ ∃ u ∈ us, p.user = some u) := by
  obtain ⟨s₁, hran, hids₁, husage, hdone⟩ := sSuspendUser_done hids hs
  have hpaused := h.of_ranIn hran
  have hnone := not_timedOut_of fun p hp hrun => (hpaused p hp hrun).1
  refine ⟨(sUpdateSlotsUsage_ops hids₁ husage).ids hids₁, busySlots_usage hids₁ hnone husage,
    fun x hx hrun => ?_⟩
  obtain ⟨y, hy, hown⟩ := usage_ranIn hids₁ hnone husage x hx hrun
  obtain ⟨q, hq, hstay, hplain⟩ := exists_stays hids₁ hnone husage hx
  have hid := congrArg Job.jobid hplain
  obtain rfl := Keyed.eq_of_key (nodup_of_ids hids₁) hq hy (hid.trans (Job.jobid_of_own hown).symm)
  have hst := (Job.state_of_own hown).trans hrun
  obtain ⟨hlate, hend⟩ := hpaused q hy hst
  rw [(stays_iff.1 hstay).2] at hend
  rw [← timedOut_own hown, ← Job.numSlots_of_own hown, ← Job.pid_of_own hown, ← Job.user_of_own hown]
  obtain hzero | ⟨hpid, w, hw, huser⟩ := hend.resolve_left Bool.false_ne_true
  · exact ⟨hlate, .inl hzero⟩
  · refine ⟨hlate, .inr ⟨hpid, w, ?_, huser⟩⟩
    -- a job of `u` with a process has just been paused
    obtain rfl | hw := List.mem_cons.1 hw
    · exact absurd (hdone q hy huser hst) hpid
    · exact hw

/-- **When all users have been suspended no slots are busy.** -/
theorem Drains.all (h : Drains e us s) (hids : s.view.Ids) (hne : us ≠ [])
    (hs : us.foldlM (fun s u => s.sSuspendUser e socket u) s = .ok s') : s'.busySlots ≤ 0 := by
  induction us generalizing s with
  | nil => exact absurd rfl hne
  | cons u us ih =>
    rw [List.foldlM_cons, Except.bind_eq_ok] at hs
    obtain ⟨s₁, h₁, hs⟩ := hs
    obtain ⟨hids₁, hbusy, hleft⟩ := h.step hids h₁
    -- the recount behind the last user counts what is left
    cases us with
    | nil =>
      cases hs
      refine hbusy.trans_le (runningSlots_nonpos fun p hp hrun => ?_)
      obtain hzero | ⟨-, w, hw, -⟩ := (hleft p hp hrun).2
      · exact hzero
      · exact absurd hw List.not_mem_nil
    | cons w us =>
      refine ih (fun p hp hrun => ?_) hids₁ (List.cons_ne_nil w us) hs
      obtain ⟨hlate, hend⟩ := hleft p hp hrun
      exact ⟨hlate, .inr hend⟩

/-- The users that `SUSPEND_USER` suspends, one after the other. -/
theorem suspendUser_cases (h : s.suspendUser e socket user jobid = .ok s') :
    ∃ (us : List ℕ) (s₁ : Spool), (∀ u, s.Targets user jobid u ↔ u ∈ us) ∧
      us.foldlM (fun s u => s.sSuspendUser e socket u) s = .ok s₁ ∧ s'.view = s₁.view := by
  rw [suspendUser] at h
  unfold Targets
  cases ht : s.target user jobid with
  | all =>
    simp only [ht, Except.bind_eq_ok] at h
    obtain ⟨s₁, h₁, h⟩ := h
    cases h
    refine ⟨_, s₁, fun u => ?_, h₁, view_sUserStatusAll⟩
    rw [List.mem_range'_1]
    dsimp only
    omega
  | one w =>
    simp only [ht, Except.bind_eq_ok] at h
    obtain ⟨s₁, h₁, h⟩ := h
    cases h
    refine ⟨[w], s₁, fun u => List.mem_singleton.symm, ?_, rfl⟩
    rw [List.foldlM_cons, h₁]
    rfl
  | missing => simp [ht] at h

/-- **`SUSPEND_USER`.** -/
theorem headed_suspendUser (hids : s.view.Ids) (hs : s.Headed)
    (ho : SuspendsInFront e s user jobid) (h : s.suspendUser e socket user jobid = .ok s') :
    s'.Headed := by
  obtain ⟨us, s₁, hus, h₁, hview⟩ := suspendUser_cases h
  refine headed_of_view hview ?_
  obtain ⟨p, l, hl, hst, hstay, hnot⟩ | hall := ho
  · -- each of the users leaves the first job, which is not his
    have hled : s₁.view.Ids ∧ s₁.LedBy p := Except.foldlM_induction
      (R := fun s s' : Spool => s.view.Ids ∧ s.LedBy p → s'.view.Ids ∧ s'.LedBy p) (fun _ h => h)
      (fun h h' hs => h' (h hs)) (fun {sp sp' u} hu hrun hs => ?_) h₁ ⟨hids, ledBy_head hl⟩
    · exact .inr ⟨p.jobid, hst ▸ hled.2.front⟩
    · have hops : Ops e (Op.ofAnswer e socket user (.suspendUser jobid)) sp sp' :=
        sSuspendUser_ops hs.1 hrun
      refine ⟨hops.ids hs.1, hs.2.sSuspendUser hs.1 hst hstay (fun hown => ?_) hrun⟩
      exact hnot ⟨hown.2, u, hown.1, (hus u).2 hu⟩
  · cases us with
    | nil =>
      cases h₁
      exact hs
    | cons u us =>
      refine .inl (Drains.all (fun p hp hrun => ?_) hids (List.cons_ne_nil u us) h₁)
      obtain ⟨hlate, hend⟩ := hall p hp hrun
      refine ⟨hlate, hend.imp_right (Or.imp_right ?_)⟩
      exact fun ⟨hpid, w, huser, hw⟩ => ⟨hpid, w, (hus w).1 hw, huser⟩

/-! ### Resuming users -/

/-- The first job runs, or it is started, or no job is. -/
def ResumesInFront (s : Spool) (user : ℕ) (jobid : ℤ) : Prop :=
  RunsFirst s.activeJobs ∨ (∀ p ∈ s.activeJobs, p.state = .pause → ¬s.Concerns user jobid p) ∨
    ∃ p l, s.activeJobs = p :: l ∧ p.state = .pause ∧ s.Concerns user jobid p

/-- The body of the loop of `s_resume_user`. -/
def resumeJob (e : Env) (u : ℕ) (s : Spool) (jobid : ℤ) : Spool :=
  match s.findjob jobid with
  | none => s
  | some p => if p.user = some u ∧ p.state = .pause ∧ p.pid ≠ 0 then s.configRunning e p else s

/-- The first job runs, or it is this one. -/
def InTurn (s : Spool) (p : Job) : Prop := RunsFirst s.activeJobs ∨ s.LedBy p

theorem runsFirst_ops (h : RunsFirst s.activeJobs) (hids : s.view.Ids)
    (hops : Ops e (fun o _ => ∀ k, o.Spares k) s s') : RunsFirst s'.activeJobs := by
  obtain ⟨k, hk⟩ := h
  exact ⟨k, hops.front hids hk fun _ _ ho _ _ => ho k⟩

theorem resumeJob_ops : Ops e (fun o _ => ∃ p, o = .start p) s (s.resumeJob e u jobid) := by
  rw [resumeJob]
  cases hp : s.findjob jobid with
  | none => exact .refl
  | some p =>
    dsimp only
    obtain rfl := findjob_jobid hp
    split_ifs with hown
    · exact .single (.start p) ⟨hp, hown.2⟩ ⟨p, rfl⟩ rfl
    · exact .refl

theorem resumeAll_ops {l : List ℤ} :
    Ops e (fun o _ => ∃ p, o = .start p) s (l.foldl (fun s jobid => s.resumeJob e u jobid) s) :=
  Except.foldl_induction (R := fun s s' : Spool => Ops e (fun o _ => ∃ p, o = .start p) s s')
    (fun _ => .refl) (fun h h' => h.trans h') s fun _ => resumeJob_ops

/-- The jobs that are started one after the other. -/
theorem InTurn.starts (h : s.InTurn p) (hids : s.view.Ids)
    (hops : Ops e (fun o _ => ∃ p, o = .start p) s s') : s'.InTurn p := by
  refine (hops.invariant (I := fun sp => sp.view.Ids ∧ sp.InTurn p) ⟨hids, h⟩
    fun {sp sp' o} hI ho hpre hrun => ⟨(Op.moves hI.1 hpre hrun).ids hI.1, ?_⟩).2
  obtain ⟨x, rfl⟩ := ho
  obtain ⟨hids, ⟨k, hk⟩ | hled⟩ := hI
  · exact .inl ⟨k, Op.front_spared hids hpre hrun trivial hk⟩
  · by_cases hid : x.jobid = p.jobid
    · exact .inl (Op.headed_start hids hpre hrun (.inr ⟨p.state, hid ▸ hled.front⟩))
    · exact .inr (hled.run hids hpre hrun hid)

theorem LedBy.find (h : s.LedBy p) (hids : s.view.Ids) :
    ∃ x, s.findjob p.jobid = some x ∧ x.own = p.own := by
  obtain ⟨x, hx, hown⟩ := List.mem_map.1 h.mem
  exact ⟨x, Job.jobid_of_own hown ▸ findjob_of_mem hids hx, hown⟩

/-- The turn of the first job. -/
theorem InTurn.resumeJob (h : s.InTurn p) (hids : s.view.Ids) (hst : p.state = .pause)
    (hpid : p.pid ≠ 0) (hu : p.user = some u) : RunsFirst (s.resumeJob e u p.jobid).activeJobs := by
  obtain h | h := h
  · refine runsFirst_ops h hids (resumeJob_ops.mono fun o _ ho k => ?_)
    obtain ⟨x, rfl⟩ := ho
    trivial
  · obtain ⟨x, hx, hown⟩ := h.find hids
    have hid := Job.jobid_of_own hown
    have hcond : x.user = some u ∧ x.state = .pause ∧ x.pid ≠ 0 :=
      ⟨(Job.user_of_own hown).trans hu, (Job.state_of_own hown).trans hst,
        (Job.pid_of_own hown).trans_ne hpid⟩
    rw [Spool.resumeJob, hx]
    dsimp only
    rw [if_pos hcond]
    exact Op.headed_start (e := e) hids (p := x) ⟨hid.symm ▸ hx, hcond.2⟩ rfl
      (.inr ⟨p.state, hid ▸ h.front⟩)

theorem InTurn.resumeAll {l : List ℤ} (h : s.InTurn p) (hids : s.view.Ids) (hst : p.state = .pause)
    (hpid : p.pid ≠ 0) (hu : p.user = some u) (hmem : p.jobid ∈ l) :
    RunsFirst (l.foldl (fun s jobid => s.resumeJob e u jobid) s).activeJobs := by
  induction l generalizing s with
  | nil => exact absurd hmem List.not_mem_nil
  | cons k l ih =>
    rw [List.foldl_cons]
    have hids₁ : (s.resumeJob e u k).view.Ids := resumeJob_ops.ids hids
    obtain rfl | hmem := List.mem_cons.1 hmem
    · refine runsFirst_ops (h.resumeJob hids hst hpid hu) hids₁ (resumeAll_ops.mono fun o _ ho k => ?_)
      obtain ⟨x, rfl⟩ := ho
      trivial
    · exact ih (h.starts hids resumeJob_ops) hids₁ hmem

/-- `s_resume_user` starts the jobs after it has written the limit of the user. -/
theorem sResumeUser_spec (e : Env) (socket : ℤ) (u : ℕ) (hids : s.view.Ids) : ∃ (s₀ : Spool) (text : String),
    s₀.activeJobs = s.activeJobs ∧ s₀.busySlots = s.busySlots ∧ s₀.view.Ids ∧
    s.sResumeUser e socket u = ((s₀.activeJobs.map Job.jobid).foldl
      (fun s jobid => s.resumeJob e u jobid) s₀).sendLine socket text := by
  let s₀ := s.modUser (some u) fun u => { u with maxSlots := u.maxSlots.natAbs, locked := false }
  have hlimit : Ops e (fun _ _ => True) s s₀ :=
    modUser_ops _ hids (fun _ _ _ => trivial) fun x => ⟨⟨rfl, rfl, rfl, rfl⟩, Int.natAbs_natCast _⟩
  exact ⟨s₀, _, rfl, rfl, hlimit.ids hids, rfl⟩

theorem sResumeUser_spares (hids : s.view.Ids) :
    Ops e (fun o _ => ∀ k, o.Spares k) s (s.sResumeUser e socket u) :=
  sResumeUser_ops hids (fun _ _ _ => trivial) (fun _ _ _ _ _ => trivial) fun _ _ _ => trivial

theorem InTurn.sResumeUser (h : s.InTurn p) (hids : s.view.Ids) :
    (s.sResumeUser e socket u).InTurn p := by
  obtain ⟨s₀, text, hact, -, hids₀, heq⟩ := sResumeUser_spec e socket u hids
  have h₀ : s₀.InTurn p := by
    rw [InTurn, LedBy, hact]
    exact h
  have hend := h₀.starts hids₀ (resumeAll_ops (e := e) (u := u) (l := s₀.activeJobs.map Job.jobid))
  rw [heq]
  exact hend

/-- A job that runs first stays first while users are resumed. -/
theorem runsFirst_resumeAll (h : RunsFirst s.activeJobs) (hids : s.view.Ids) :
    RunsFirst (us.foldl (fun s u => s.sResumeUser e socket u) s).activeJobs :=
  (Except.foldl_induction (R := fun s s' : Spool => s.view.Ids ∧ RunsFirst s.activeJobs →
      s'.view.Ids ∧ RunsFirst s'.activeJobs) (fun _ h => h) (fun h h' hs => h' (h hs)) s
    (fun _ hs => ⟨(sResumeUser_spares hs.1).ids hs.1,
      runsFirst_ops hs.2 hs.1 (sResumeUser_spares hs.1)⟩) ⟨hids, h⟩).2

/-- The first job has been started when its owner has been resumed. -/
theorem InTurn.resumed (h : s.InTurn p) (hids : s.view.Ids) (hst : p.state = .pause)
    (hpid : p.pid ≠ 0) (hu : p.user = some u) : RunsFirst (s.sResumeUser e socket u).activeJobs := by
  obtain ⟨s₀, text, hact, -, hids₀, heq⟩ := sResumeUser_spec e socket u hids
  obtain hrun | hled := h
  · exact runsFirst_ops hrun hids (sResumeUser_spares hids)
  · rw [heq]
    have hled₀ : s₀.LedBy p := hled.of_activeJobs hact
    obtain ⟨x, hx, hown⟩ := List.mem_map.1 hled₀.mem
    have hmem : p.jobid ∈ s₀.activeJobs.map Job.jobid :=
      Job.jobid_of_own hown ▸ List.mem_map_of_mem hx
    exact InTurn.resumeAll (.inr hled₀) hids₀ hst hpid hu hmem

theorem InTurn.resumedAll (h : s.InTurn p) (hids : s.view.Ids) (hst : p.state = .pause)
    (hpid : p.pid ≠ 0) (hu : p.user = some u) (hmem : u ∈ us) :
    RunsFirst (us.foldl (fun s u => s.sResumeUser e socket u) s).activeJobs := by
  induction us generalizing s with
  | nil => exact absurd hmem List.not_mem_nil
  | cons w us ih =>
    rw [List.foldl_cons]
    have hids₁ : (s.sResumeUser e socket w).view.Ids := (sResumeUser_spares hids).ids hids
    obtain rfl | hmem := List.mem_cons.1 hmem
    · exact runsFirst_resumeAll (h.resumed hids hst hpid hu) hids₁
    · exact ih (h.sResumeUser hids) hids₁ hmem

/-- Nobody is started. -/
theorem resumeAll_idle {l : List ℤ}
    (h : ∀ p ∈ s.activeJobs, p.state = .pause → ¬(p.user = some u ∧ p.pid ≠ 0)) :
    l.foldl (fun s jobid => s.resumeJob e u jobid) s = s := by
  induction l with
  | nil => rfl
  | cons k l ih =>
    have hsame : s.resumeJob e u k = s := by
      rw [resumeJob]
      cases hp : s.findjob k with
      | none => rfl
      | some p => exact if_neg fun hown => h p (Keyed.mem_of_lookup hp) hown.2.1 ⟨hown.1, hown.2.2⟩
    rw [List.foldl_cons, hsame]
    exact ih

theorem resumedAll_idle (e : Env) (socket : ℤ) (hids : s.view.Ids)
    (h : ∀ u ∈ us, ∀ p ∈ s.activeJobs, p.state = .pause → ¬(p.user = some u ∧ p.pid ≠ 0)) :
    (us.foldl (fun s u => s.sResumeUser e socket u) s).activeJobs = s.activeJobs ∧
      (us.foldl (fun s u => s.sResumeUser e socket u) s).busySlots = s.busySlots := by
  induction us generalizing s with
  | nil => exact ⟨rfl, rfl⟩
  | cons u us ih =>
    obtain ⟨s₀, text, hact, hbusy, -, heq⟩ :=
      sResumeUser_spec e socket u hids
    have hidle := resumeAll_idle (e := e) (s := s₀) (u := u) (l := s₀.activeJobs.map Job.jobid)
      (hact ▸ h u List.mem_cons_self)
    have hact₁ : (s.sResumeUser e socket u).activeJobs = s.activeJobs := by
      rw [heq, hidle]
      exact hact
    have hbusy₁ : (s.sResumeUser e socket u).busySlots = s.busySlots := by
      rw [heq, hidle]
      exact hbusy
    rw [List.foldl_cons]
    obtain ⟨hl, hb⟩ := ih ((sResumeUser_spares hids).ids hids)
      (hact₁.symm ▸ fun w hw => h w (List.mem_cons_of_mem _ hw))
    exact ⟨hl.trans hact₁, hb.trans hbusy₁⟩

/-- The users that `RESUME_USER` resumes, one after the other. -/
theorem resumeUser_cases (h : s.resumeUser e socket user jobid = .ok s') :
    ∃ us : List ℕ, (∀ u, s.Targets user jobid u ↔ u ∈ us) ∧
      s'.view = (us.foldl (fun s u => s.sResumeUser e socket u) s).view := by
  rw [resumeUser] at h
  unfold Targets
  cases ht : s.target user jobid with
  | all =>
    simp only [ht, Except.ok.injEq] at h
    refine ⟨List.range' 1 (s.nusers - 1), fun u => ?_, ?_⟩
    · rw [List.mem_range'_1]
      dsimp only
      omega
    · rw [← h, view_sUserStatusAll]
      rfl
  | one w =>
    simp only [ht, Except.ok.injEq] at h
    exact ⟨[w], fun u => List.mem_singleton.symm, h ▸ rfl⟩
  | missing => simp [ht] at h

/-- **`RESUME_USER`.** -/
theorem headed_resumeUser (hids : s.view.Ids) (hs : s.Headed) (ho : s.ResumesInFront user jobid)
    (h : s.resumeUser e socket user jobid = .ok s') : s'.Headed := by
  obtain ⟨us, hus, hview⟩ := resumeUser_cases h
  refine headed_of_view hview ?_
  obtain hrun | hidle | ⟨p, l, hl, hst, hpid, u, hu, ht⟩ := ho
  · exact .inr (runsFirst_resumeAll hrun hids)
  · obtain ⟨hact, hbusy⟩ := resumedAll_idle e socket hids
      fun u hu p hp hst hown => hidle p hp hst ⟨hown.2, u, hown.1, (hus u).2 hu⟩
    rw [Queue.Headed, hact, hbusy]
    exact hs
  · exact .inr (InTurn.resumedAll (.inr (ledBy_head hl)) hids hst hpid hu ((hus u).1 ht))

/-! ### Continuing, requeueing and holding a job -/

/-- The first job that stays runs; or none that stays takes slots, and if the job is paused it is the
first one. -/
def ContinuesInFront (e : Env) (s : Spool) (jobid : ℤ) : Prop :=
  RunsFirst (s.activeJobs.filter (stays e)) ∨ Idles e s.activeJobs ∧
    ∀ p, s.findjob jobid = some p → p.state = .pause → StandsFirst jobid (s.activeJobs.filter (stays e))

/-- The operations of `s_cont_job` after the recount. -/
def continues (jobid : ℤ) (o : Op) (s : Spool) : Prop :=
  match o with
  | .start p => p.jobid = jobid ∧ (RunsFirst s.activeJobs ∨ StandsFirst jobid s.activeJobs)
  | .send _ _ | .unlock _ | .absWall _ | .thaw _ | .wall _ _ => True
  | _ => False

theorem headed_continues (hids : s.view.Ids) (hs : s.Headed) (h : Ops e (continues jobid) s s') :
    s'.Headed := by
  refine (h.invariant (I := fun sp => sp.view.Ids ∧ sp.Headed) ⟨hids, hs⟩
    fun {sp sp' o} hI ho hpre hrun => ⟨(Op.moves hI.1 hpre hrun).ids hI.1, ?_⟩).2
  obtain ⟨hids, hs⟩ := hI
  cases o with
  | start p =>
    obtain ⟨rfl, ho⟩ := ho
    exact .inr (Op.headed_start hids hpre hrun ho)
  | send | unlock | absWall | thaw | wall =>
    exact Op.Harmless.headed (by trivial) hids hpre hrun hs
  | _ => exact ho.elim

theorem front_modJob {w : ℤ} : front (s.modJob jobid (Job.setWallTime w)).activeJobs =
    front s.activeJobs := by
  show front (Keyed.modify Job.jobid jobid (Job.setWallTime w) s.activeJobs) = _
  rw [Keyed.modify]
  cases s.activeJobs with
  | nil => rfl
  | cons x l =>
    rw [List.map_cons, front_cons, front_cons]
    split_ifs <;> rfl

/-- **`CONT`.** -/
theorem headed_contJob (hids : s.view.Ids) (ho : s.ContinuesInFront e jobid)
    (h : s.sContJob e socket jobid user = .ok s') : s'.Headed := by
  have hcases : ∃ s₁, s.sUpdateSlotsUsage e = .ok s₁ ∧ Ops e (continues jobid) s₁ s' := by
    refine sContJob_cases (fun _ _ => trivial) (fun _ _ _ _ => trivial) (fun s₁ h₁ p hp hq hl => ?_) h
    obtain rfl := findjob_jobid hp
    refine contStarted_ops_of hp hq hl (fun _ _ => trivial) trivial (fun _ _ => trivial)
      (fun hpause _ => ⟨rfl, ?_⟩) fun _ => trivial
    -- the job is looked up after the recount: it is the one that was there before
    rw [StandsFirst, front_modJob, RunsFirst, front_modJob]
    obtain ⟨k, hk⟩ | ⟨hidle, hfirst⟩ := ho
    · exact .inl ⟨k, front_usage hids h₁ hk⟩
    · obtain ⟨q, hq, -, hplain⟩ := exists_stays hids hidle.not_timedOut h₁ (Keyed.mem_of_lookup hp)
      have hid := congrArg Job.jobid hplain
      have hst := congrArg Job.state hplain
      rw [front_stays hids hidle.not_timedOut h₁]
      exact .inr (hfirst q ((congrArg s.findjob hid).symm.trans (findjob_of_mem hids hq))
        (hst.trans hpause))
  obtain ⟨s₁, h₁, hops⟩ := hcases
  refine headed_continues ((sUpdateSlotsUsage_ops hids h₁).ids hids) ?_ hops
  exact CountsInFront.headed (ho.imp_right And.left) hids h₁

/-- The slots that `s_relegate_job` gives back. -/
theorem busySlots_relegate : (s.sRelegateJob e p).busySlots =
    s.busySlots - if p.state = .running then Queue.freedSlots p else 0 := by
  refine (busySlots_of_view (a := .relegate p true) (view_sRelegateJob p) trivial).trans ?_
  by_cases hrun : p.state = .running
  · rw [busySlots_frees (a := .relegate p true) (if_pos hrun), if_pos hrun]
  · rw [busySlots_none (a := .relegate p true) rfl (if_neg hrun), if_neg hrun, sub_zero]

/-- **`REQUEUE`.** -/
theorem headed_requeueJob (hids : s.view.Ids) (hs : s.Headed)
    (hslots : ∀ p ∈ s.activeJobs, 0 ≤ p.numSlots)
    (ho : s.PartsWith fun p => p.jobid = jobid ∧ s.ownerOrRoot user p) :
    (s.sRequeueJob e socket jobid user).Headed := by
  rw [sRequeueJob]
  cases hp : s.findjob jobid with
  | none => exact hs
  | some p =>
    obtain rfl := findjob_jobid hp
    dsimp only
    split_ifs with howner hstate
    · exact hs
    · exact hs
    · have hmem := Keyed.mem_of_lookup hp
      have hpre : (Op.relegate p).Pre e s := ⟨hp, by tauto⟩
      have hids₁ : (s.sRelegateJob e p).view.Ids := (Op.moves hids hpre rfl).ids hids
      -- without the job: no slots are busy, or the next one runs
      have hrest : s.busySlots - (if p.state = .running then Queue.freedSlots p else 0) ≤ 0 ∨
          RunsFirst (others p.jobid s.activeJobs) := by
        by_cases hrun : p.state = .running
        · rw [if_pos hrun]
          exact ho.removed ⟨rfl, by simpa using howner⟩ hids hp (hslots p hmem) hs
        · rw [if_neg hrun, sub_zero]
          exact hs.imp_right fun h => (h.before hmem (nodup_of_ids hids) hrun).others
      -- the job goes to the end, and the others keep their order
      have hfront : front (others p.jobid (s.sRelegateJob e p).activeJobs) =
          front (others p.jobid s.activeJobs) := by
        have hothers : ∀ l : List Job, others p.jobid l = staying [p.jobid] l := fun l => by
          rw [others, staying]
          simp only [List.mem_singleton]
        have hmem : p.jobid ∈ [p.jobid] := List.mem_cons_self
        have hsame := staying_relegate hids hmem hpre
        rw [plain_staying, plain_staying] at hsame
        rw [hothers, hothers, ← front_plain, hsame, front_plain]
      have hend : RunsFirst (Keyed.remove Job.jobid p.jobid (s.sRelegateJob e p).activeJobs ++
          ((s.sRelegateJob e p).findjob p.jobid).toList) ∨ (s.sRelegateJob e p).busySlots ≤ 0 := by
        rw [busySlots_relegate, remove_eq_others (nodup_of_ids hids₁)]
        obtain hbusy | ⟨k, hk⟩ := hrest
        · exact .inr hbusy
        · exact .inl ⟨k, by rw [front_append, hfront, hk, Option.some_or]⟩
      exact hend.symm

/-- **`HOLD`.** -/
theorem headed_holdJob (hids : s.view.Ids) (hs : s.Headed)
    (hslots : ∀ p ∈ s.activeJobs, 0 ≤ p.numSlots)
    (ho : s.HoldsAll fun p => p.jobid = jobid ∧ 0 ≤ (s.users user).maxSlots ∧ p.pid ≠ 0 ∧
      s.ownerOrRoot user p) : (s.sHoldJob e socket jobid user).Headed := by
  have hline : ∀ {sp : Spool} {text}, sp.Headed → (sp.sendLine socket text).Headed := fun h => h
  rw [sHoldJob]
  split_ifs with hneg
  · exact hs
  · cases hp : s.findjob jobid with
    | none => exact hs
    | some p =>
      obtain rfl := findjob_jobid hp
      dsimp only
      split_ifs with hq howner hl hpause hwall hpid
      · exact hline (Op.Harmless.headed (e := e) (o := .lock p) trivial hids ⟨hp, hq⟩ rfl hs)
      · exact hs
      · exact hs
      · exact hline (Op.Harmless.headed (e := e) (o := .wall p.jobid p.wallTime.natAbs) trivial hids
          (Option.isSome_iff_exists.2 ⟨p, hp⟩) rfl hs)
      · exact hs
      · exact hline (Op.headed_pause (e := e) hids ⟨hp, hpid.1, hq, hl, hpause⟩ rfl hs
          (hslots p (Keyed.mem_of_lookup hp)) ho ⟨rfl, Int.not_lt.1 hneg, hpid⟩)
      · exact hs

/-! ### Moving jobs, and the other requests -/

theorem headed_sortIfAsked (hs : s.Headed) : s.sortIfAsked.Headed := by
  rw [sortIfAsked]
  split_ifs
  · exact Op.headed_sorted (Op.exists_running hs)
  · exact hs

/-- The order does not matter if the jobs are sorted afterwards. -/
theorem headed_sort_perm (hflag : s'.jobsortFlag = true) (hbusy : s'.busySlots = s.busySlots)
    (hperm : s'.activeJobs.Perm s.activeJobs) (hs : s.Headed) : s'.sortIfAsked.Headed := by
  rw [sortIfAsked, if_pos hflag]
  obtain hnone | ⟨p, hp, hst⟩ := Op.exists_running hs
  · exact Op.headed_sorted (.inl (hbusy.trans_le hnone))
  · exact Op.headed_sorted (.inr ⟨p, hperm.mem_iff.2 hp, hst⟩)

/-- When a running job is in front after the answer to a request of a user, if one was before. -/
def AnswersInFront (e : Env) (s : Spool) (user : ℕ) : Request → Prop
  | .refreshUsers => user = 0 → CountsInFront e s.activeJobs
  | .lockServer => (s.users user).uid = 0 → CountsInFront e s.activeJobs
  | .list _ _ | .listAll _ _ => CountsInFront e s.activeJobs
  | .holdJob jobid => s.HoldsAll fun p => p.jobid = jobid ∧ 0 ≤ (s.users user).maxSlots ∧
      p.pid ≠ 0 ∧ s.ownerOrRoot user p
  | .requeueJob jobid => s.PartsWith fun p => p.jobid = jobid ∧ s.ownerOrRoot user p
  | .contJob jobid => s.ContinuesInFront e jobid
  | .suspendUser uid => s.SuspendsInFront e user uid
  | .resumeUser uid => s.ResumesInFront user uid
  | .urgent jobid => user = 0 ∨ s.sGetJobUser jobid = some user → s.jobsortFlag = true ∨
      s.busySlots ≤ 0 ∨ ∀ p, s.findjob jobid = some p → p.state = .running
  | .swapJobs j k => user = 0 ∨ (s.sGetJobUser j = some user ∧ s.sGetJobUser k = some user) →
      s.jobsortFlag = true ∨ s.busySlots ≤ 0 ∨
        ∀ p q, s.findjob j = some p → s.findjob k = some q →
          (StandsFirst j s.activeJobs → q.state = .running) ∧
          (StandsFirst k s.activeJobs → p.state = .running)
  | _ => True

/-- The operations that follow the recount in `s_list` and `s_lock_server`, or precede it. -/
def tells (o : Op) (_ : Spool) : Prop :=
  match o with
  | .send _ _ | .users _ _ _ | .settings _ _ _ _ _ => True
  | _ => False

theorem headed_tells (hids : s.view.Ids) (hs : s.Headed) (h : Ops e tells s s') : s'.Headed :=
  h.headed hids hs fun o sp ho _ _ => by
    cases o with
    | send | users | settings => trivial
    | _ => exact ho.elim

theorem activeJobs_tells (h : Ops e tells s s') : s'.activeJobs = s.activeJobs :=
  h.invariant (I := fun sp => sp.activeJobs = s.activeJobs) rfl fun {sp sp' o} hI ho _ hrun => by
    cases o with
    | send | users | settings =>
      cases hrun
      exact hI
    | _ => exact ho.elim

theorem busySlots_tells (h : Ops e tells s s') : s'.busySlots = s.busySlots :=
  h.invariant (I := fun sp => sp.busySlots = s.busySlots) rfl fun {sp sp' o} hI ho _ hrun => by
    cases o with
    | send | users | settings =>
      cases hrun
      exact hI
    | _ => exact ho.elim

/-- `s_update_slots_usage`, and what the request does then. -/
theorem headed_counted (hids : s.view.Ids) (ho : CountsInFront e s.activeJobs)
    (h : ∃ s₁, s.sUpdateSlotsUsage e = .ok s₁ ∧ Ops e tells s₁ s') : s'.Headed := by
  obtain ⟨s₁, h₁, hrest⟩ := h
  exact headed_tells ((sUpdateSlotsUsage_ops hids h₁).ids hids) (ho.headed hids h₁) hrest

theorem headed_refreshUsers (hids : s.view.Ids) (hs : s.Headed) (ho : CountsInFront e s.activeJobs)
    (h : s.sRefreshUsers e socket = .ok s') : s'.Headed := by
  obtain hops | ⟨s₁, hnew, h₁⟩ : Ops e tells s s' ∨
      ∃ s₁, Ops e tells s s₁ ∧ s₁.sUpdateSlotsUsage e = .ok s' :=
    sRefreshUsers_cases hids (fun _ _ => trivial) (fun _ _ _ _ => trivial) h
  · exact headed_tells hids hs hops
  · exact CountsInFront.headed ((activeJobs_tells hnew).symm ▸ ho) (hnew.ids hids) h₁

theorem headed_lockServer (hids : s.view.Ids) (hs : s.Headed)
    (ho : (s.users user).uid = 0 → CountsInFront e s.activeJobs)
    (h : s.sLockServer e socket user = .ok s') : s'.Headed := by
  obtain ⟨hroot, hcount⟩ | hops : (s.users user).uid = 0 ∧
      (∃ s₁, s.sUpdateSlotsUsage e = .ok s₁ ∧ Ops e tells s₁ s') ∨ Ops e tells s s' :=
    sLockServer_cases (fun _ _ => trivial) (fun _ _ _ => trivial) h
  · exact headed_counted hids (ho hroot) hcount
  · exact headed_tells hids hs hops

theorem headed_moveUrgent (hids : s.view.Ids) (hs : s.Headed) (ho : s.jobsortFlag = true ∨
      s.busySlots ≤ 0 ∨ ∀ p, s.findjob jobid = some p → p.state = .running) :
    (s.sMoveUrgent socket jobid).sortIfAsked.Headed := by
  obtain hflag | ho := ho
  · refine headed_sort_perm ?_ ?_ ?_ hs
    · rw [sMoveUrgent]
      cases s.findjob jobid <;> exact hflag
    · rw [sMoveUrgent]
      cases s.findjob jobid <;> rfl
    · exact perm_sMoveUrgent hids
  · exact headed_sortIfAsked (Op.headed_urgent hs ho)

theorem sSwapJobs_cases (s : Spool) (socket j k : ℤ) :
    (s.sSwapJobs socket j k).busySlots = s.busySlots ∧
      (s.sSwapJobs socket j k).jobsortFlag = s.jobsortFlag := by
  have hsame : ∀ s : Spool, ((s.swapDb j k).send socket .swapJobsOk).busySlots = s.busySlots ∧
      ((s.swapDb j k).send socket .swapJobsOk).jobsortFlag = s.jobsortFlag := by
    intro s
    unfold swapDb
    split <;> exact ⟨rfl, rfl⟩
  rw [sSwapJobs]
  split
  · exact hsame _
  · exact ⟨rfl, rfl⟩

theorem headed_swapJobs {j k : ℤ} (hs : s.Headed) (ho : s.jobsortFlag = true ∨ s.busySlots ≤ 0 ∨
      ∀ p q, s.findjob j = some p → s.findjob k = some q →
        (StandsFirst j s.activeJobs → q.state = .running) ∧
        (StandsFirst k s.activeJobs → p.state = .running)) :
    (s.sSwapJobs socket j k).sortIfAsked.Headed := by
  obtain hflag | ho := ho
  · obtain ⟨hbusy, hsame⟩ := s.sSwapJobs_cases socket j k
    exact headed_sort_perm (hsame.trans hflag) hbusy perm_sSwapJobs hs
  · exact headed_sortIfAsked (Op.headed_swap hs ho)

/-- **The requests of the users.** -/
theorem headed_answer {r : Request} (hids : s.view.Ids) (hs : s.Headed)
    (hslots : ∀ p ∈ s.activeJobs, 0 ≤ p.numSlots) (ho : AnswersInFront e s user r)
    (h : s.answer e socket user r = .ok s') : s'.Headed := by
  cases r with
  | refreshUsers =>
    rw [answer] at h
    split_ifs at h with hroot
    · exact headed_refreshUsers hids hs (ho hroot) h
    · cases h
      exact hs
  | lockServer => exact headed_lockServer hids hs ho h
  | list format jobid | listAll format jobid =>
    rw [answer] at h
    exact headed_counted hids ho (sList_cases (fun _ _ => trivial) h)
  | holdJob jobid =>
    cases h
    exact headed_holdJob hids hs hslots ho
  | requeueJob jobid =>
    cases h
    exact headed_requeueJob hids hs hslots ho
  | contJob jobid => exact headed_contJob hids ho h
  | suspendUser uid => exact headed_suspendUser hids hs ho h
  | resumeUser uid => exact headed_resumeUser hids hs ho h
  | urgent jobid =>
    cases h
    split_ifs with hmay
    · exact headed_moveUrgent hids hs (ho hmay)
    · exact headed_sortIfAsked hs
  | swapJobs j k =>
    cases h
    split_ifs with hmay
    · exact headed_swapJobs hs (ho hmay)
    · exact headed_sortIfAsked hs
  | _ =>
    -- no other request starts, stops or moves a job
    refine (answer_ops hids h).headed hids hs fun o sp ho _ _ => ?_
    cases o <;> first | exact ho.elim | trivial

end Spool

end TaskSpooler
