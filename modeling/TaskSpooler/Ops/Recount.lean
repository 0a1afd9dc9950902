import TaskSpooler.Ops.Turn

/-!
# What the recount leaves in the queue

`s_update_slots_usage` requeues the jobs that ran too long and finishes those whose process has died.
The others stay in their order (`usage_cases`), so the first of them is first afterwards.

* `front_usage` : if the first job that stays runs, it is the first job after the recount.
* `Idles.usage` : if no job that stays takes slots, and none ran too long, no slots are busy afterwards.
-/

namespace TaskSpooler

namespace Spool

variable {e : Env} {s s' : Spool} {jobid k : ℤ} {p : Job}

/-- `s_update_slots_usage` leaves the job where it is. -/
def stays (e : Env) (p : Job) : Bool := !timedOut e p && !isDead e p

theorem plain_view : s.view.plain = s.plain := by
  rw [Queue.plain, Queue.plain]
  exact List.map_map

theorem nodup_plain (hids : s.view.Ids) : (s.plain.map Job.jobid).Nodup := by
  rw [Queue.plain, List.map_map]
  exact nodup_of_ids hids

/-! ### Jobs that ran too long -/

theorem plain_relegate (hids : s.view.Ids) (hpre : (Op.relegate p).Pre e s) :
    (s.sRelegateJob e p).plain = Keyed.modify Job.jobid p.jobid
      (fun _ => (if p.state = .running then p.freed.relegated else p.relegated).plain) s.plain := by
  have hg : (Act.relegate p true).Guard s.view := ⟨view_has hpre.1, hpre.2, by simp⟩
  have hplain := Act.plain_changed hids hg rfl rfl
  have hv : (s.sRelegateJob e p).view = (Act.relegate p true).apply s.view := view_sRelegateJob p
  rw [← plain_view, hv, hplain, plain_view]

/-- The jobs that are not requeued keep their order. -/
theorem staying_relegate {ids : List ℤ} (hids : s.view.Ids) (hp : p.jobid ∈ ids)
    (hpre : (Op.relegate p).Pre e s) : staying ids (s.sRelegateJob e p).plain = staying ids s.plain := by
  rw [plain_relegate hids hpre, staying_modify hp]
  show (if p.state = .running then p.freed.relegated else p.relegated).jobid = p.jobid
  split_ifs <;> rfl

theorem plain_staying {ids : List ℤ} : staying ids s.plain = (staying ids s.activeJobs).map Job.plain :=
  staying_map fun _ => rfl

theorem late_nil (h : ∀ p ∈ s.activeJobs, timedOut e p = false) : s.late e = [] := by
  rw [late, List.filter_eq_nil_iff.2 fun p hp => by simp [h p hp]]
  rfl

/-- After `s_check_timeout` the jobs that ran too long are behind the others. -/
theorem plain_sCheckTimeout (hids : s.view.Ids) : ∃ tail, (s.sCheckTimeout e).1.plain =
      (s.activeJobs.filter fun p => !timedOut e p).map Job.plain ++ tail ∧
    ((∀ p ∈ s.activeJobs, timedOut e p = false) → tail = []) := by
  let ids := (s.late e).map Job.jobid
  have hlate : Ops e (fun o _ => ∃ p ∈ s.late e, o = .relegate p) s
      ((s.late e).foldl (fun s p => s.sRelegateJob e p) s) := late_ops hids fun p hp _ => ⟨p, hp, rfl⟩
  have hstay := hlate.invariant (I := fun sp => sp.view.Ids ∧ staying ids sp.plain = staying ids s.plain)
    ⟨hids, rfl⟩ fun {sp sp' o} hI ho hpre hrun => by
      refine ⟨(Op.moves hI.1 hpre hrun).ids hI.1, ?_⟩
      obtain ⟨p, hp, rfl⟩ := ho
      cases hrun
      exact (staying_relegate hI.1 (List.mem_map_of_mem hp) hpre).trans hI.2
  -- the jobs that are not requeued are those that have not run too long
  have hnot : staying ids s.activeJobs = s.activeJobs.filter fun p => !timedOut e p := by
    refine List.filter_congr fun p hp => ?_
    have hmem : p.jobid ∈ ids ↔ timedOut e p = true := by
      constructor
      · intro h
        obtain ⟨q, hq, hid⟩ := List.mem_map.1 h
        obtain ⟨hq, hto⟩ := mem_late.1 hq
        rwa [← Keyed.eq_of_key (nodup_of_ids hids) hq hp hid]
      · intro h
        exact List.mem_map_of_mem (mem_late.2 ⟨hp, h⟩)
    cases hto : timedOut e p <;> simp [hmem, hto]
  let relegated := (s.late e).foldl (fun s p => s.sRelegateJob e p) s
  refine ⟨(ids.filterMap relegated.findjob).map Job.plain, ?_, fun hnone => ?_⟩
  · show List.map Job.plain (toBottom relegated ids).activeJobs = _
    rw [Spool.activeJobs_toBottom, ← staying, List.map_append, ← hnot, ← plain_staying, ← plain_staying]
    exact congrArg (fun l => l ++ _) hstay.2
  · have hids : ids = [] := congrArg (List.map Job.jobid) (late_nil hnone)
    rw [hids]
    rfl

/-! ### Jobs whose process has died -/

theorem plain_checkNotifyList (h : s.checkNotifyList jobid = .ok s') : s'.plain = s.plain :=
  congrArg (List.map Job.plain) (checkNotifyList_activeJobs h)

theorem plain_jobFinished {r : Result} (hids : s.view.Ids) (h : s.jobFinished e r jobid = .ok s') :
    s'.plain = s.plain.filter fun p => p.jobid ≠ jobid := by
  obtain ⟨p, p', hp, -, hg, hv⟩ := jobFinished_spec h
  obtain rfl := findjob_jobid hp
  rw [← plain_view, hv, Act.plain_removed hids hg rfl rfl, plain_view,
    Keyed.remove_eq_filter (nodup_plain hids)]

theorem plain_sweepJob (hids : s.view.Ids) (h : s.sweepJob e jobid = .ok s') :
    s'.plain = s.plain.filter fun p => !(p.jobid = jobid ∧ isDead e p : Bool) := by
  rw [sweepJob] at h
  have hkey : ∀ {x y : Job}, x.plain.jobid = y.jobid → x ∈ s.activeJobs → y ∈ s.activeJobs → x = y :=
    fun hid hx hy => Keyed.eq_of_key (nodup_of_ids hids) hx hy hid
  cases hp : s.findjob jobid with
  | none =>
    simp only [hp, Except.ok.injEq] at h
    subst h
    refine (List.filter_eq_self.2 fun x hx => ?_).symm
    obtain ⟨y, hy, rfl⟩ := List.mem_map.1 hx
    have hne : y.plain.jobid ≠ jobid := Keyed.lookup_eq_none.1 hp y hy
    simp [hne]
  | some p =>
    simp only [hp] at h
    have hpid := findjob_jobid hp
    have hmem : p ∈ s.activeJobs := Keyed.mem_of_lookup hp
    -- an id belongs to one job, so it does not matter which record is asked
    have hdead : ∀ x ∈ s.plain, x.jobid = jobid → isDead e x = isDead e p := by
      intro x hx hid
      obtain ⟨y, hy, rfl⟩ := List.mem_map.1 hx
      rw [hkey (hid.trans hpid.symm) hy hmem]
      rfl
    split_ifs at h with hd
    · rw [Except.bind_eq_ok] at h
      obtain ⟨s₁, h₁, h⟩ := h
      rw [plain_checkNotifyList h, plain_jobFinished hids h₁]
      refine List.filter_congr fun x hx => ?_
      by_cases hid : x.jobid = jobid
      · simp [hid, hdead x hx hid, hd]
      · simp [hid]
    · cases h
      refine (List.filter_eq_self.2 fun x hx => ?_).symm
      by_cases hid : x.jobid = jobid
      · simp [hdead x hx hid, hd]
      · simp [hid]

theorem plain_sweep {l : List ℤ} (hids : s.view.Ids)
    (h : l.foldlM (fun s jobid => s.sweepJob e jobid) s = .ok s') :
    s'.plain = s.plain.filter fun p => !(p.jobid ∈ l ∧ isDead e p : Bool) := by
  induction l generalizing s with
  | nil =>
    cases h
    exact (List.filter_eq_self.2 fun x _ => by simp).symm
  | cons k l ih =>
    rw [List.foldlM_cons, Except.bind_eq_ok] at h
    obtain ⟨s₁, h₁, h⟩ := h
    rw [ih ((sweepJob_ops h₁).ids hids) h, plain_sweepJob hids h₁, List.filter_filter]
    refine List.filter_congr fun x _ => ?_
    cases isDead e x <;> simp [Bool.and_comm]

/-- `s_update_slots_usage` finishes every job whose process has died, and no other. -/
theorem plain_sweepDead (hids : s.view.Ids) (h : s.sweepDead e = .ok s') :
    s'.plain = s.plain.filter fun p => !isDead e p := by
  rw [plain_sweep hids h]
  refine List.filter_congr fun x hx => ?_
  have hmem : x.jobid ∈ (s.activeJobs.map Job.jobid).reverse := by
    obtain ⟨y, hy, rfl⟩ := List.mem_map.1 hx
    have hin : y.jobid ∈ s.activeJobs.map Job.jobid := List.mem_map_of_mem hy
    exact List.mem_reverse.2 hin
  simp [hmem]

/-! ### The count, and the jobs that are started then -/

theorem recount_plain (h : s.recount = .ok s') :
    s'.plain = s.plain ∧ s'.busySlots = Queue.runningSlots s'.activeJobs := by
  rw [recount] at h
  split_ifs at h
  dsimp only at h
  by_cases husage : Queue.runningSlots s.activeJobs ≠ s.busySlots
  · rw [if_pos husage] at h
    cases h
    exact ⟨rfl, rfl⟩
  · rw [if_neg husage] at h
    cases h
    exact ⟨rfl, rfl⟩

/-- **The jobs after the recount**: those that stay, in their order, and behind them others only if
some have run too long.  In that case `next_run_job` follows. -/
theorem usage_cases (hids : s.view.Ids) (h : s.sUpdateSlotsUsage e = .ok s') : ∃ s₁ tail,
    Ops e (fun o _ => o.StartsNone) s s₁ ∧
    s₁.plain = (s.activeJobs.filter (stays e)).map Job.plain ++ tail ∧
    s₁.busySlots = Queue.runningSlots s₁.activeJobs ∧ (s' = s₁ ∨ s₁.nextRunJob e = .ok s') ∧
    ((∀ p ∈ s.activeJobs, timedOut e p = false) → tail = [] ∧ s' = s₁) := by
  have htime : Ops e (fun o _ => o.StartsNone) s (s.sCheckTimeout e).1 :=
    sCheckTimeout_ops hids (fun _ _ _ => trivial) fun _ => trivial
  have hsweep : ∀ {s₁ s₂}, s₁.sweepDead e = .ok s₂ → Ops e (fun o _ => o.StartsNone) s₁ s₂ := fun h =>
    (sweepDead_ops h).mono fun o sp ho => by
      cases o with
      | finish | notify => trivial
      | _ => exact ho.elim
  obtain ⟨tail, hplain, htail⟩ := plain_sCheckTimeout (e := e) hids
  have hlate : (∀ p ∈ s.activeJobs, timedOut e p = false) → (s.sCheckTimeout e).2 = false := by
    intro hnone
    show (!(s.late e).isEmpty) = false
    rw [late_nil hnone]
    rfl
  rw [sUpdateSlotsUsage] at h
  -- the pair that `s_check_timeout` returns is taken apart
  revert h htime hplain hlate
  generalize s.sCheckTimeout e = r
  obtain ⟨s₀, timeout⟩ := r
  intro h htime hplain hlate
  simp only [Except.bind_eq_ok] at h
  obtain ⟨s₁, h₁, s₂, h₂, h⟩ := h
  obtain ⟨hsame, hbusy⟩ := recount_plain h₂
  refine ⟨s₂, tail.filter fun p => !isDead e p,
    (htime.trans (hsweep h₁)).trans (.single .recount trivial trivial h₂), ?_, hbusy, ?_,
    fun hnone => ?_⟩
  · rw [hsame, plain_sweepDead (htime.ids hids) h₁, hplain, List.filter_append, List.filter_map,
      List.filter_filter]
    refine congrArg (fun l => List.map Job.plain l ++ _) (List.filter_congr fun p _ => ?_)
    exact Bool.and_comm _ _
  · split_ifs at h
    · exact .inr h
    · cases h
      exact .inl rfl
  · -- `next_run_job` follows a timeout only
    have hno := hlate hnone
    rw [htail hnone]
    dsimp only at hno
    rw [hno] at h
    cases h
    exact ⟨rfl, rfl⟩

/-- **The first job that stays** is first after the recount, if it runs. -/
theorem front_usage (hids : s.view.Ids) (h : s.sUpdateSlotsUsage e = .ok s')
    (hs : front (s.activeJobs.filter (stays e)) = some (k, .running)) :
    front s'.activeJobs = some (k, .running) := by
  obtain ⟨s₁, tail, hops, hplain, -, hrun, -⟩ := usage_cases hids h
  have hfirst : front s₁.activeJobs = some (k, .running) := by
    rw [← front_plain]
    refine (congrArg front hplain).trans ?_
    rw [front_append, front_plain, hs]
    rfl
  obtain rfl | hrun := hrun
  · exact hfirst
  · have hids₁ := hops.ids hids
    exact front_schedule hids₁ (nextRunJob_ops hids₁ hrun) hfirst

/-- None of the running jobs has run too long, and those whose process lives take no slots. -/
def Idles (e : Env) (l : List Job) : Prop :=
  ∀ p ∈ l, p.state = .running → timedOut e p = false ∧ (isDead e p = true ∨ p.numSlots ≤ 0)

theorem Idles.not_timedOut {l : List Job} (h : Idles e l) : ∀ p ∈ l, timedOut e p = false := by
  intro p hp
  by_contra hto
  rw [Bool.not_eq_false] at hto
  rw [(h p hp (running_of_timedOut hto)).1] at hto
  cases hto

/-- Without a timeout, the jobs that stay are in their order. -/
theorem front_stays (hids : s.view.Ids) (hnone : ∀ p ∈ s.activeJobs, timedOut e p = false)
    (h : s.sUpdateSlotsUsage e = .ok s') :
    front s'.activeJobs = front (s.activeJobs.filter (stays e)) := by
  obtain ⟨s₁, tail, -, hplain, -, -, hend⟩ := usage_cases hids h
  obtain ⟨rfl, rfl⟩ := hend hnone
  rw [List.append_nil] at hplain
  rw [← front_plain, ← front_plain (l := s.activeJobs.filter (stays e))]
  exact congrArg front hplain

/-- A job after the recount, if none has run too long before. -/
theorem exists_stays (hids : s.view.Ids) (hnone : ∀ p ∈ s.activeJobs, timedOut e p = false)
    (h : s.sUpdateSlotsUsage e = .ok s') (hp : p ∈ s'.activeJobs) :
    ∃ q ∈ s.activeJobs, stays e q = true ∧ q.plain = p.plain := by
  obtain ⟨s₁, tail, -, hplain, -, -, hend⟩ := usage_cases hids h
  obtain ⟨rfl, rfl⟩ := hend hnone
  rw [List.append_nil] at hplain
  have hmem : p.plain ∈ (s.activeJobs.filter (stays e)).map Job.plain :=
    hplain ▸ List.mem_map_of_mem hp
  obtain ⟨q, hq, heq⟩ := List.mem_map.1 hmem
  obtain ⟨hq, hstay⟩ := List.mem_filter.1 hq
  exact ⟨q, hq, hstay, heq⟩

theorem runningSlots_nonpos {l : List Job} (h : ∀ p ∈ l, p.state = .running → p.numSlots ≤ 0) :
    Queue.runningSlots l ≤ 0 := by
  have hsum := List.sum_le_card_nsmul ((l.filter fun p => p.state = .running).map Job.numSlots) 0
    fun n hn => by
      obtain ⟨p, hp, rfl⟩ := List.mem_map.1 hn
      obtain ⟨hp, hrun⟩ := List.mem_filter.1 hp
      exact h p hp (of_decide_eq_true hrun)
  rwa [nsmul_zero] at hsum

/-- After the recount `busy_slots` is the sum over the running jobs, if none has run too long. -/
theorem busySlots_usage (hids : s.view.Ids) (hnone : ∀ p ∈ s.activeJobs, timedOut e p = false)
    (h : s.sUpdateSlotsUsage e = .ok s') : s'.busySlots = Queue.runningSlots s'.activeJobs := by
  obtain ⟨s₁, tail, -, -, hbusy, -, hend⟩ := usage_cases hids h
  obtain ⟨-, rfl⟩ := hend hnone
  exact hbusy

/-- **No slots are busy** after the recount. -/
theorem Idles.usage (h : Idles e s.activeJobs) (hids : s.view.Ids)
    (hs : s.sUpdateSlotsUsage e = .ok s') : s'.busySlots ≤ 0 := by
  rw [busySlots_usage hids h.not_timedOut hs]
  refine runningSlots_nonpos fun p hp hrun => ?_
  obtain ⟨q, hq, hstay, heq⟩ := exists_stays hids h.not_timedOut hs hp
  have hst : q.state = .running := (congrArg Job.state heq).trans hrun
  have hslots := congrArg Job.numSlots heq
  obtain hdead | hzero := (h q hq hst).2
  · rw [stays, hdead, Bool.not_true, Bool.and_false] at hstay
    cases hstay
  · exact hslots.symm.trans_le hzero

/-- The first job that stays runs, or none that stays takes slots. -/
def CountsInFront (e : Env) (l : List Job) : Prop := RunsFirst (l.filter (stays e)) ∨ Idles e l

/-- **The recount** keeps a running job in front, whatever was in front before. -/
theorem CountsInFront.headed (h : CountsInFront e s.activeJobs) (hids : s.view.Ids)
    (hs : s.sUpdateSlotsUsage e = .ok s') : s'.Headed := by
  obtain ⟨k, hk⟩ | h := h
  · exact .inr ⟨k, front_usage hids hs hk⟩
  · exact .inl (h.usage hids hs)

end Spool

end TaskSpooler
