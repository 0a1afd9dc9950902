import TaskSpooler.Ops.Answer
import TaskSpooler.Ops.Recount

/-!
# The first job through a request

A request is made of many operations, and some of them depend on the record of the first job: it is
relegated if it has run too long, and finished if its process has died.

* `LedBy.usage` : a running job that stays is first, with the same record, after the recount.
* `RanIn` : jobs that run after operations which start none ran before, with the same record.
* `headed_suspendUser`, `headed_resumeUser`, `headed_contJob` : the requests that do more.
-/

namespace TaskSpooler

namespace Spool

variable {e : Env} {s s' s'' : Spool} {o : Op} {p x : Job} {u user : ℕ} {socket jobid k : ℤ}

/-! ### The first job -/

/-- The first job is this one, but for the fields that operations on other jobs write to. -/
def LedBy (s : Spool) (p : Job) : Prop := s.activeJobs.head?.map Job.own = some p.own

theorem LedBy.front (h : s.LedBy p) : front s.activeJobs = some (p.jobid, p.state) := by
  cases hl : s.activeJobs with
  | nil =>
    rw [LedBy, hl] at h
    cases h
  | cons x l =>
    rw [LedBy, hl] at h
    have hown : x.own = p.own := Option.some.inj h
    rw [front_cons, Job.jobid_of_own hown, Job.state_of_own hown]

theorem LedBy.mem (h : s.LedBy p) : p.own ∈ s.activeJobs.map Job.own := by
  obtain ⟨x, hx, hown⟩ := Option.map_eq_some_iff.1 h
  rw [← hown]
  exact List.mem_map_of_mem (List.mem_of_head? hx)

/-- The job with its id has its record. -/
theorem LedBy.own (h : s.LedBy p) (hids : s.view.Ids) (hx : x ∈ s.activeJobs)
    (hid : x.jobid = p.jobid) : x.own = p.own := by
  obtain ⟨y, hy, hown⟩ := List.mem_map.1 h.mem
  rw [Keyed.eq_of_key (nodup_of_ids hids) hx hy (hid.trans (Job.jobid_of_own hown).symm)]
  exact hown

theorem ledBy_of_front (hids : s.view.Ids) (hfront : TaskSpooler.front s.activeJobs = some (p.jobid, p.state))
    (hmem : p.own ∈ s.activeJobs.map Job.own) : s.LedBy p := by
  cases hl : s.activeJobs with
  | nil =>
    rw [hl] at hmem
    cases hmem
  | cons x l =>
    obtain ⟨y, hy, hown⟩ := List.mem_map.1 hmem
    rw [hl, front_cons] at hfront
    have hid : x.jobid = p.jobid := congrArg Prod.fst (Option.some.inj hfront)
    have hxy : x = y := Keyed.eq_of_key (nodup_of_ids hids) (hl ▸ List.mem_cons_self) hy
      (hid.trans (Job.jobid_of_own hown).symm)
    rw [LedBy, hl, hxy]
    exact congrArg some hown

theorem ledBy_head {l : List Job} (hl : s.activeJobs = p :: l) : s.LedBy p := by
  rw [LedBy, hl]
  rfl

theorem LedBy.of_activeJobs (h : s.LedBy p) (heq : s'.activeJobs = s.activeJobs) : s'.LedBy p := by
  rw [LedBy, heq]
  exact h

/-- An operation that passes by the first job. -/
theorem LedBy.run (h : s.LedBy p) (hids : s.view.Ids) (hpre : o.Pre e s) (hrun : o.run e s = .ok s')
    (ho : o.Passes p.jobid) : s'.LedBy p := by
  refine ledBy_of_front ((Op.moves hids hpre hrun).ids hids) (Op.front_passed hids hpre hrun ho h.front) ?_
  exact ((Op.confined hids hpre hrun) p.own ho.not_touches).2 h.mem

/-- Operations that pass by the first job. -/
theorem LedBy.ops {ok : Op → Spool → Prop} (h : s.LedBy p) (hids : s.view.Ids) (hops : Ops e ok s s')
    (hok : ∀ o sp, ok o sp → sp.view.Ids → o.Pre e sp → sp.LedBy p → o.Passes p.jobid) : s'.LedBy p :=
  (hops.invariant (I := fun sp => sp.view.Ids ∧ sp.LedBy p) ⟨hids, h⟩
    fun {sp _ o} hI ho hpre hrun => ⟨(Op.moves hI.1 hpre hrun).ids hI.1,
      hI.2.run hI.1 hpre hrun (hok o sp ho hI.1 hpre hI.2)⟩).2

/-! ### The recount -/

theorem timedOut_own (h : x.own = p.own) : timedOut e x = timedOut e p := by
  have htime : ∀ y : Job, timedOut e y = timedOut e y.own := fun _ => rfl
  rw [htime x, h, ← htime p]

theorem isDead_own (h : x.own = p.own) : isDead e x = isDead e p := by
  have hdead : ∀ y : Job, isDead e y = isDead e y.own := fun _ => rfl
  rw [hdead x, h, ← hdead p]

theorem stays_iff : stays e p = true ↔ timedOut e p = false ∧ isDead e p = false := by
  rw [stays, Bool.and_eq_true, Bool.not_eq_true', Bool.not_eq_true']

/-- The operations of the recount are about other jobs than the first one, if it runs and stays. -/
theorem LedBy.passes {sp : Spool} (h : sp.LedBy p) (hids : sp.view.Ids) (hpre : o.Pre e sp)
    (hst : p.state = .running) (hstay : stays e p = true) (ho : o.ofUsage e sp)
    (hbottom : ∀ ids, o = .bottom ids → p.jobid ∉ ids) : o.Passes p.jobid := by
  obtain ⟨hlate, hdead⟩ := stays_iff.1 hstay
  have hrun : ∀ {x}, x ∈ sp.activeJobs → x.jobid = p.jobid → x.state = .running := fun hx hid =>
    (Job.state_of_own (h.own hids hx hid)).trans hst
  cases o with
  | relegate x =>
    intro hid
    have hx : timedOut e x = true := ho
    rw [timedOut_own (h.own hids (Keyed.mem_of_lookup hpre.1) hid), hlate] at hx
    cases hx
  | finish r jobid =>
    rintro rfl
    obtain ⟨x, hx, hd, -⟩ := ho
    rw [isDead_own (h.own hids (Keyed.mem_of_lookup hx) (findjob_jobid hx)), hdead] at hd
    cases hd
  | bottom ids => exact hbottom ids rfl
  | dispatch uid x =>
    intro hid
    -- a running job is not dispatched
    have hel := hpre.2.1
    simp only [Queue.eligible, Queue.queuedReady, Queue.retryReady, hrun hpre.1 hid, reduceCtorEq,
      false_and, decide_false, Bool.false_eq_true, or_self, and_false] at hel
  | wake x =>
    intro hid
    have hx := hrun (Keyed.mem_of_lookup hpre.1) hid
    rw [hpre.2] at hx
    cases hx
  | notify | recount | send => trivial
  | _ => exact ho.elim

/-- **The first job stays first**, with its record, if it runs and stays. -/
theorem LedBy.usage (h : s.LedBy p) (hids : s.view.Ids) (hst : p.state = .running)
    (hstay : stays e p = true) (hs : s.sUpdateSlotsUsage e = .ok s') : s'.LedBy p := by
  have hnot : p.jobid ∉ (s.late e).map Job.jobid := by
    intro hmem
    obtain ⟨x, hx, hid⟩ := List.mem_map.1 hmem
    obtain ⟨hx, hto⟩ := mem_late.1 hx
    rw [timedOut_own (h.own hids hx hid), (stays_iff.1 hstay).1] at hto
    cases hto
  have hops : Ops e (fun o sp => o.ofUsage e sp ∧ ∀ ids, o = .bottom ids → p.jobid ∉ ids) s s' :=
    sUpdateSlotsUsage_ops_of hids (fun o sp ho hb => ⟨ho, fun ids hids => hb ids hids ▸ hnot⟩) hs
  exact h.ops hids hops fun o sp ho hids hpre hled => hled.passes hids hpre hst hstay ho.1 ho.2

/-! ### The jobs that run -/

/-- Every job that runs in the second state ran in the first one, with the same record. -/
def RanIn (s s' : Spool) : Prop :=
  ∀ x ∈ s'.activeJobs, x.state = .running → ∃ y ∈ s.activeJobs, y.own = x.own

theorem RanIn.refl : RanIn s s := fun x hx _ => ⟨x, hx, rfl⟩

theorem RanIn.trans (h : RanIn s s') (h' : RanIn s' s'') : RanIn s s'' := by
  intro x hx hrun
  obtain ⟨y, hy, hown⟩ := h' x hx hrun
  obtain ⟨z, hz, hzown⟩ := h y hy ((Job.state_of_own hown).trans hrun)
  exact ⟨z, hz, hzown.trans hown⟩

/-- A job that a move stops or removes does not run afterwards. -/
theorem not_running_of_view {a : Act} (hids : s.view.Ids) (hg : a.Guard s.view)
    (hv : s'.view = a.apply s.view) (hold : a.old s.view = some p)
    (hnew : ∀ p', a.new s.view = some p' → p'.state ≠ .running) (hx : x ∈ s'.activeJobs)
    (hid : x.jobid = p.jobid) : x.state ≠ .running := by
  have hmem : x.plain ∈ (a.apply s.view).plain := by
    rw [← hv, plain_view]
    exact List.mem_map_of_mem hx
  cases hn : a.new s.view with
  | none =>
    rw [Act.plain_removed hids hg hold hn, plain_view, Keyed.mem_remove (nodup_plain hids)] at hmem
    exact absurd hid hmem.2
  | some p' =>
    rw [Act.plain_changed hids hg hold hn, Keyed.mem_modify] at hmem
    obtain ⟨-, -, -, heq⟩ | ⟨-, hne⟩ := hmem
    · have hst := congrArg Job.state heq
      exact fun hrun => hnew p' hn (hst.symm.trans hrun)
    · exact absurd hid hne

/-- An operation that starts no job. -/
theorem RanIn.run (hids : s.view.Ids) (hpre : o.Pre e s) (hrun : o.run e s = .ok s') (ho : o.StartsNone) :
    RanIn s s' := by
  intro x hx hst
  -- another job is as it was; this one does not run
  refine SameBut.exists_own (Op.confined hids hpre hrun) hx fun htouch => ?_
  cases o with
  | pause p =>
    cases hrun
    exact not_running_of_view hids (a := .pause p) ⟨view_has hpre.1, hpre.2⟩ (view_pause p) rfl
      (fun p' h => by cases h; simp [Job.setState]) hx htouch hst
  | relegate p =>
    cases hrun
    refine not_running_of_view hids (a := .relegate p true) ⟨view_has hpre.1, hpre.2, by simp⟩
      (view_sRelegateJob p) rfl (fun p' h => ?_) hx htouch hst
    cases h
    split_ifs <;> simp [Job.relegated]
  | finish r jobid =>
    obtain ⟨p, p', hp, -, hg, hv⟩ := jobFinished_spec hrun
    exact not_running_of_view hids hg hv rfl (fun _ h => by cases h) hx
      (htouch.trans (findjob_jobid hp).symm) hst
  | delete jobid =>
    obtain ⟨p, hp, hv⟩ := sDeleteJob_spec hrun
    obtain rfl := findjob_jobid hp
    exact not_running_of_view hids (a := .delete p) (view_has hp) hv rfl (fun _ h => by cases h) hx
      htouch hst
  | bottom | send | notify | recount | users | unnotify => exact htouch
  | _ => exact ho.elim

/-- Operations that start no job. -/
theorem RanIn.ops (hids : s.view.Ids) (h : Ops e (fun o _ => o.StartsNone) s s') : RanIn s s' :=
  (h.invariant (I := fun sp => sp.view.Ids ∧ RanIn s sp) ⟨hids, .refl⟩
    fun hI ho hpre hrun => ⟨(Op.moves hI.1 hpre hrun).ids hI.1,
      hI.2.trans (.run hI.1 hpre hrun ho)⟩).2

/-- Without a timeout the recount starts no job. -/
theorem usage_ranIn (hids : s.view.Ids) (hnone : ∀ p ∈ s.activeJobs, timedOut e p = false)
    (h : s.sUpdateSlotsUsage e = .ok s') : RanIn s s' := by
  obtain ⟨s₁, tail, hops, -, -, -, hend⟩ := usage_cases hids h
  obtain ⟨-, rfl⟩ := hend hnone
  exact .ops hids hops

end Spool

end TaskSpooler
