import TaskSpooler.Ops.Steps
import TaskSpooler.Safety.InFront
import TaskSpooler.Safety.Startup

/-!
# Steps that keep a running job in front

When a step of the server leaves a running job in front or no slots busy, read off the state before it
(`Server.KeepsFront`, `headed_step`).

* `headed_cleanJob`, `headed_endjob` : a job may end if the next one runs, or if no other is running.
* `headed_health` : the jobs that the health check gives up hold all the slots, if the first is one.
* `headed_killAll` : no connection that is closed carries the first job.
-/

namespace TaskSpooler

namespace Spool

variable {e : Env} {s s' : Spool} {p x : Job} {jobid k : ℤ}

/-! ### Running jobs that look dead -/

/-- The health check gives up the job. -/
def givenUp (e : Env) (p : Job) : Bool := healthDue e p && looksDead e p

/-- The slots of the jobs that the health check gives up. -/
def givenUpSlots (e : Env) (l : List Job) : ℤ := ((l.filter (givenUp e)).map Queue.freedSlots).sum

/-- If the first job is given up, the slots that are busy are those of jobs that are. -/
def HealthInFront (e : Env) (s : Spool) : Prop :=
  ∀ p l, s.activeJobs = p :: l → givenUp e p = true → s.busySlots ≤ givenUpSlots e s.activeJobs

theorem givenUp_own (h : x.own = p.own) : givenUp e x = givenUp e p := by
  have hown : ∀ y : Job, givenUp e y = givenUp e y.own := fun _ => rfl
  rw [hown x, h, ← hown p]

theorem freedSlots_own (h : x.own = p.own) : Queue.freedSlots x = Queue.freedSlots p := by
  have hown : ∀ y : Job, Queue.freedSlots y = Queue.freedSlots y.own := fun _ => rfl
  rw [hown x, h, ← hown p]

/-- A job that is given up becomes abnormal; nothing else is seen of the health check. -/
theorem checkHealth_spec (hp : s.findjob p.jobid = some p) :
    (givenUp e p = true → (Act.abnormal p).Guard s.view ∧
      (s.checkHealth e p.jobid).view = (Act.abnormal p).apply s.view) ∧
    (givenUp e p = false → (s.checkHealth e p.jobid).view = s.view) := by
  rw [checkHealth, hp, givenUp]
  dsimp only
  by_cases hdue : healthDue e p = true
  · rw [if_pos hdue, hdue, Bool.true_and]
    by_cases hdead : looksDead e p = true
    · rw [if_pos hdead]
      refine ⟨fun _ => ?_, fun h => absurd hdead (by simp [h])⟩
      have hrun := hdue
      simp only [healthDue, decide_eq_true_eq] at hrun
      refine ⟨⟨view_has hp, hrun.1, hrun.2.2.1⟩, ?_⟩
      rw [view_defrag, view_freeBind, view_freeCores, view_modJob (g := Job.setState .abnormal) fun _ => rfl]
      simp only [View.onQueue_onQueue, Server.freeCores_setState]
      rfl
    · rw [if_neg hdead]
      exact ⟨fun h => absurd h hdead, fun _ => view_modJob_quiet fun _ => rfl⟩
  · rw [if_neg hdue]
    refine ⟨fun h => ?_, fun _ => rfl⟩
    rw [Bool.and_eq_true] at h
    exact absurd h.1 hdue

theorem busySlots_checkHealth (hp : s.findjob p.jobid = some p) :
    (s.checkHealth e p.jobid).busySlots =
      s.busySlots - if givenUp e p then Queue.freedSlots p else 0 := by
  obtain ⟨hgone, hstay⟩ := checkHealth_spec (e := e) hp
  cases hup : givenUp e p with
  | false =>
    have hbusy := congrArg (fun v : View => v.busySlots) (hstay hup)
    rw [if_neg (by simp), sub_zero]
    exact hbusy
  | true =>
    obtain ⟨-, hv⟩ := hgone hup
    rw [if_pos rfl, busySlots_of_view hv trivial, busySlots_frees rfl]

theorem givenUpSlots_cons {l : List Job} : givenUpSlots e (p :: l) =
    (if givenUp e p then Queue.freedSlots p else 0) + givenUpSlots e l := by
  rw [givenUpSlots, givenUpSlots, List.filter_cons]
  split_ifs
  · rw [List.map_cons, List.sum_cons]
  · rw [Int.zero_add]

/-- The health check of one job after the other. -/
theorem busySlots_health {l : List Job} (hids : s.view.Ids) (hnd : (l.map Job.jobid).Nodup)
    (hmem : ∀ x ∈ l, x.own ∈ s.activeJobs.map Job.own) :
    ((l.map Job.jobid).foldl (fun s jobid => s.checkHealth e jobid) s).busySlots =
      s.busySlots - givenUpSlots e l := by
  induction l generalizing s with
  | nil => exact (sub_zero _).symm
  | cons x l ih =>
    rw [List.map_cons, List.nodup_cons] at hnd
    rw [List.map_cons, List.foldl_cons]
    obtain ⟨y, hy, hown⟩ := List.mem_map.1 (hmem x List.mem_cons_self)
    have hid := Job.jobid_of_own hown
    have hone : Ops e (fun _ _ => True) s (s.checkHealth e x.jobid) :=
      .single (.health x.jobid) trivial trivial rfl
    -- the jobs that are still to be checked are as they were
    have hkeep : ∀ z ∈ l, z.own ∈ (s.checkHealth e x.jobid).activeJobs.map Job.own := by
      intro z hz
      refine ((Op.confined (e := e) (o := .health x.jobid) hids trivial rfl) z.own ?_).2
        (hmem z (List.mem_cons_of_mem x hz))
      exact fun h : z.jobid = x.jobid => hnd.1 (h ▸ List.mem_map_of_mem hz)
    rw [ih (hone.ids hids) hnd.2 hkeep, givenUpSlots_cons, ← hid,
      busySlots_checkHealth (findjob_of_mem hids hy), givenUp_own hown, freedSlots_own hown]
    omega

/-- **The health check.** -/
theorem headed_health (hids : s.view.Ids) (hs : s.Headed)
    (hslots : ∀ p ∈ s.activeJobs, 0 ≤ p.numSlots) (ho : HealthInFront e s) :
    (s.sCheckRunningHealth e).Headed := by
  have hbusy : (s.sCheckRunningHealth e).busySlots = s.busySlots - givenUpSlots e s.activeJobs :=
    busySlots_health hids (nodup_of_ids hids) fun x hx => List.mem_map_of_mem hx
  obtain hs | hrun := hs
  · have hsum : 0 ≤ givenUpSlots e s.activeJobs := List.sum_nonneg fun n hn => by
      obtain ⟨p, hp, rfl⟩ := List.mem_map.1 hn
      exact freedSlots_nonneg (hslots p (List.mem_filter.1 hp).1)
    exact .inl (by omega)
  · obtain ⟨p, l, hl, hst⟩ := runsFirst_iff.1 hrun
    cases hup : givenUp e p with
    | true => exact .inl (by rw [hbusy]; exact Int.sub_nonpos_of_le (ho p l hl hup))
    | false =>
      -- the first job is checked first, and stays as it is
      have hnd := nodup_of_ids hids
      rw [hl, List.map_cons, List.nodup_cons] at hnd
      have hp : s.findjob p.jobid = some p := findjob_of_mem hids (hl ▸ List.mem_cons_self)
      have hview := (checkHealth_spec (e := e) hp).2 hup
      have hfirst : front (s.checkHealth e p.jobid).activeJobs = some (p.jobid, .running) := by
        rw [← front_view, hview, front_view, hl, front_cons, hst]
      have hrest : Ops e (fun o _ => ∃ x ∈ l, o = .health x.jobid) (s.checkHealth e p.jobid)
          ((l.map Job.jobid).foldl (fun s jobid => s.checkHealth e jobid) (s.checkHealth e p.jobid)) :=
        Except.foldl_induction
          (R := fun s s' : Spool => Ops e (fun o _ => ∃ x ∈ l, o = .health x.jobid) s s')
          (fun _ => .refl) (fun h h' => h.trans h') _ fun {sp jobid} hmem => by
            obtain ⟨x, hx, rfl⟩ := List.mem_map.1 hmem
            exact .single (.health x.jobid) trivial ⟨x, hx, rfl⟩ rfl
      rw [sCheckRunningHealth, hl, List.map_cons, List.foldl_cons]
      refine .inr ⟨p.jobid, hrest.front (hview ▸ hids) hfirst fun o sp ho _ _ => ?_⟩
      obtain ⟨x, hx, rfl⟩ := ho
      exact fun h : x.jobid = p.jobid => hnd.1 (h ▸ List.mem_map_of_mem hx)

end Spool

namespace Server

open Spool

variable {e : Env} {s s' : Server} {sp sp' : Spool} {p : Job} {index : ℕ} {jobid k : ℤ}

/-! ### Jobs that end -/

/-- The job has ended, and those who wait for it are told. -/
theorem headed_ended {r : Result} {sp₁ : Spool} (hids : sp.view.Ids) (hs : sp.Headed)
    (hslots : ∀ p ∈ sp.activeJobs, 0 ≤ p.numSlots) (ho : sp.PartsWith fun p => p.jobid = jobid)
    (h₁ : sp.jobFinished e r jobid = .ok sp₁) (h : sp₁.checkNotifyList jobid = .ok sp') :
    sp'.Headed := by
  have hone : Ops e (fun _ _ => True) sp sp₁ := .single (.finish r jobid) trivial trivial h₁
  have hs₁ : sp₁.Headed := Op.headed_finish hids h₁ hs hslots ho
  exact Op.Harmless.headed (e := e) (o := .notify jobid) trivial (hone.ids hids) trivial h hs₁

/-- The job of a connection that is lost. -/
theorem headed_cleanJob (hids : sp.view.Ids) (hs : sp.Headed)
    (hslots : ∀ p ∈ sp.activeJobs, 0 ≤ p.numSlots) (ho : sp.PartsWith fun p => p.jobid = jobid)
    (h : cleanJob e sp jobid = .ok sp') : sp'.Headed := by
  rw [cleanJob] at h
  cases hp : sp.findjob jobid with
  | none =>
    simp only [hp, Except.ok.injEq] at h
    exact h ▸ hs
  | some p =>
    simp only [hp] at h
    split_ifs at h with hstate
    · rw [Except.bind_eq_ok] at h
      obtain ⟨sp₁, h₁, h⟩ := h
      exact headed_ended hids hs hslots ho h₁ h
    · refine Op.Harmless.headed (e := e) (o := .delete jobid) (fun x hx => ?_) hids trivial h hs
      obtain rfl := Option.some.inj (hp.symm.trans hx)
      exact fun hrun => hstate (.inl hrun)

/-- `clean_after_client_disappeared`. -/
theorem headed_clean {socket : ℤ} (hids : s.view.Ids) (hs : s.Headed)
    (hslots : ∀ p ∈ s.activeJobs, 0 ≤ p.numSlots) (ho : (s.clientCs index).hasjob →
      s.PartsWith fun p => p.jobid = (s.clientCs index).jobid)
    (h : s.cleanAfterClientDisappeared e socket index = .ok s') : s'.Headed := by
  obtain ⟨sp, hsp, rfl⟩ := clean_spec h
  show sp.Headed
  split_ifs at hsp with hjob
  · exact headed_cleanJob hids hs hslots (ho hjob) hsp
  · exact hsp ▸ hs

/-- `ENDJOB`. -/
theorem headed_endjob {r : Result} (hids : s.view.Ids) (hs : s.Headed)
    (hslots : ∀ p ∈ s.activeJobs, 0 ≤ p.numSlots)
    (ho : s.PartsWith fun p => p.jobid = (s.clientCs index).jobid)
    (h : s.endjob e index r = .ok s') : s'.Headed := by
  simp only [endjob, Except.bind_eq_ok] at h
  obtain ⟨s₁, h₁, s₂, h₂, h⟩ := h
  cases h
  rw [onSpoolM, Except.map_eq_ok] at h₁ h₂
  obtain ⟨sp₁, hsp₁, rfl⟩ := h₁
  obtain ⟨sp₂, hsp₂, rfl⟩ := h₂
  have hend : sp₂.Headed := headed_ended hids hs hslots ho hsp₁ hsp₂
  exact hend

/-! ### New jobs -/

/-- `NEWJOB`: the recount, and a job that does not run. -/
theorem headed_newjob {m : NewJob} (hids : s.view.Ids) (huser : (s.clientCs index).user < s.nusers)
    (hs : s.Headed) (ho : CountsInFront e s.activeJobs) (h : s.newjob e index m = .ok s') :
    s'.Headed := by
  have hold : ∀ {sp sp' : Spool}, sp.view.Ids → sp.Headed → Ops e (fun o sp => o.Harmless sp) sp sp' →
      sp'.Headed := fun hids hs h => h.headed hids hs fun _ _ ho _ _ => ho
  have hlock : ∀ (o : Op) (sp : Spool), o.unlocks e sp → o.Harmless sp := fun o _ ho => by
    cases o <;> first | exact ho.elim | trivial
  have hdelete : ∀ jobid (sp : Spool) p, sp.findjob jobid = some p → p.state = .holdingClient →
      (Op.delete jobid).Harmless sp := fun jobid sp p hp hst x hx => by
    obtain rfl := Option.some.inj (hp.symm.trans hx)
    simp [hst]
  obtain hlocked | ⟨sp, sp', id, hlocker, -, hids₁, huser₁, hnew, hrest⟩ :=
    newjob_answer hids huser hlock (fun _ _ => trivial) hdelete (fun _ => trivial) h
  · exact hold hids hs hlocked
  · obtain ⟨s₁, h₁, hfill⟩ : ∃ s₁, sp.sUpdateSlotsUsage e = .ok s₁ ∧
        Ops e (fun o sp => o.Harmless sp) s₁ sp' :=
      sNewjob_cases hids₁ huser₁ (fun _ _ => trivial) (fun _ _ _ _ => trivial) hnew
    -- before the recount only an old lock may have been dropped
    have hact : sp.activeJobs = s.activeJobs := by
      have hdrop : Ops e tells s.toSpool (s.toSpool.sCheckLocker e (s.clientCs index).user).1 :=
        sCheckLocker_ops _ _ fun o _ ho => by cases o <;> first | exact ho.elim | trivial
      rw [hlocker] at hdrop
      exact activeJobs_tells hdrop
    have hids₂ := (sUpdateSlotsUsage_ops hids₁ h₁).ids hids₁
    have hs₁ : s₁.Headed := CountsInFront.headed (hact ▸ ho) hids₁ h₁
    exact hold (hfill.ids hids₂) (hold hids₂ hs₁ hfill) hrest

/-! ### `KILL_ALL` -/

/-- Jobs that do not run have been taken out of the queue. -/
def Thinned (sp sp' : Spool) : Prop :=
  ∃ P : Job → Bool, sp'.activeJobs.map Job.own = (sp.activeJobs.map Job.own).filter P ∧
    ∀ p ∈ sp.activeJobs.map Job.own, p.state = .running → P p = true

theorem Thinned.of_activeJobs (h : sp'.activeJobs = sp.activeJobs) : Thinned sp sp' :=
  ⟨fun _ => true, by rw [h, List.filter_true], fun _ _ _ => rfl⟩

theorem Thinned.trans {sp'' : Spool} (h : Thinned sp sp') (h' : Thinned sp' sp'') :
    Thinned sp sp'' := by
  obtain ⟨P, hP, hrun⟩ := h
  obtain ⟨Q, hQ, hrun'⟩ := h'
  refine ⟨fun p => P p && Q p, ?_, fun p hp hst => ?_⟩
  · rw [hQ, hP, List.filter_filter]
    exact List.filter_congr fun _ _ => Bool.and_comm _ _
  · have hPp := hrun p hp hst
    have hmem : p ∈ sp'.activeJobs.map Job.own := hP ▸ List.mem_filter.2 ⟨hp, hPp⟩
    exact Bool.and_eq_true_iff.2 ⟨hPp, hrun' p hmem hst⟩

theorem plain_sDeleteJob (hids : sp.view.Ids) (h : sp.sDeleteJob jobid = .ok sp') :
    sp'.plain = sp.plain.filter fun p => p.jobid ≠ jobid := by
  obtain ⟨p, hp, hv⟩ := sDeleteJob_spec h
  obtain rfl := findjob_jobid hp
  rw [← plain_view, hv, Act.plain_removed hids (a := .delete p) (view_has hp) rfl rfl, plain_view,
    Keyed.remove_eq_filter (nodup_plain hids)]

theorem plain_cleanJob (hids : sp.view.Ids) (h : cleanJob e sp jobid = .ok sp') :
    sp'.plain = sp.plain.filter fun p => p.jobid ≠ jobid := by
  rw [cleanJob] at h
  cases hp : sp.findjob jobid with
  | none =>
    simp only [hp, Except.ok.injEq] at h
    subst h
    refine (List.filter_eq_self.2 fun x hx => ?_).symm
    obtain ⟨y, hy, rfl⟩ := List.mem_map.1 hx
    have hne : y.plain.jobid ≠ jobid := Keyed.lookup_eq_none.1 hp y hy
    exact decide_eq_true hne
  | some p =>
    simp only [hp] at h
    split_ifs at h with hstate
    · rw [Except.bind_eq_ok] at h
      obtain ⟨sp₁, h₁, h⟩ := h
      rw [plain_checkNotifyList h, plain_jobFinished hids h₁]
    · exact plain_sDeleteJob hids h

theorem confined_cleanJob (hids : sp.view.Ids) (h : cleanJob e sp jobid = .ok sp') :
    Confined (· = jobid) sp sp' :=
  ((cleanJob_ops h).invariant (I := fun s => s.view.Ids ∧ Confined (· = jobid) sp s)
    ⟨hids, .refl⟩ fun {s s' o} hI ho hpre hrun => by
      refine ⟨(Op.moves hI.1 hpre hrun).ids hI.1, hI.2.trans ?_⟩
      refine SameBut.mono (Op.confined hI.1 hpre hrun) fun k hk => ?_
      cases o with
      | finish r k' => exact hk.trans ho.2.1
      | delete k' => exact hk.trans ho.1
      | notify k' => exact hk.elim
      | _ => exact ho.elim).2

/-- A list of which the order is known without some fields, and the jobs with them. -/
theorem map_own_of_plain {l l' : List Job} {P : Job → Bool} (hnd : (l.map Job.jobid).Nodup)
    (hplain : l'.map Job.plain = (l.filter P).map Job.plain)
    (hown : ∀ x ∈ l', ∃ y ∈ l, y.own = x.own) : l'.map Job.own = (l.filter P).map Job.own := by
  have hlen : l'.length = (l.filter P).length := by
    have hlen := congrArg List.length hplain
    rwa [List.length_map, List.length_map] at hlen
  refine List.ext_getElem (by rw [List.length_map, List.length_map, hlen]) fun i hi hi' => ?_
  rw [List.getElem_map, List.getElem_map]
  rw [List.length_map] at hi hi'
  have hsame : l'[i].plain = (l.filter P)[i].plain := by
    rw [← List.getElem_map Job.plain (h := by rwa [List.length_map]),
      ← List.getElem_map Job.plain (h := by rwa [List.length_map])]
    exact List.getElem_of_eq hplain _
  obtain ⟨y, hy, heq⟩ := hown l'[i] (List.getElem_mem hi)
  -- the ids agree place by place, and each of them belongs to one record
  have hid : y.jobid = (l.filter P)[i].jobid := by
    have hid := congrArg Job.jobid hsame
    exact (Job.jobid_of_own heq).trans hid
  rw [← heq, Keyed.eq_of_key hnd hy (List.mem_filter.1 (List.getElem_mem hi')).1 hid]

/-- `clean_after_client_disappeared` of a connection whose job does not run. -/
theorem thinned_clean {socket : ℤ} (hids : s.view.Ids)
    (hidle : s.jobIsRunning (s.clientCs index).jobid = false)
    (h : s.cleanAfterClientDisappeared e socket index = .ok s') : Thinned s.toSpool s'.toSpool := by
  obtain ⟨sp, hsp, rfl⟩ := clean_spec h
  show Thinned s.toSpool sp
  split_ifs at hsp with hjob
  · have hplain := plain_cleanJob hids hsp
    -- the job of the connection is gone, so every other one is as it was
    have hnot : ∀ x ∈ sp.activeJobs, x.jobid ≠ (s.clientCs index).jobid := by
      intro x hx
      have hmem : x.plain ∈ sp.plain := List.mem_map_of_mem hx
      rw [hplain] at hmem
      exact of_decide_eq_true (List.mem_filter.1 hmem).2
    refine ⟨fun p => p.jobid ≠ (s.clientCs index).jobid, ?_, fun p hp hst => decide_eq_true fun hid => ?_⟩
    · rw [List.filter_map]
      refine map_own_of_plain (nodup_of_ids hids) ?_ fun x hx =>
        SameBut.exists_own (confined_cleanJob hids hsp) hx (hnot x hx)
      exact hplain.trans List.filter_map
    · -- a connection with a running job is not closed
      obtain ⟨y, hy, rfl⟩ := List.mem_map.1 hp
      have hfind : s.findjob y.jobid = some y := findjob_of_mem hids hy
      have hyid : y.jobid = (s.clientCs index).jobid := hid
      rw [jobIsRunning, ← hyid, hfind] at hidle
      exact of_decide_eq_false hidle hst
  · exact .of_activeJobs (hsp ▸ rfl)

theorem thinned_removeQueuesLoop {user fuel i : ℕ} (hids : s.view.Ids)
    (h : removeQueuesLoop e user fuel i s = .ok s') :
    s'.view.Ids ∧ Thinned s.toSpool s'.toSpool := by
  induction fuel generalizing i s with
  | zero =>
    cases h
    exact ⟨hids, .of_activeJobs rfl⟩
  | succ fuel ih =>
    rw [removeQueuesLoop] at h
    split_ifs at h with hi hrem
    · rw [Except.bind_eq_ok] at h
      obtain ⟨s₁, h₁, h⟩ := h
      obtain ⟨hids', hrest⟩ := ih ((clean_ops h₁).ids hids) h
      exact ⟨hids', (thinned_clean hids hrem.2 h₁).trans hrest⟩
    · exact ih hids h
    · cases h
      exact ⟨hids, .of_activeJobs rfl⟩

theorem front_filter_own {l : List Job} :
    front ((l.map Job.own).filter (stays e)) = front (l.filter (stays e)) := by
  have hstays : (l.map Job.own).filter (stays e) = (l.filter (stays e)).map Job.own := by
    rw [List.filter_map]
    exact congrArg _ (List.filter_congr fun _ _ => rfl)
  rw [hstays]
  exact front_map (f := Job.own) (fun _ => rfl) fun _ => rfl

theorem Thinned.front (h : Thinned sp sp')
    (hfirst : front (sp.activeJobs.filter (stays e)) = some (k, .running)) :
    front (sp'.activeJobs.filter (stays e)) = some (k, .running) := by
  obtain ⟨P, hP, hrun⟩ := h
  rw [← front_filter_own] at hfirst ⊢
  have hcomm : (sp'.activeJobs.map Job.own).filter (stays e) =
      ((sp.activeJobs.map Job.own).filter (stays e)).filter P := by
    rw [hP, List.filter_filter, List.filter_filter]
    exact List.filter_congr fun _ _ => Bool.and_comm _ _
  rw [hcomm]
  obtain ⟨x, l, hl, hst⟩ := runsFirst_iff.1 ⟨k, hfirst⟩
  have hmem : x ∈ (sp.activeJobs.map Job.own).filter (stays e) := hl ▸ List.mem_cons_self
  rw [hl] at hfirst ⊢
  rw [List.filter_cons_of_pos (hrun x (List.mem_filter.1 hmem).1 hst)]
  exact hfirst

theorem Thinned.idles (h : Thinned sp sp') (hidle : Idles e sp.activeJobs) :
    Idles e sp'.activeJobs := by
  obtain ⟨P, hP, -⟩ := h
  intro x hx hst
  have hmem : x.own ∈ sp'.activeJobs.map Job.own := List.mem_map_of_mem hx
  rw [hP] at hmem
  obtain ⟨y, hy, hown⟩ := List.mem_map.1 (List.mem_filter.1 hmem).1
  have hend := hidle y hy ((Job.state_of_own hown).trans hst)
  rwa [timedOut_own hown, isDead_own hown, Job.numSlots_of_own hown] at hend

/-- The first job that stays runs, and no connection that may be closed carries it; or none that stays
takes slots. -/
def KillsInFront (e : Env) (s : Server) (index : ℕ) : Prop :=
  (∃ p l, s.activeJobs.filter (stays e) = p :: l ∧ p.state = .running ∧ ∀ k : ℕ, index ≤ k →
    (k : ℤ) < s.nconnections → (s.clientCs k).hasjob → (s.clientCs k).jobid ≠ p.jobid) ∨
  Idles e s.activeJobs

/-- **`KILL_ALL`.** -/
theorem headed_killAll {format : ListFormat} (hindex : index < s.nconnections) (hids : s.view.Ids)
    (ho : s.KillsInFront e index) (h : s.killAll e index format jobid = .ok s') : s'.Headed := by
  simp only [killAll, Except.bind_eq_ok] at h
  obtain ⟨s₁, h₁, s₂, h₂, h⟩ := h
  set s₀ := s.onSpool fun sp => sp.sKillAllJobs (s.clientCs index).socket (s.clientCs index).user
  have hder₀ : Derived s s₀ := Derived.refl
  have hder : Derived s s₁ := (removeQueuesLoop_moves hder₀ h₁).2.1
  have hsent : Ops e tells s.toSpool s₀.toSpool := sKillAllJobs_ops fun _ _ => trivial
  obtain ⟨hids₁, hthin⟩ := thinned_removeQueuesLoop (hsent.ids hids) h₁
  have hact : s₀.activeJobs = s.activeJobs := activeJobs_tells hsent
  rw [onSpoolM, Except.map_eq_ok] at h₂
  obtain ⟨sp, hsp, rfl⟩ := h₂
  obtain ⟨sp₁, husage, hlist⟩ : ∃ sp₁, s₁.toSpool.sUpdateSlotsUsage e = .ok sp₁ ∧
      Ops e tells sp₁ sp := sList_cases (fun _ _ => trivial) hsp
  have hids₂ := (sUpdateSlotsUsage_ops hids₁ husage).ids hids₁
  obtain ⟨sp', hdelete, rfl⟩ := removeConnection_spec h
  show sp'.Headed
  obtain ⟨p, l, hl, hst, hnot⟩ | hidle := ho
  · have hfirst : front (s₀.activeJobs.filter (stays e)) = some (p.jobid, .running) := by
      rw [hact, hl, front_cons, hst]
    have hcounted := front_usage hids₁ husage (hthin.front hfirst)
    rw [← activeJobs_tells hlist] at hcounted
    split_ifs at hdelete with hjob
    · obtain ⟨k, hik, hk, hid, -, hjob'⟩ := hder.2 index hindex
      -- the connection has moved up from `k`, where it did not carry the first job
      have hne : (s₁.clientCs index).jobid ≠ p.jobid := hid.trans_ne (hnot k hik hk (hjob' hjob))
      refine .inr ⟨p.jobid, Op.front_spared (e := e) (o := .delete (s₁.clientCs index).jobid)
        (hlist.ids hids₂) trivial hdelete hne hcounted⟩
    · exact hdelete ▸ .inr ⟨p.jobid, hcounted⟩
  · have hcounted : sp.busySlots ≤ 0 :=
      (busySlots_tells hlist).trans_le ((hthin.idles (hact.symm ▸ hidle)).usage hids₁ husage)
    split_ifs at hdelete with hjob
    · obtain ⟨x, -, hv⟩ := sDeleteJob_spec hdelete
      have hbusy := busySlots_of_view (a := .delete x) hv trivial
      rw [busySlots_none rfl rfl] at hbusy
      exact .inl (hbusy.trans_le hcounted)
    · exact hdelete ▸ .inl hcounted

/-! ### Messages -/

theorem slots_nonneg (h : sp.view.Tame) : ∀ p ∈ sp.activeJobs, 0 ≤ p.numSlots := fun p hp =>
  (h p.strip (List.mem_map_of_mem hp)).slots

/-- `REMOVEJOB` takes no running job. -/
theorem headed_removejob (hids : s.view.Ids) (htame : s.view.Tame) (hs : s.Headed)
    (h : s.removejob e index jobid = .ok s') : s'.Headed := by
  refine ((removejob_ops hids h).invariant
    (I := fun sp => sp.view.Ids ∧ sp.view.Tame ∧ sp.Headed) ⟨hids, htame, hs⟩
    fun {sp sp' o} hI ho hpre hrun => ?_).2.2
  obtain ⟨hids, htame, hs⟩ := hI
  have hmoves := Op.moves hids hpre hrun
  -- that no job has a negative number of slots is kept along
  have htame' := hmoves.invariant (I := fun w => w.Ids ∧ w.Tame) ⟨hids, htame⟩
    fun {w a} hI ha hg => ⟨Act.ids_apply hI.1 hg, Act.tame_apply hI.1 hI.2 hg ?_⟩
  · refine ⟨hmoves.ids hids, htame'.2, Op.Harmless.headed ?_ hids hpre hrun hs⟩
    cases o with
    | send | removeFinished => trivial
    | removeActive p => exact slots_nonneg htame p (Keyed.mem_of_lookup hpre.1)
    | _ => exact ho.elim
  · cases o with
    | send | removeActive | removeFinished => cases a <;> first | exact ha.elim | trivial
    | _ => exact ho.elim

/-- When a running job is in front after the answer to a message, if one was before. -/
def MessageInFront (e : Env) (s : Server) (index : ℕ) : Msg → Prop
  | .newjob _ => CountsInFront e s.activeJobs
  | .endjob _ => s.PartsWith fun p => p.jobid = (s.clientCs index).jobid
  | .unknown => (s.clientCs index).hasjob → s.PartsWith fun p => p.jobid = (s.clientCs index).jobid
  | .killAll _ _ => s.KillsInFront e index
  -- a client that has a job does not ask for anything else
  | .request r => (r.closes → (s.clientCs index).hasjob = false) ∧
      AnswersInFront e s.toSpool (s.clientCs index).user r
  | _ => True

theorem headed_handle {m : Msg} (hs : s.Sound) (htame : s.view.Tame) (hhead : s.Headed)
    (hindex : index < s.nconnections) (ho : s.MessageInFront e index m)
    (h : s.handle e index m = .ok s') : s'.Headed := by
  have hslots := slots_nonneg htame
  cases m with
  | newjob m => exact headed_newjob hs.ids (hs.users index hindex) hhead ho h
  | endjob r => exact headed_endjob hs.ids hhead hslots ho h
  | removejob jobid => exact headed_removejob hs.ids htame hhead h
  | killAll format jobid => exact headed_killAll hindex hs.ids ho h
  | unknown => exact headed_clean hs.ids hhead hslots ho h
  | request r =>
    obtain ⟨hjob, ho⟩ := ho
    rw [handle, handleRequest, Except.bind_eq_ok] at h
    obtain ⟨s₁, h₁, h⟩ := h
    rw [onSpoolM, Except.map_eq_ok] at h₁
    obtain ⟨sp, hsp, rfl⟩ := h₁
    have hend : sp.Headed := headed_answer hs.ids hhead hslots ho hsp
    split_ifs at h with hclose
    · obtain ⟨sp', hsp', rfl⟩ := removeConnection_spec h
      rw [if_neg (by simp [hjob hclose])] at hsp'
      exact hsp' ▸ hend
    · cases h
      exact hend
  | runjobOk | reconnect | killServer =>
    refine (handle_ops hs hindex h).headed hs.ids hhead fun o sp ho _ _ => ?_
    cases o <;> trivial

/-! ### Steps -/

/-- What a step may find, so that after it the first job runs or no slots are busy.  The slots that
it adds fit into an `int`: `busy_slots` is the number that the property is about. -/
def KeepsFront (l : Env × Input) (s : Server) : Prop :=
  asksSlots l s ∧ IntsFit l s ∧
  match l.2 with
  | .message index m => s.MessageInFront l.1 index m
  | .disconnect index => (s.clientCs index).hasjob →
      s.PartsWith fun p => p.jobid = (s.clientCs index).jobid
  | .health => HealthInFront l.1 s.toSpool
  | .schedule => RunsFirst s.activeJobs ∨ ¬s.Startable l.1 ∨ FirstInTurn l.1 s.toSpool
  -- the jobs that are read from the database
  | .restart => CountsInFront l.1
      ((rowsInOrder l.1 s.dbJobs).filterMap (restoredJob l.1 (opened l.1 s.toSpool)))
  | _ => True

/-- The lock of the server may be dropped before a message is read. -/
theorem timeoutLock_cases : sp.timeoutLock e = sp ∨ sp.timeoutLock e = { sp with userLocker := none } := by
  rw [timeoutLock]
  split
  · exact .inl rfl
  · rename_i u _
    generalize (if (sp.users u).uid = 0 then (86400 : ℤ) else 30) = limit
    split_ifs
    · exact .inr rfl
    · exact .inl rfl

theorem MessageInFront.timeoutLock {m : Msg} (h : s.MessageInFront e index m) :
    (s.onSpool fun sp => sp.timeoutLock e).MessageInFront e index m := by
  have hcases : s.toSpool.timeoutLock e = s.toSpool ∨
      s.toSpool.timeoutLock e = { s.toSpool with userLocker := none } := timeoutLock_cases
  rw [onSpool]
  obtain heq | heq := hcases
  · rw [heq]
    exact h
  · rw [heq]
    exact h

theorem headed_serverMain {s₀ : Spool} (ho : CountsInFront e
      ((rowsInOrder e s₀.dbJobs).filterMap (restoredJob e (opened e s₀))))
    (h : s₀.serverMain e = .ok sp) : sp.Headed := by
  rw [serverMain, Except.bind_eq_ok] at h
  obtain ⟨sp₁, h₁, h⟩ := h
  have hs₁ : sp₁.Headed := CountsInFront.headed (activeJobs_reload ▸ ho) reload_reloaded.ids h₁
  split_ifs at h
  · exact headed_of_view (view_cgroupsRestoreAllCpuBind h) hs₁
  · cases h
    exact hs₁

/-- **A step that keeps the front** leaves a running job there, or no slots busy. -/
theorem headed_step {C : Config} {l : Env × Input} (hs : s.Sound) (htame : s.view.Tame)
    (hhead : s.Headed) (ho : KeepsFront l s) (h : Step C s l s') : s'.Headed := by
  obtain ⟨e, i⟩ := l
  obtain ⟨-, hen, h⟩ := h
  obtain ⟨-, -, ho⟩ := ho
  have hslots := slots_nonneg htame
  dsimp only at hen h ho
  cases i with
  | message index m =>
    rw [step, clientRead] at h
    have hview : (s.onSpool fun sp => sp.timeoutLock e).view = s.view := view_timeoutLock e
    exact headed_handle hs.timeoutLock (hview ▸ htame) (headed_of_view hview hhead) hen ho.timeoutLock h
  | disconnect index => exact headed_clean hs.ids hhead hslots ho h
  | health =>
    cases h
    exact headed_health hs.ids hhead hslots ho
  | schedule =>
    rw [step, Except.bind_eq_ok] at h
    obtain ⟨s₁, h₁, h⟩ := h
    rw [onSpoolM, Except.map_eq_ok] at h₁
    obtain ⟨sp, hsp, rfl⟩ := h₁
    cases h
    have hids : sp.view.Ids := (nextRunJob_ops hs.ids hsp).ids hs.ids
    have hrest : Ops e (fun o _ => ∃ p, o = .freeze p) sp (sp.sCheckHoldon e) :=
      sCheckHoldon_ops fun p _ => ⟨p, rfl⟩
    have hend : (sp.sCheckHoldon e).Headed :=
      hrest.headed hids (headed_nextRunJob hs.ids hhead ho hsp) fun o sp ho _ _ => by
        obtain ⟨p, rfl⟩ := ho
        trivial
    exact hend
  | restart =>
    rw [step, Except.bind_eq_ok] at h
    obtain ⟨sp, hsp, h⟩ := h
    cases h
    have hend : sp.Headed := headed_serverMain ho hsp
    exact hend
  | accept socket uid =>
    refine (step_ops hs hen (by simp) h).headed hs.ids hhead fun o sp ho _ _ => ?_
    obtain ⟨r, rfl⟩ := ho
    trivial
  | cleanup =>
    refine (step_ops hs hen (by simp) h).headed hs.ids hhead fun o sp ho _ _ => ?_
    obtain ⟨jobid, p, rfl, hp, hst, -⟩ := ho
    intro x hx
    obtain rfl := Option.some.inj (hp.symm.trans hx)
    simp [hst]

end Server

end TaskSpooler
