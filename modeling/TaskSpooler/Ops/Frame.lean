import TaskSpooler.Ops.Moves
import TaskSpooler.Store.Ledger

/-!
# The jobs that an operation leaves alone

An operation writes to the record of one job, `Op.Touches`.  In the other records it changes at most
the list of the jobs to notify and the error level that dependencies leave (`Op.confined`).  So an
invariant of a job with all its fields has to be checked only for the job that an operation is about.
-/

namespace TaskSpooler

/-- A job without the fields that operations on other jobs write to. -/
def Job.own (p : Job) : Job := { p with notifyErrorlevelTo := [], dependencyErrorlevel := 0 }

namespace Job

variable {p q : Job}

theorem jobid_of_own (h : p.own = q.own) : p.jobid = q.jobid := by
  have hid := congrArg jobid h
  exact hid

theorem state_of_own (h : p.own = q.own) : p.state = q.state := by
  have hst := congrArg state h
  exact hst

theorem user_of_own (h : p.own = q.own) : p.user = q.user := by
  have huser := congrArg user h
  exact huser

theorem pid_of_own (h : p.own = q.own) : p.pid = q.pid := by
  have hpid := congrArg pid h
  exact hpid

theorem numSlots_of_own (h : p.own = q.own) : p.numSlots = q.numSlots := by
  have hslots := congrArg numSlots h
  exact hslots

end Job

/-- The jobs whose ids are not among `T` are the same in both lists. -/
def SameBut (T : ℤ → Prop) (l l' : List Job) : Prop :=
  ∀ x : Job, ¬T x.jobid → (x ∈ l'.map Job.own ↔ x ∈ l.map Job.own)

namespace SameBut

variable {T T' : ℤ → Prop} {l l' l'' : List Job} {k : ℤ} {p : Job} {f : Job → Job}

theorem refl : SameBut T l l := fun _ _ => Iff.rfl

theorem trans (h : SameBut T l l') (h' : SameBut T l' l'') : SameBut T l l'' :=
  fun x hx => (h' x hx).trans (h x hx)

theorem mono (h : SameBut T l l') (himp : ∀ k, T k → T' k) : SameBut T' l l' :=
  fun x hx => h x fun hT => hx (himp _ hT)

theorem of_map (h : l'.map Job.own = l.map Job.own) : SameBut T l l' := fun x _ => by rw [h]

theorem of_perm (h : l'.Perm l) : SameBut T l l' := fun _ _ => (h.map Job.own).mem_iff

theorem modify (hf : ∀ p, (f p).jobid = p.jobid) (hk : T k) :
    SameBut T l (Keyed.modify Job.jobid k f l) := by
  have hne : ∀ {x y : Job}, ¬T x.jobid → y.own = x → y.jobid ≠ k := by
    rintro x y hx rfl rfl
    exact hx hk
  intro x hx
  simp only [List.mem_map]
  constructor
  · rintro ⟨y, hy, hyx⟩
    obtain ⟨z, -, hz, rfl⟩ | ⟨hy, -⟩ := Keyed.mem_modify.1 hy
    · exact absurd ((hf z).trans hz) (hne hx hyx)
    · exact ⟨y, hy, hyx⟩
  · rintro ⟨y, hy, hyx⟩
    exact ⟨y, Keyed.mem_modify.2 (.inr ⟨hy, hne hx hyx⟩), hyx⟩

theorem remove (hnd : (l.map Job.jobid).Nodup) (hk : T k) :
    SameBut T l (Keyed.remove Job.jobid k l) := by
  intro x hx
  simp only [List.mem_map]
  constructor
  · rintro ⟨y, hy, hyx⟩
    exact ⟨y, ((Keyed.mem_remove hnd).1 hy).1, hyx⟩
  · rintro ⟨y, hy, rfl⟩
    refine ⟨y, (Keyed.mem_remove hnd).2 ⟨hy, ?_⟩, rfl⟩
    rintro rfl
    exact hx hk

theorem append (hk : T p.jobid) : SameBut T l (l ++ [p]) := by
  intro x hx
  rw [List.map_append, List.mem_append, List.map_singleton, List.mem_singleton]
  refine ⟨fun h => h.resolve_right ?_, .inl⟩
  rintro rfl
  exact hx hk

/-- A job of the later list that is not among `T` is one of the earlier list. -/
theorem exists_own (h : SameBut T l l') (hp : p ∈ l') (hT : ¬T p.jobid) :
    ∃ p₀ ∈ l, p₀.own = p.own :=
  List.mem_map.1 ((h p.own hT).1 (List.mem_map_of_mem hp))

end SameBut

namespace Queue

variable {q : Queue} {T : ℤ → Prop} {p : Job} {k : ℤ} {f : Job → Job}

theorem own_modAnyJob (hf : ∀ p, (f p).own = p.own) :
    (q.modAnyJob k f).activeJobs.map Job.own = q.activeJobs.map Job.own := by
  rw [modAnyJob]
  split_ifs
  · exact Keyed.map_modify fun p _ _ => hf p
  · rfl

theorem sameBut_freeCores : SameBut (· = p.jobid) q.activeJobs (q.freeCores p).activeJobs := by
  rw [freeCores]
  split_ifs
  · exact .refl
  · have hmod := SameBut.modify (T := (· = p.jobid)) (k := p.jobid) (f := Job.freed)
      (l := q.activeJobs) (fun _ => rfl) rfl
    cases p.user <;> exact hmod

theorem sameBut_start : SameBut (· = p.jobid) q.activeJobs (q.start p).activeJobs := by
  have hmod := SameBut.modify (T := (· = p.jobid)) (k := p.jobid) (f := Job.started)
    (l := q.activeJobs) (fun _ => rfl) rfl
  rw [start]
  cases p.user <;> exact hmod

theorem own_notifyErrorlevel :
    (q.notifyErrorlevel p).activeJobs.map Job.own = q.activeJobs.map Job.own := by
  have hfold : ∀ (l : List ℤ) (q : Queue), (l.foldl (fun q jobid =>
      q.modAnyJob jobid (Job.addErrorlevel p.result.errorlevel)) q).activeJobs.map Job.own =
        q.activeJobs.map Job.own := by
    intro l
    induction l with
    | nil => exact fun q => rfl
    | cons k l ih =>
      intro q
      rw [List.foldl_cons, ih]
      exact own_modAnyJob fun _ => rfl
  exact hfold _ _

theorem sameBut_finish {r : Result} : SameBut (· = p.jobid) q.activeJobs (q.finish r p).activeJobs := by
  have hdone := SameBut.modify (T := (· = p.jobid)) (k := p.jobid) (f := Job.done r)
    (l := (q.freeCores p).activeJobs) (fun _ => rfl) rfl
  exact (sameBut_freeCores.trans hdone).trans (.of_map own_notifyErrorlevel)

theorem own_notifiedBy {ds : List ℤ} :
    (q.notifiedBy ds k).activeJobs.map Job.own = q.activeJobs.map Job.own := by
  have hfold : ∀ (ds : List ℤ) (l : List Job), (ds.foldl (fun l d =>
      Keyed.modify Job.jobid d (Job.addNotify k) l) l).map Job.own = l.map Job.own := by
    intro ds
    induction ds with
    | nil => exact fun l => rfl
    | cons d ds ih =>
      intro l
      rw [List.foldl_cons, ih]
      exact Keyed.map_modify fun _ _ _ => rfl
  exact hfold _ _

end Queue

namespace Spool

variable {e : Env} {s s' s'' : Spool} {T T' : ℤ → Prop} {p : Job} {jobid : ℤ} {f : Job → Job}

/-- Only the records of the jobs `T` change. -/
def Confined (T : ℤ → Prop) (s s' : Spool) : Prop := SameBut T s.activeJobs s'.activeJobs

namespace Confined

theorem refl : Confined T s s := SameBut.refl

theorem trans (h : Confined T s s') (h' : Confined T s' s'') : Confined T s s'' := SameBut.trans h h'

theorem of_eq (h : s'.activeJobs = s.activeJobs) : Confined T s s' := .of_map (by rw [h])

theorem of_map (h : s'.activeJobs.map Job.own = s.activeJobs.map Job.own) : Confined T s s' :=
  SameBut.of_map h

theorem modJob (hf : ∀ p, (f p).jobid = p.jobid) : Confined (· = jobid) s (s.modJob jobid f) :=
  SameBut.modify hf rfl

theorem ite {c : Prop} [Decidable c] {s₁ s₂ : Spool} (h₁ : Confined T s s₁)
    (h₂ : Confined T s s₂) : Confined T s (if c then s₁ else s₂) := by
  split_ifs
  · exact h₁
  · exact h₂

end Confined

theorem confined_freeCores : Confined (· = p.jobid) s (s.freeCores p) := Queue.sameBut_freeCores

theorem confined_freeBind : Confined (· = p.jobid) s (s.freeBind e p) := by
  have hfree : Confined (· = p.jobid) s (s.freeAlloc e p.cpuAlloc) := .of_eq (activeJobs_freeAlloc _)
  exact hfree.trans (.modJob fun _ => rfl)

theorem activeJobs_cgroupsSetCpuset {pid : ℤ} {a : CpuBind.CpuAlloc} :
    (s.cgroupsSetCpuset e jobid pid a).activeJobs = s.activeJobs := by
  unfold cgroupsSetCpuset
  split_ifs
  · rfl
  · exact activeJobs_mkdirCgroup

theorem activeJobs_cgroupsCreateJob : (s.cgroupsCreateJob p).activeJobs = s.activeJobs := by
  unfold cgroupsCreateJob
  split_ifs
  · rfl
  · exact activeJobs_mkdirCgroup

theorem confined_bindCpus : Confined (· = p.jobid) s (s.bindCpus e p) := by
  have hmod : ∀ (s₁ : Spool) (ptr : Option ℕ), s₁.activeJobs = s.activeJobs →
      Confined (· = p.jobid) s (s₁.modJob p.jobid fun p => { p with cpuAlloc := ptr }) :=
    fun s₁ ptr h => (Confined.of_eq h).trans (.modJob fun _ => rfl)
  unfold bindCpus
  split
  · exact (hmod _ _ rfl).trans (.of_eq activeJobs_cgroupsSetCpuset)
  · exact hmod _ _ rfl

theorem confined_pauseJobConfig : Confined (· = p.jobid) s (s.pauseJobConfig e p) := by
  unfold pauseJobConfig
  split_ifs
  · refine SameBut.modify ?_ rfl
    exact fun _ => rfl
  · exact .refl

theorem confined_rerunJobConfig : Confined (· = p.jobid) s (s.rerunJobConfig e p) := by
  unfold rerunJobConfig
  split_ifs
  · refine SameBut.modify ?_ rfl
    exact fun _ => rfl
  · exact .refl

theorem confined_configRunning : Confined (· = p.jobid) s (s.configRunning e p) := by
  have hthaw : Confined (· = p.jobid) s (if s.isSleep e p = 1 then s.cgroupsThawJob p else s) :=
    .ite (.of_eq rfl) .refl
  unfold configRunning
  dsimp only
  set s₁ := if s.isSleep e p = 1 then s.cgroupsThawJob p else s
  have hstart : Confined (· = p.jobid) s₁ ((s₁.onQueue fun q => q.start p).updateDb p.jobid
      (Job.setWallTime p.wallTime.natAbs)) := Queue.sameBut_start
  have hrun := (hthaw.trans hstart).trans (confined_rerunJobConfig (e := e))
  exact .ite (hrun.trans (confined_bindCpus (p := { p with numAllocated := p.numSlots }))) hrun

theorem confined_safePauseJob : Confined (· = p.jobid) s (s.safePauseJob e p) := by
  have hfreeze : Confined (· = p.jobid) s (s.cgroupsFreezeJob p) := .of_eq rfl
  exact ((hfreeze.trans confined_freeCores).trans confined_freeBind).trans confined_pauseJobConfig

theorem confined_sRelegateJob : Confined (· = p.jobid) s (s.sRelegateJob e p) := by
  have hpause : Confined (· = p.jobid) s (if p.state = .running then s.safePauseJob e p else s) :=
    .ite confined_safePauseJob .refl
  exact hpause.trans (.modJob fun _ => rfl)

theorem confined_checkHealth : Confined (· = jobid) s (s.checkHealth e jobid) := by
  unfold checkHealth
  cases hp : s.findjob jobid with
  | none => exact .refl
  | some p =>
    obtain rfl := findjob_jobid hp
    refine .ite (.ite ?_ (.modJob fun _ => rfl)) .refl
    have habn : Confined (· = p.jobid) s (s.modJob p.jobid (Job.setState .abnormal)) :=
      .modJob fun _ => rfl
    exact ((habn.trans confined_freeCores).trans confined_freeBind).trans (.of_eq activeJobs_defrag)

theorem confined_dropJob (jobid : ℤ) (hnd : (s.activeJobs.map Job.jobid).Nodup) :
    Confined (· = jobid) s (s.onQueue fun q => q.dropJob jobid) := SameBut.remove hnd rfl

theorem confined_jobFinished {r : Result} (hids : s.view.Ids) (h : s.jobFinished e r jobid = .ok s') :
    Confined (· = jobid) s s' := by
  rw [jobFinished] at h
  split_ifs at h
  cases hp : s.findjob jobid with
  | none => simp [hp] at h
  | some p =>
    simp only [hp] at h
    obtain rfl := findjob_jobid hp
    split at h
    · cases h
    · cases h
      have hend : Confined (· = p.jobid) s ((s.onQueue fun q => q.finish r p).modJob p.jobid
          (finishInfo e r)) :=
        (show Confined _ s (s.onQueue fun q => q.finish r p) from Queue.sameBut_finish).trans
          (.modJob fun _ => rfl)
      have hmap : ((s.onQueue fun q => q.finish r p).modJob p.jobid (finishInfo e r)).activeJobs.map
          Job.jobid = s.activeJobs.map Job.jobid := by
        have hinfo := Keyed.map_modify (c := Job.jobid) (k := p.jobid) (f := finishInfo e r)
          (l := (s.toQueue.finish r p).activeJobs) (g := Job.jobid) fun _ _ _ => rfl
        exact hinfo.trans (congrArg Prod.fst (Queue.ids_finish (q := s.toQueue) (p := p) (r := r)))
      refine (hend.trans (confined_dropJob _ (hmap ▸ nodup_of_ids hids))).trans (.of_eq ?_)
      exact activeJobs_newFinishedJob

theorem confined_sDeleteJob (hids : s.view.Ids) (h : s.sDeleteJob jobid = .ok s') :
    Confined (· = jobid) s s' := by
  rw [sDeleteJob] at h
  split at h
  · cases h
  · cases h
    exact confined_dropJob _ (nodup_of_ids hids)

theorem confined_sMarkJobRunning (h : s.sMarkJobRunning e jobid = .ok s') :
    Confined (· = jobid) s s' := by
  rw [sMarkJobRunning] at h
  cases hp : s.findjob jobid with
  | none => simp only [hp, reduceCtorEq] at h
  | some p =>
    simp only [hp] at h
    obtain rfl := findjob_jobid hp
    have hout : Confined (· = p.jobid) s (s.modJob p.jobid
        (Job.setOutput (p.setOutput (p.outputFilename.or (e.stdoutOf p.pid))).outputFilename)) :=
      .modJob fun _ => rfl
    split_ifs at h
    · cases h
      exact hout.trans (.modJob fun _ => rfl)
    · cases h
      exact hout.trans confined_configRunning

theorem confined_dispatch {uid : ℕ} (h : s.dispatch e uid p = .ok s') :
    Confined (· = p.jobid) s s' := by
  simp only [dispatch, Except.bind_eq_ok] at h
  obtain ⟨s₁, h₁, s₂, h₂, h⟩ := h
  cases h
  have htake : Confined (· = p.jobid) s s₁ := by
    rw [takeJob] at h₁
    split_ifs at h₁
    · have hcount : Confined (· = p.jobid) s (s.onQueue fun q => q.uncountQueued (some uid)) :=
        .of_eq rfl
      exact hcount.trans (confined_sMarkJobRunning h₁)
    · cases h₁
      exact confined_configRunning
  obtain ⟨x, -, rfl⟩ := sSendRunjob_spec h₂
  exact htake.trans (.of_eq rfl)

theorem confined_removeActive (hids : s.view.Ids) (h : s.removeActive e p = .ok s') :
    Confined (· = p.jobid) s s' := by
  rw [removeActive, Except.bind_eq_ok] at h
  obtain ⟨s₁, h₁, h⟩ := h
  set s₀ := ((s.deleteJobsDb p.jobid).modJob p.jobid Job.gone).onQueue fun q =>
    q.notifyErrorlevel p.gone
  have hgone : Confined (· = p.jobid) s s₀ := by
    have hmod : Confined (· = p.jobid) s ((s.deleteJobsDb p.jobid).modJob p.jobid Job.gone) :=
      SameBut.modify (fun _ => rfl) rfl
    exact hmod.trans (.of_map Queue.own_notifyErrorlevel)
  have hids₀ : s₀.activeJobs.map Job.jobid = s.activeJobs.map Job.jobid := by
    have hnotify := congrArg Prod.fst (Queue.ids_notifyErrorlevel (p := p.gone)
      (q := ((s.deleteJobsDb p.jobid).modJob p.jobid Job.gone).toQueue))
    exact hnotify.trans (Keyed.map_modify fun _ _ _ => rfl)
  have hact := checkNotifyList_activeJobs h₁
  have hnd : (s₁.activeJobs.map Job.jobid).Nodup := by
    rw [hact, hids₀]
    exact nodup_of_ids hids
  have hdrop := (hgone.trans (.of_eq hact)).trans (confined_dropJob p.jobid hnd)
  dsimp only at h
  split_ifs at h
  · cases h
    exact hdrop
  · cases h
    refine hdrop.trans (Confined.trans ?_ (.of_eq activeJobs_newFinishedJob))
    refine Confined.trans ?_ (.of_eq (activeJobs_defrag.trans (activeJobs_freeAlloc _)))
    have hlog : ∀ s₂ : Spool, Confined (· = p.jobid) s₂ ((s₂.log (.removed p.gone)).freeCores p.gone) :=
      fun s₂ => Confined.trans (.of_eq rfl) (confined_freeCores (p := p.gone))
    refine (hlog _).trans (.of_eq ?_)
    unfold cgroupsCleanJob
    split_ifs <;> rfl

theorem confined_removeFinished (h : s.removeFinished p = .ok s') : Confined T s s' := by
  rw [removeFinished, Except.bind_eq_ok] at h
  obtain ⟨s₁, h₁, h⟩ := h
  have hact := checkNotifyList_activeJobs h₁
  split at h
  · cases h
  · cases h
    refine Confined.of_map ?_
    show s₁.activeJobs.map Job.own = _
    rw [hact]
    exact Queue.own_notifyErrorlevel

theorem confined_newjobEnqueue : Confined (· = p.jobid) s (s.newjobEnqueue p) := by
  unfold newjobEnqueue
  split
  · have hq : Confined (· = p.jobid) s (s.modJob p.jobid (Job.setState .queued)) := .modJob fun _ => rfl
    exact hq.trans (.of_eq Queue.activeJobs_modUser)
  · exact .refl
  · exact .of_eq Queue.activeJobs_modUser

theorem sameBut_modify_const {l : List Job} :
    SameBut (· = p.jobid) l (Keyed.modify Job.jobid p.jobid (fun _ => p) l) := by
  intro x hx
  have hne : ∀ {y : Job}, y.own = x → y.jobid ≠ p.jobid := by
    rintro y rfl hy
    exact hx hy
  simp only [List.mem_map, Keyed.mem_modify]
  constructor
  · rintro ⟨y, ⟨z, -, -, rfl⟩ | ⟨hy, -⟩, hyx⟩
    · exact absurd rfl (hne hyx)
    · exact ⟨y, hy, hyx⟩
  · rintro ⟨y, hy, hyx⟩
    exact ⟨y, .inr ⟨hy, hne hyx⟩, hyx⟩

theorem confined_fillRecord {old : Option Job} :
    Confined (· = p.jobid) s ((s.onQueue fun q => if old = none then
      { q with activeJobs := q.activeJobs ++ [p] } else q.modJob p.jobid fun _ => p).newjobEnqueue p) := by
  refine Confined.trans ?_ confined_newjobEnqueue
  by_cases hold : old = none
  · simp only [hold, if_true]
    exact SameBut.append rfl
  · simp only [hold, if_false]
    exact sameBut_modify_const

theorem confined_newjobFill {socket id : ℤ} {m : NewJob} {user : ℕ} {old : Option Job}
    (hids : s.view.Ids) (h : s.newjobFill e socket m user old = .ok (s', id)) :
    Confined (· = (old.getD (s.newjobptr m)).jobid) s s' := by
  unfold newjobFill at h
  dsimp only at h
  set p₀ := old.getD (s.newjobptr m)
  have hid₀ : (newjobOwner socket m user p₀).jobid = p₀.jobid := rfl
  have hact : (if old = none then { s with jobids := s.nextJobids m } else s).activeJobs =
      s.activeJobs := by
    split_ifs <;> rfl
  generalize (if old = none then { s with jobids := s.nextJobids m } else s) = s₁ at h hact
  have hcount : Confined (· = p₀.jobid) s s₁ := .of_eq hact
  split at h
  · cases h
    have hdrop : Confined (· = p₀.jobid) s₁ (s₁.onQueue fun q => if old = none then q else
        q.dropJob (newjobOwner socket m user p₀).jobid) := by
      by_cases hold : old = none
      · simp only [hold, if_true]
        exact .refl
      · simp only [hold, if_false, hid₀]
        exact confined_dropJob _ (hact ▸ nodup_of_ids hids)
    exact hcount.trans hdrop
  · rw [Except.bind_eq_ok] at h
    obtain ⟨⟨q, p⟩, hloop, h⟩ := h
    obtain ⟨ds, rfl, hdep, -⟩ := Queue.dependLoop_spec hloop
    cases h
    have hid : (newjobTexts e m p).jobid = p₀.jobid := by
      show p.jobid = p₀.jobid
      rw [hdep]
      rfl
    have hnotified : Confined (· = p₀.jobid) s₁ (s₁.onQueue fun q => q.notifiedBy ds p₀.jobid) :=
      .of_map Queue.own_notifiedBy
    refine hcount.trans (hnotified.trans ?_)
    exact hid ▸ confined_fillRecord (p := newjobTexts e m p)

theorem confined_sProcessRunjobOk {oname : Option String} {pid : ℤ}
    (h : s.sProcessRunjobOk e jobid oname pid = .ok s') : Confined (· = jobid) s s' := by
  unfold sProcessRunjobOk at h
  cases hp : s.findjob jobid with
  | none => simp only [hp, reduceCtorEq] at h
  | some p =>
    simp only [hp] at h
    obtain rfl := findjob_jobid hp
    have hpid : Confined (· = p.jobid) s (s.modJob p.jobid (Job.setPid pid)) := .modJob fun _ => rfl
    have hbind : ∀ (s₁ : Spool) (c : Prop) [Decidable c],
        Confined (· = p.jobid) s₁ ((if c then s₁.bindCpus e (p.setPid pid) else s₁).cgroupsCreateJob
          (p.setPid pid)) := fun s₁ c _ =>
      Confined.trans (.ite (confined_bindCpus (p := p.setPid pid)) .refl)
        (.of_eq activeJobs_cgroupsCreateJob)
    by_cases hpause : p.state = .pause
    · rw [if_pos hpause] at h
      cases h
      exact .refl
    · rw [if_neg hpause] at h
      by_cases hrun : p.state = .running
      · rw [if_neg (not_not.2 hrun)] at h
        split at h
        · cases h
        · split at h
          · cases h
          · cases h
            refine hpid.trans (Confined.trans (hbind _ (e.cpuBind ∧ (s.modJob p.jobid
              (Job.setPid pid)).cpu.disabled = false ∧ (p.setPid pid).noCpuBinding = false ∧
                0 < (p.setPid pid).numAllocated)) ?_)
            refine Confined.trans (.modJob ?_) (.ite (.of_eq rfl) .refl)
            exact fun _ => rfl
      · rw [if_pos hrun] at h
        cases h

/-! ### The order of the queue -/

theorem activeJobs_toBottom {ids : List ℤ} : (s.toBottom ids).activeJobs =
    s.activeJobs.filter (fun p => p.jobid ∉ ids) ++ ids.filterMap s.findjob :=
  Except.foldl_induction (R := fun s s' : Spool => s'.activeJobs = s.activeJobs)
    (fun _ => rfl) (fun h h' => h'.trans h) _ fun _ => rfl

theorem confined_toBottom {ids : List ℤ} (hids : s.view.Ids) (hnd : ids.Nodup) :
    Confined T s (s.toBottom ids) := by
  refine SameBut.of_perm ?_
  rw [activeJobs_toBottom]
  exact Keyed.perm_move_last (nodup_of_ids hids) hnd

theorem perm_sMoveUrgent {socket : ℤ} (hids : s.view.Ids) :
    (s.sMoveUrgent socket jobid).activeJobs.Perm s.activeJobs := by
  rw [sMoveUrgent]
  cases hp : s.findjob jobid with
  | none => exact .refl _
  | some p =>
    obtain rfl := findjob_jobid hp
    exact (Keyed.perm_cons_remove (nodup_of_ids hids) (Keyed.mem_of_lookup hp)).symm

theorem activeJobs_swapDb {jobid₁ jobid₂ : ℤ} :
    (s.swapDb jobid₁ jobid₂).activeJobs = s.activeJobs := by
  unfold swapDb
  split <;> rfl

theorem perm_sSwapJobs {socket jobid₁ jobid₂ : ℤ} :
    (s.sSwapJobs socket jobid₁ jobid₂).activeJobs.Perm s.activeJobs := by
  rw [sSwapJobs]
  split
  · rename_i i₁ i₂ p₁ p₂ h₁ h₂ hp₁ hp₂
    have hdb : ∀ s : Spool,
        ((s.swapDb jobid₁ jobid₂).send socket .swapJobsOk).activeJobs = s.activeJobs :=
      fun _ => activeJobs_swapDb
    rw [hdb]
    obtain ⟨hi₁, hget₁⟩ := getElem_of_findIdx h₁ hp₁
    obtain ⟨hi₂, hget₂⟩ := getElem_of_findIdx h₂ hp₂
    subst hget₁ hget₂
    exact List.set_set_perm hi₁ hi₂
  · exact .refl _

theorem confined_sSortJobs : Confined T s s.sSortJobs := by
  refine SameBut.of_perm ?_
  show (_ ++ _ : List Job).Perm s.activeJobs
  have hperm := List.filter_append_perm (fun p : Job => decide (p.state = .running)) s.activeJobs
  simpa using hperm

/-! ### Other requests -/

theorem confined_sAddWtime {socket n : ℤ} :
    Confined (· = jobid) s (s.sAddWtime socket jobid n) := by
  rw [sAddWtime]
  split_ifs
  · exact .of_eq rfl
  · split
    · exact .of_eq rfl
    · dsimp only
      refine .ite (.of_eq rfl) (.ite (.of_eq rfl) ?_)
      refine SameBut.modify ?_ rfl
      exact fun _ => rfl

theorem confined_sClearFinished {user : ℕ} : Confined T s (s.sClearFinished user) :=
  .of_eq <| Except.foldl_induction (R := fun s s' : Spool => s'.activeJobs = s.activeJobs)
    (fun _ => rfl) (fun h h' => h'.trans h) _ fun _ => rfl

theorem confined_waitFor {socket : ℤ} : Confined T s (s.waitFor socket p) := by
  refine .of_eq ?_
  unfold waitFor
  split_ifs <;> rfl

theorem confined_reconnected {st : Jobstate} {socket : ℤ} : Confined (· = jobid) s
    (s.onQueue fun q => q.modAnyJob jobid (Job.reconnected st socket)) := by
  show SameBut _ s.activeJobs (s.toQueue.modAnyJob jobid (Job.reconnected st socket)).activeJobs
  rw [Queue.modAnyJob]
  split_ifs
  · refine SameBut.modify ?_ rfl
    exact fun _ => rfl
  · exact .refl

end Spool

namespace Op

variable {e : Env} {s s' : Spool} {o : Op}

/-- The operation is about the job with this id. -/
def Touches (o : Op) (s : Spool) (k : ℤ) : Prop :=
  match o with
  | pause p | relegate p | dispatch _ p | wake p | removeActive p | lock p | unlock p | absWall p
  | start p | reconnect p _ _ => k = p.jobid
  | finish _ jobid | runjobOk jobid _ _ | health jobid | delete jobid | wall jobid _
  | addWtime _ jobid _ => k = jobid
  | fill _ m _ old => k = (old.getD (s.newjobptr m)).jobid
  | _ => False

/-- **An operation leaves the other jobs alone.** -/
theorem confined (hids : s.view.Ids) (hpre : o.Pre e s) (h : o.run e s = .ok s') :
    s.Confined (o.Touches s) s' := by
  cases o with
  | send socket r | settings l t env dir b | freeze p | thaw p | unnotify socket | users us n m =>
    cases h
    exact .of_eq rfl
  | pause p =>
    cases h
    exact Spool.confined_safePauseJob.trans (.modJob fun _ => rfl)
  | relegate p =>
    cases h
    exact Spool.confined_sRelegateJob
  | bottom ids =>
    cases h
    exact Spool.confined_toBottom hids hpre.1
  | finish r jobid => exact Spool.confined_jobFinished hids h
  | notify jobid => exact .of_eq (Spool.checkNotifyList_activeJobs h)
  | recount => exact .of_eq (Spool.recount_activeJobs h)
  | dispatch uid p => exact Spool.confined_dispatch h
  | wake p | absWall p | wall jobid w =>
    cases h
    refine SameBut.modify ?_ rfl
    exact fun _ => rfl
  | lock p | unlock p =>
    cases h
    refine Spool.Confined.trans (.of_eq Queue.activeJobs_modUser) (SameBut.modify ?_ rfl)
    exact fun _ => rfl
  | fill socket m user old =>
    simp only [run, Except.map_eq_ok] at h
    obtain ⟨⟨s₁, id⟩, h, rfl⟩ := h
    exact Spool.confined_newjobFill hids h
  | runjobOk jobid oname pid => exact Spool.confined_sProcessRunjobOk h
  | health jobid =>
    cases h
    exact Spool.confined_checkHealth
  | delete jobid => exact Spool.confined_sDeleteJob hids h
  | removeActive p => exact Spool.confined_removeActive hids h
  | removeFinished p => exact Spool.confined_removeFinished h
  | clear user =>
    cases h
    exact Spool.confined_sClearFinished
  | start p =>
    cases h
    exact Spool.confined_configRunning
  | urgent socket jobid =>
    cases h
    exact SameBut.of_perm (Spool.perm_sMoveUrgent hids)
  | swap socket jobid₁ jobid₂ =>
    cases h
    exact SameBut.of_perm Spool.perm_sSwapJobs
  | sort =>
    cases h
    exact Spool.confined_sSortJobs
  | addWtime socket jobid w =>
    cases h
    exact Spool.confined_sAddWtime
  | wait socket p =>
    cases h
    exact Spool.confined_waitFor
  | reconnect p st socket =>
    cases h
    exact Spool.confined_reconnected
  | runjob socket jobid =>
    obtain ⟨p, -, rfl⟩ := Spool.sSendRunjob_spec h
    exact .of_eq rfl

end Op

end TaskSpooler
