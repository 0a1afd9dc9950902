import TaskSpooler.Sched.Usage

/-!
# The moves of the requests

Every function that answers a request is a sequence of moves and of recounts.  There is one
predicate `Act.of…` for the moves of each of them, and one lemma that takes the function apart.

* `sNewjob_spec`: a recount, and then at most one move.
* `sProcessRunjobOk_moves`, `sRemoveJob_moves`: the other requests about one job.
* `answer_course`: the requests that concern the jobs and users only.
-/

namespace TaskSpooler

/-! ### Dependencies -/

namespace Queue

variable {q q' : Queue} {p p' : Job} {ds ds' : List ℤ} {jobid : ℤ}

theorem notifiedBy_append :
    (q.notifiedBy ds jobid).notifiedBy ds' jobid = q.notifiedBy (ds ++ ds') jobid := by
  simp only [notifiedBy, List.foldl_append]

theorem findjob_notifiedBy {l : List ℤ} (jobid d : ℤ) :
    ((q.notifiedBy l jobid).findjob d).isSome = (q.findjob d).isSome := by
  have hfold : ∀ (ds : List ℤ) (l : List Job), (Keyed.lookup Job.jobid d
      (ds.foldl (fun l d => Keyed.modify Job.jobid d (Job.addNotify jobid) l) l)).isSome =
        (Keyed.lookup Job.jobid d l).isSome := by
    intro ds
    induction ds with
    | nil => exact fun l => rfl
    | cons x ds ih =>
      intro l
      rw [List.foldl_cons, ih, Keyed.lookup_modify (c := Job.jobid)
        (f := Job.addNotify jobid) fun _ h => h]
      split_ifs
      · rw [Option.isSome_map]
      · rfl
  exact hfold l q.activeJobs

theorem strip_notifiedBy : (q.notifiedBy ds jobid).strip = q.strip.notifiedBy ds jobid := by
  have hfold : ∀ (ds : List ℤ) (l : List Job),
      (ds.foldl (fun l d => Keyed.modify Job.jobid d (Job.addNotify jobid) l) l).map Job.strip =
        ds.foldl (fun l d => Keyed.modify Job.jobid d (Job.addNotify jobid) l) (l.map Job.strip) := by
    intro ds
    induction ds with
    | nil => exact fun l => rfl
    | cons x ds ih =>
      intro l
      rw [List.foldl_cons, List.foldl_cons, ih, Keyed.modify_map (f := Job.addNotify jobid)
        (h := Job.strip) (g := Job.addNotify jobid) (c := Job.jobid) (d := Job.jobid)
        (fun _ => rfl) fun _ => rfl]
  simp only [notifiedBy, strip, hfold]

/-- What the dependency loop does to the record: it fills in these two fields. -/
def Depends (p p' : Job) : Prop :=
  p' = { p with dependOn := p'.dependOn, dependencyErrorlevel := p'.dependencyErrorlevel }

theorem Depends.trans {p'' : Job} (h : Depends p p') (h' : Depends p' p'') : Depends p p'' := by
  rw [Depends] at *
  rw [h', h]

/-- The dependency `d` is over with error level `0`, or still active. -/
def Fine (q : Queue) (d : ℤ) : Prop :=
  q.findjob d = none → ∃ x, q.findFinishedJob d = some x ∧ x.result.errorlevel = 0

/-- The dependency loop of `s_newjob` for a list of dependencies. -/
structure DependsOn (q : Queue) (p : Job) (l : List ℤ) (ds : List ℤ) (p' : Job) : Prop where
  dependOn : p'.dependOn = p.dependOn ++ l.filter (· < p.jobid)
  notified : ds = (l.filter (· < p.jobid)).filter fun d => (q.findjob d).isSome
  mono : p.dependencyErrorlevel ≤ p'.dependencyErrorlevel
  verdict : p'.dependencyErrorlevel = p.dependencyErrorlevel ↔
    ∀ d ∈ l.filter (· < p.jobid), q.Fine d

theorem foldl_max_mem (l : List ℤ) (a : ℤ) : l.foldl max a = a ∨ l.foldl max a ∈ l := by
  induction l generalizing a with
  | nil => exact .inl rfl
  | cons x l ih =>
    rw [List.foldl_cons]
    obtain h | h := ih (max a x)
    · rw [h]
      obtain h | h := max_choice a x
      · exact .inl h
      · rw [h]
        exact .inr List.mem_cons_self
    · exact .inr (List.mem_cons_of_mem _ h)

/-- `-1` stands for another active job or for a finished one, if there is one. -/
theorem dependOnLast_spec (h : q.dependOnLast p = .ok (q', p')) :
    ∃ ds d, q' = q.notifiedBy ds p.jobid ∧ Depends p p' ∧ p'.dependOn = p.dependOn ++ [d] ∧
      (d = -1 ∨ d ≠ p.jobid ∧ (q.findjob d).isSome ∨ d ∈ q.finishedJobs.map Job.jobid) := by
  have hstored := foldl_max_mem (q.finishedJobs.map Job.jobid) (-1)
  rw [dependOnLast] at h
  dsimp only at h
  split_ifs at h with hlast
  · cases h
    refine ⟨[_], _, rfl, rfl, rfl, .inr (.inl ?_)⟩
    have hmem := (foldl_max_mem ((q.activeJobs.map Job.jobid).filter fun x => x ≠ p.jobid)
      (-1)).resolve_left hlast.1
    rw [List.mem_filter, decide_eq_true_eq] at hmem
    exact ⟨hmem.2, Keyed.isSome_lookup.2 hmem.1⟩
  · split at h
    · cases h
    · cases h
      exact ⟨[], _, rfl, rfl, rfl, hstored.imp_right .inr⟩
  · cases h
    exact ⟨[], _, rfl, rfl, rfl, hstored.imp_right .inr⟩

theorem dependOn_spec {d : ℤ} (h : q.dependOn p d = .ok (q', p')) :
    ∃ ds, q' = q.notifiedBy ds p.jobid ∧ Depends p p' ∧
      (d ≠ -1 → q.DependsOn p [d] ds p') := by
  rw [dependOn] at h
  split_ifs at h with hle hlast
  · cases h
    exact ⟨[], rfl, rfl, fun _ => ⟨by simp [hle], by simp [hle], le_refl _, by simp [hle]⟩⟩
  · obtain ⟨ds, -, hq, hp, -⟩ := dependOnLast_spec h
    exact ⟨ds, hq, hp, fun hne => absurd hlast hne⟩
  · have hlt : d < p.jobid := by omega
    cases hf : q.findjob d with
    | some x =>
      simp only [hf] at h
      cases h
      exact ⟨[d], rfl, rfl, fun _ => ⟨by simp [hlt], by simp [hlt, hf], le_refl _,
        by simp [hlt, Fine, hf]⟩⟩
    | none =>
      simp only [hf] at h
      cases hfin : q.findFinishedJob d with
      | some x =>
        simp only [hfin] at h
        cases h
        refine ⟨[], rfl, rfl, fun _ => ⟨by simp [hlt, dependOnResult, Job.addErrorlevel],
          by simp [hlt, hf], ?_, ?_⟩⟩
        · simp [dependOnResult, Job.addErrorlevel]
        · simp [hlt, Fine, hf, hfin, dependOnResult, Job.addErrorlevel]
      | none =>
        simp only [hfin] at h
        cases h
        refine ⟨[], rfl, rfl, fun _ => ⟨by simp [hlt, dependOnResult, Job.addErrorlevel],
          by simp [hlt, hf], ?_, ?_⟩⟩
        · simp [dependOnResult, Job.addErrorlevel]
        · simp [hlt, Fine, hf, hfin, dependOnResult, Job.addErrorlevel]

theorem dependOn_older {d : ℤ} (h : q.dependOn p d = .ok (q', p')) :
    ∀ d' ∈ p'.dependOn, d' ∈ p.dependOn ∨ q.Older p.jobid [d] d' := by
  intro d' hd'
  by_cases hlast : ¬p.jobid ≤ d ∧ d = -1
  · obtain ⟨hle, rfl⟩ := hlast
    rw [dependOn, if_neg hle, if_pos rfl] at h
    obtain ⟨-, d, -, -, hdep, hd⟩ := dependOnLast_spec h
    rw [hdep, List.mem_append, List.mem_singleton] at hd'
    obtain hd' | rfl := hd'
    · exact .inl hd'
    · refine .inr ?_
      obtain rfl | hd := hd
      · exact .inl (not_le.1 hle)
      · exact .inr ⟨List.mem_singleton_self _, hd⟩
  · obtain ⟨ds, -, -, hspec⟩ := dependOn_spec h
    by_cases hle : p.jobid ≤ d
    · rw [dependOn, if_pos hle] at h
      cases h
      exact .inl hd'
    · rw [(hspec fun hd => hlast ⟨hle, hd⟩).dependOn, List.mem_append] at hd'
      refine hd'.imp_right fun hd' => .inl ?_
      simpa using (List.mem_filter.1 hd').2

theorem fine_notifiedBy {d : ℤ} : (q.notifiedBy ds jobid).Fine d ↔ q.Fine d := by
  have h := findjob_notifiedBy jobid d (q := q) (l := ds)
  have hnone : (q.notifiedBy ds jobid).findjob d = none ↔ q.findjob d = none := by
    rw [← Option.not_isSome_iff_eq_none, h, Option.not_isSome_iff_eq_none]
  rw [Fine, hnone]
  rfl

theorem DependsOn.append {p₁ : Job} {d : ℤ} {l : List ℤ} (h : q.DependsOn p [d] ds p₁)
    (hid : p₁.jobid = p.jobid) (h' : (q.notifiedBy ds p.jobid).DependsOn p₁ l ds' p') :
    q.DependsOn p (d :: l) (ds ++ ds') p' := by
  obtain ⟨hdep, hds, hle, hv⟩ := h
  obtain ⟨hdep', hds', hle', hv'⟩ := h'
  rw [hid] at hdep' hds' hv'
  simp only [findjob_notifiedBy] at hds'
  simp only [fine_notifiedBy] at hv'
  have hcons : (d :: l).filter (· < p.jobid) = [d].filter (· < p.jobid) ++ l.filter (· < p.jobid) :=
    List.filter_append [d] l
  refine ⟨?_, ?_, hle.trans hle', ?_⟩
  · rw [hdep', hdep, hcons, List.append_assoc]
  · rw [hds, hds', hcons, List.filter_append]
  · rw [hcons, List.forall_mem_append, ← hv, ← hv']
    omega

theorem dependFold_spec {l : List ℤ}
    (h : l.foldlM (fun st d => Queue.dependOn st.1 st.2 d) (q, p) = .ok (q', p')) :
    ∃ ds, q' = q.notifiedBy ds p.jobid ∧ Depends p p' ∧
      ((∀ d ∈ l, d ≠ -1) → q.DependsOn p l ds p') := by
  induction l generalizing q p with
  | nil =>
    cases h
    exact ⟨[], rfl, rfl, fun _ => ⟨by simp, by simp, le_refl _, by simp⟩⟩
  | cons d l ih =>
    rw [List.foldlM_cons, Except.bind_eq_ok] at h
    obtain ⟨⟨q₁, p₁⟩, h₁, h⟩ := h
    obtain ⟨ds, rfl, hp₁, hd⟩ := dependOn_spec h₁
    obtain ⟨ds', rfl, hp', hl⟩ := ih h
    have hid : p₁.jobid = p.jobid := by
      rw [hp₁]
    rw [hid, notifiedBy_append]
    refine ⟨ds ++ ds', rfl, hp₁.trans hp', fun hne => ?_⟩
    rw [List.forall_mem_cons] at hne
    exact (hd hne.1).append hid (hl hne.2)

theorem older_notifiedBy {l : List ℤ} {d k : ℤ} :
    (q.notifiedBy ds jobid).Older k l d ↔ q.Older k l d := by
  rw [Older, Older, findjob_notifiedBy]
  rfl

theorem Older.mono {l l' : List ℤ} {d k : ℤ} (h : q.Older k l d) (hl : l ⊆ l') : q.Older k l' d :=
  h.imp_right fun h => ⟨hl h.1, h.2⟩

theorem dependFold_older {l : List ℤ}
    (h : l.foldlM (fun st d => Queue.dependOn st.1 st.2 d) (q, p) = .ok (q', p')) :
    ∀ d ∈ p'.dependOn, d ∈ p.dependOn ∨ q.Older p.jobid l d := by
  induction l generalizing q p with
  | nil =>
    cases h
    exact fun d hd => .inl hd
  | cons x l ih =>
    rw [List.foldlM_cons, Except.bind_eq_ok] at h
    obtain ⟨⟨q₁, p₁⟩, h₁, h⟩ := h
    obtain ⟨ds, rfl, hp₁, -⟩ := dependOn_spec h₁
    have hid : p₁.jobid = p.jobid := by
      rw [hp₁]
    intro d hd
    obtain hd | hd := ih h d hd
    · refine (dependOn_older h₁ d hd).imp_right fun hd => hd.mono ?_
      exact List.cons_subset_cons _ (List.nil_subset _)
    · rw [hid, older_notifiedBy] at hd
      exact .inr (hd.mono (List.subset_cons_self _ _))

theorem dependLoop_older {m : NewJob} (h : q.dependLoop m p = .ok (q', p')) :
    ∀ d ∈ p'.dependOn, d ∈ p.dependOn ∨ q.Older p.jobid m.dependencies d := by
  rw [dependLoop] at h
  rw [NewJob.dependencies]
  split_ifs at h ⊢
  · cases h
    exact fun d hd => .inl hd
  · exact dependFold_older h

/-- The dependency loop of `s_newjob`. -/
theorem dependLoop_spec {m : NewJob} (h : q.dependLoop m p = .ok (q', p')) :
    ∃ ds, q' = q.notifiedBy ds p.jobid ∧ Depends p p' ∧
      ((∀ d ∈ m.dependencies, d ≠ -1) → q.DependsOn p m.dependencies ds p') := by
  rw [dependLoop] at h
  rw [NewJob.dependencies]
  split_ifs at h ⊢
  · cases h
    exact ⟨[], rfl, rfl, fun _ => ⟨by simp, by simp, le_refl _, by simp⟩⟩
  · exact dependFold_spec h

end Queue

namespace Act

/-- The moves of `s_newjob` when the next job id is `jobids` and it returns `id`. -/
def ofNewjob (socket : ℤ) (m : NewJob) (user : ℕ) (next id : ℤ) : Act → Prop
  | jobids _ => id = -1
  | submit p _ n m' _ => m' = m ∧ id = p.jobid ∧ p.user = some user ∧ p.clientSocket = socket ∧
      (m.jobid = 0 → p.jobid = next ∧ n = next + 1)
  | reuse _ p _ m' _ => m' = m ∧ id = p.jobid ∧ p.user = some user ∧ p.clientSocket = socket ∧
      m.jobid ≠ 0 ∧ p.jobid = m.jobid
  | drop p shelf => id = -1 ∧ m.jobid ≠ 0 ∧ p.jobid = m.jobid ∧ shelf = none
  | _ => False

/-- The moves of `s_remove_job` for a job. -/
def ofRemove (p₀ : Job) : Act → Prop
  | gone p | goneFinished p => p = p₀
  | drop p _ => p.jobid = p₀.jobid
  | forget _ => True
  | _ => False

end Act

namespace Moves

variable {v v' : View}

theorem log_notify (h : Moves (fun a _ => a.ofNotify) v v') (ev : Event) :
    Moves (fun a _ => a.ofNotify) (v.log ev) (v'.log ev) := by
  induction h with
  | start => exact .refl
  | @next w w' a _ hok hst ih =>
    refine ih.trans ?_
    cases a with
    | forget l =>
      obtain ⟨hg, rfl⟩ := hst
      exact .single (.forget l) hg trivial rfl
    | _ => exact hok.elim

end Moves

namespace Queue

variable {q : Queue} {p p' : Job} {jobid : ℤ}

theorem findjob_plain (jobid : ℤ) :
    (q.findjob jobid).map Job.plain = Keyed.lookup Job.jobid jobid q.plain :=
  (Keyed.lookup_map (c := Job.jobid) (d := Job.jobid) (h := Job.plain) fun _ => rfl).symm

theorem freeCores_congr (h : p.plain = p'.plain) : q.freeCores p = q.freeCores p' := by
  have h₁ : p.plain.numAllocated = p'.plain.numAllocated := congrArg _ h
  have h₂ : p.plain.numSlots = p'.plain.numSlots := congrArg _ h
  have h₃ : p.plain.user = p'.plain.user := congrArg _ h
  have h₄ : p.plain.jobid = p'.plain.jobid := congrArg _ h
  simp only [Job.plain, Job.strip] at h₁ h₂ h₃ h₄
  simp only [freeCores, h₁, h₂, h₃, h₄]

/-- The record of a job that is being removed. -/
theorem findjob_gone (h : q.findjob p.jobid = some p) :
    ∃ p', ((q.modJob p.jobid Job.gone).notifyErrorlevel p.gone).findjob p.jobid = some p' ∧
      p'.plain = p.gone.plain := by
  have hmod : (q.modJob p.jobid Job.gone).findjob p.jobid = some p.gone := by
    rw [findjob_modJob (f := Job.gone) fun _ h => h, if_pos rfl, h, Option.map_some]
  have hplain : (((q.modJob p.jobid Job.gone).notifyErrorlevel p.gone).findjob p.jobid).map Job.plain =
      some p.gone.plain := by
    rw [findjob_plain, plain_notifyErrorlevel, ← findjob_plain, hmod, Option.map_some]
  exact Option.map_eq_some_iff.1 hplain

end Queue

namespace Spool

variable {e : Env} {s s' : Spool} {jobid : ℤ} {ok : Act → View → Prop}

/-! ### New jobs -/

theorem le_nextJobids (m : NewJob) : s.jobids ≤ s.nextJobids m := by
  rw [nextJobids]
  split_ifs <;> omega

theorem newjobptr_lt_nextJobids (m : NewJob) : (s.newjobptr m).jobid < s.nextJobids m := by
  rw [nextJobids, newjobptr]
  split_ifs <;> simp <;> omega

/-- The id of a new job is free. -/
theorem findjob_newjobptr {m : NewJob} (hids : s.view.Ids)
    (hold : (if m.jobid = 0 then none else s.findjob m.jobid) = none) :
    s.findjob (s.newjobptr m).jobid = none := by
  rw [newjobptr]
  by_cases hm : m.jobid = 0
  · rw [if_neg (not_not.2 hm)]
    refine Keyed.lookup_eq_none.2 fun p hp hid => ?_
    have hlt : p.jobid < s.jobids := hids.lt p.strip (List.mem_map_of_mem hp)
    exact hlt.ne hid
  · rw [if_neg hm] at hold
    rwa [if_pos hm]

theorem dependsAs_of_dependsOn {p p' : Job} {m : NewJob} {ds : List ℤ} {q : Queue}
    (hq : q.activeJobs = s.activeJobs) (hfin : q.finishedJobs = s.finishedJobs)
    (hdep : p.dependOn = []) (hlevel : p.dependencyErrorlevel = 0) (hp : Queue.Depends p p')
    (h : q.DependsOn p m.dependencies ds p') :
    s.view.DependsAs (newjobTexts e m p') ds m := by
  have hfind : ∀ d, q.findjob d = s.findjob d := fun d => by rw [Queue.findjob, hq]; rfl
  have hfinished : ∀ d, q.findFinishedJob d = s.findFinishedJob d :=
    fun d => by rw [Queue.findFinishedJob, hfin]; rfl
  have hid : p'.jobid = p.jobid := by rw [hp]
  obtain ⟨h₁, h₂, h₃, h₄⟩ := h
  rw [hdep, List.nil_append, ← hid] at h₁
  rw [← hid, ← h₁] at h₂
  rw [hlevel] at h₃ h₄
  rw [← hid, ← h₁] at h₄
  refine ⟨h₁, ?_, h₃, h₄.trans (forall₂_congr fun d hd => ?_)⟩
  · refine h₂.trans (List.filter_congr fun d _ => ?_)
    rw [hfind, view_findjob, Option.isSome_map]
  · rw [Queue.Fine, hfind, hfinished, view_findjob, Option.map_eq_none_iff]
    have hstrip : s.view.findFinishedJob d = (s.findFinishedJob d).map Job.strip :=
      Queue.strip_findFinishedJob
    rw [hstrip]
    cases s.findFinishedJob d with
    | none => simp
    | some x => simp [Job.strip]

theorem olderView {y p : Job} {l : List ℤ} {q : Queue} (hq : q.activeJobs = s.activeJobs)
    (hfin : q.finishedJobs = s.finishedJobs) (hid : p.jobid = y.jobid) (hdep : y.dependOn = [])
    (h : ∀ d ∈ p.dependOn, d ∈ y.dependOn ∨ q.Older y.jobid l d) :
    ∀ d ∈ p.dependOn, s.view.Older p.jobid l d := by
  intro d hd
  have hd := (h d hd).resolve_left (by simp [hdep])
  rw [Queue.Older, Queue.findjob, hq, hfin] at hd
  rw [Queue.Older, view_findjob, Option.isSome_map, hid]
  have hmap : s.view.finishedJobs.map Job.jobid = s.finishedJobs.map Job.jobid := by
    show (s.finishedJobs.map Job.strip).map Job.jobid = _
    rw [List.map_map]
    rfl
  rw [hmap]
  exact hd

theorem view_append {p : Job} {q : Queue} :
    ({ s with toQueue := q }.onQueue fun q => { q with activeJobs := q.activeJobs ++ [p] }).view =
      { s.view with
        toQueue := { q.strip with activeJobs := q.strip.activeJobs ++ [p.strip] } } := by
  simp only [view, onQueue, Queue.strip, List.map_append, List.map_cons, List.map_nil]

/-- The dependency loop made `ds` and the fields of `p` from the dependencies of the request. -/
def DependLoop (s : Spool) (p : Job) (ds : List ℤ) (m : NewJob) : Prop :=
  ∃ (n : ℤ) (p₀ p₁ : Job), p₀.jobid = p.jobid ∧ p₀.dependOn = [] ∧ p₀.dependencyErrorlevel = 0 ∧
    { s.toQueue with jobids := n }.dependLoop m p₀ =
      .ok ({ s.toQueue with jobids := n }.notifiedBy ds p.jobid, p₁) ∧
    p₁.dependOn = p.dependOn ∧ p₁.dependencyErrorlevel = p.dependencyErrorlevel

/-- `s_newjob` for a new record, with the dependency loop. -/
theorem newjobFill_loop {socket id : ℤ} {m : NewJob} {user : ℕ} (hids : s.view.Ids)
    (huser : user < s.nusers) (hfree : m.jobid ≠ 0 → s.findjob m.jobid = none)
    (h : s.newjobFill e socket m user none = .ok (s', id)) :
    ∃ a : Act, a.Guard s.view ∧ a.ofNewjob socket m user s.jobids id ∧
      s'.view = a.apply s.view ∧
      ∀ p ds n m' q, a = .submit p ds n m' q → q = s.toQueue ∧ s.DependLoop p ds m := by
  simp only [newjobFill, Option.getD_none, if_true] at h
  split_ifs at h with hslots
  · cases h
    exact ⟨.jobids (s.nextJobids m), le_nextJobids m, rfl, rfl, fun _ _ _ _ _ h => by cases h⟩
  · rw [Except.bind_eq_ok] at h
    obtain ⟨⟨q, p⟩, hloop, h⟩ := h
    have holder := Queue.dependLoop_older hloop
    obtain ⟨ds, rfl, hp, hdep⟩ := Queue.dependLoop_spec hloop
    set p₀ := newjobFields e m (newjobOwner socket m user (s.newjobptr m)) with hp₀
    have hstate : p.state = .queued ∨ p.state = .holdingClient := by
      rw [hp, hp₀]
      simp only [newjobFields, newjobOwner, newjobptr]
      split_ifs <;> simp
    have hid : p.jobid = (s.newjobptr m).jobid := by rw [hp]; rfl
    -- an id that the server chooses is above all that are in use
    have hnone : s.findjob p.jobid = none := by
      rw [hid, newjobptr]
      dsimp only
      split_ifs with hm
      · exact hfree hm
      · refine Keyed.lookup_eq_none.2 fun x hx heq => ?_
        have := hids.lt x.strip (List.mem_map_of_mem hx)
        exact absurd heq (ne_of_lt this)
    refine ⟨.submit (newjobTexts e m p) ds (s.nextJobids m) m s.toQueue, ?_, ?_, ?_, ?_⟩
    · refine ⟨?_, le_nextJobids m, ?_, hstate, ?_, ?_, ?_, ?_, ⟨user, huser, ?_, ?_⟩, fun hne => ?_,
        hid, ?_⟩
      · rw [view_findjob]
        exact Option.map_eq_none_iff.2 hnone
      · exact hid ▸ newjobptr_lt_nextJobids m
      · show p.numAllocated = 0
        rw [hp]
        rfl
      · show p.pid = 0
        rw [hp]
        rfl
      · show p.notifyErrorlevelTo = []
        rw [hp]
        rfl
      · show p.numSlots = m.numSlots
        rw [hp]
        rfl
      · show p.user = some user
        rw [hp]
        rfl
      · show s.admits user p.numSlots
        rw [hp]
        exact hslots
      · exact dependsAs_of_dependsOn (q := { s.toQueue with jobids := s.nextJobids m })
          rfl rfl rfl rfl hp (hdep hne)
      · exact olderView (q := { s.toQueue with jobids := s.nextJobids m }) rfl rfl hid rfl holder
    · have hend : id = p.jobid := by
        cases h
        rfl
      refine ⟨rfl, hend, ?_, ?_, fun hm => ?_⟩
      · show p.user = some user
        rw [hp]
        rfl
      · show p.clientSocket = socket
        rw [hp]
        rfl
      · refine ⟨?_, by simp [nextJobids, hm]⟩
        show p.jobid = s.jobids
        rw [hid, newjobptr]
        simp [hm]
    · have henq : ∀ s₁ : Spool, (s₁.newjobEnqueue (newjobTexts e m p)).view =
          s₁.view.onQueue fun q => q.countQueued (newjobTexts e m p).user := by
        intro s₁
        have hst : (newjobTexts e m p).state = p.state := rfl
        rw [newjobEnqueue, hst]
        obtain hq | hq := hstate <;> rw [hq] <;> exact view_countQueued _
      cases h
      rw [view_setJobidsDb, view_log, henq, view_append, Queue.strip_notifiedBy]
      have hid₀ : p₀.jobid = p.jobid := hid.symm
      rw [hid₀]
      rfl
    · intro p' ds' n m' q' heq
      cases heq
      have hid₀ : p₀.jobid = p.jobid := hid.symm
      rw [hid₀] at hloop
      exact ⟨rfl, s.nextJobids m, p₀, p, hid₀, rfl, rfl, hloop, rfl, rfl⟩

/-- `s_newjob` for a new record. -/
theorem newjobFill_none {socket id : ℤ} {m : NewJob} {user : ℕ} (hids : s.view.Ids)
    (huser : user < s.nusers) (hfree : m.jobid ≠ 0 → s.findjob m.jobid = none)
    (h : s.newjobFill e socket m user none = .ok (s', id)) :
    ∃ a : Act, a.Guard s.view ∧ a.ofNewjob socket m user s.jobids id ∧
      s'.view = a.apply s.view := by
  obtain ⟨a, hg, ha, hv, -⟩ := newjobFill_loop hids huser hfree h
  exact ⟨a, hg, ha, hv⟩

theorem modJob_const_setState {q : Queue} {k : ℤ} {p : Job} {st : Jobstate} (hp : p.jobid = k) :
    (q.modJob k fun _ => p).modJob k (Job.setState st) = q.modJob k fun _ => p.setState st := by
  simp only [Queue.modJob, Keyed.modify_modify (c := Job.jobid) (f := Job.setState st)
    (g := fun _ => p) fun _ _ => hp]

theorem view_newjobEnqueue {p : Job} {q : Queue}
    (hstate : p.state = .delink ∨ p.state = .wait ∨ p.state = .locked) :
    (({ s with toQueue := q }.onQueue fun q => q.modJob p.jobid fun _ => p).newjobEnqueue p).view =
      (View.onQueue { s.view with toQueue := q.strip } fun q =>
        let q := q.modJob p.jobid fun _ =>
          p.strip.setState (if p.state = .wait then .queued else p.state)
        if p.state = .locked then q else q.countQueued p.user) := by
  have hmod : ({ s with toQueue := q }.onQueue fun q => q.modJob p.jobid fun _ => p).view =
      { s.view with toQueue := q.strip }.onQueue fun q => q.modJob p.strip.jobid fun _ => p.strip :=
    view_onQueue _ (Queue.strip_modJob fun _ => rfl)
  rw [newjobEnqueue]
  obtain hst | hst | hst := hstate
  · simp only [hst, reduceCtorEq, if_false]
    rw [view_countQueued, view_insertJobsDb, hmod]
    have hself : p.strip.setState .delink = p.strip := by
      rw [Job.setState, ← hst]
      rfl
    rw [hself]
    rfl
  · simp only [hst, reduceCtorEq, if_false, if_true]
    rw [view_countQueued, view_modJob (g := Job.setState .queued) fun _ => rfl, hmod]
    simp only [View.onQueue_onQueue]
    exact congrArg (fun q : Queue => { s.view with toQueue := q.countQueued p.user })
      (modJob_const_setState (p := p.strip) rfl)
  · simp only [hst, reduceCtorEq, if_false, if_true]
    rw [hmod]
    have hself : p.strip.setState .locked = p.strip := by
      rw [Job.setState, ← hst]
      rfl
    rw [hself]
    rfl

/-- `s_newjob` for a record that is in the queue already. -/
theorem newjobFill_some {socket id : ℤ} {m : NewJob} {user : ℕ} {old : Job}
    (huser : user < s.nusers) (hm : m.jobid ≠ 0) (hold : s.findjob m.jobid = some old)
    (hstate : old.state = .delink ∨ old.state = .wait ∨ old.state = .locked)
    (h : s.newjobFill e socket m user (some old) = .ok (s', id)) :
    ∃ a : Act, a.Guard s.view ∧ a.ofNewjob socket m user s.jobids id ∧
      s'.view = a.apply s.view := by
  have holdid := findjob_jobid hold
  have hhas := view_has_of_findjob hold
  simp only [newjobFill, Option.getD_some, reduceCtorEq, if_false] at h
  split_ifs at h with hslots
  · cases h
    refine ⟨.drop old none, ⟨hhas, ?_, by simp⟩, ⟨rfl, hm, holdid, rfl⟩, ?_⟩
    · obtain h | h | h := hstate <;> simp [h]
    · rw [view_send, view_dropJob]
      rfl
  · rw [Except.bind_eq_ok] at h
    obtain ⟨⟨q, p⟩, hloop, h⟩ := h
    have holder := Queue.dependLoop_older hloop
    obtain ⟨ds, rfl, hp, -⟩ := Queue.dependLoop_spec hloop
    set p₀ := newjobFields e m (newjobOwner socket m user old) with hp₀
    have hid : p.jobid = old.jobid := by
      rw [hp]
      rfl
    have hst : p.state = old.state := by
      rw [hp]
      rfl
    have hid' : (newjobTexts e m p).jobid = p.jobid := rfl
    -- the guard and the texts, field by field, and then the two views
    refine ⟨.reuse old (newjobTexts e m p) ds m s.toQueue, ?_, ?_, ?_⟩
    · refine ⟨hhas, hid.symm, hst.symm, ?_, ?_, ?_, ⟨user, huser, ?_, ?_⟩, hst ▸ hstate, ?_⟩
      · show old.pid = p.pid
        rw [hp]
        rfl
      · show old.numAllocated = p.numAllocated
        rw [hp]
        rfl
      · show p.numSlots = m.numSlots
        rw [hp]
        rfl
      · show p.user = some user
        rw [hp]
        rfl
      · show s.admits user p.numSlots
        rw [hp]
        exact hslots
      · exact olderView (y := p₀) rfl rfl hid rfl holder
    · have hend : id = p.jobid := by
        cases h
        rfl
      refine ⟨rfl, hend, ?_, ?_, hm, hid.trans holdid⟩
      · show p.user = some user
        rw [hp]
        rfl
      · show p.clientSocket = socket
        rw [hp]
        rfl
    · cases h
      have hid₀ : p₀.jobid = p.jobid := hid.symm
      rw [view_setJobidsDb, view_log, view_newjobEnqueue (hst ▸ hstate), Queue.strip_notifiedBy,
        hid₀]
      rfl

/-- **`s_newjob`**: a recount, and at most one move after it. -/
theorem sNewjob_spec {socket id : ℤ} {m : NewJob} {user : ℕ} (hids : s.view.Ids)
    (huser : user < s.nusers) (h : s.sNewjob e socket m user = .ok (s', id)) :
    ∃ s₁, s.sUpdateSlotsUsage e = .ok s₁ ∧ Usage e (Late e s) s.view s₁.view ∧
      (id = -1 ∧ s'.view = s₁.view ∨
        ∃ a : Act, a.Guard s₁.view ∧ a.ofNewjob socket m user s₁.jobids id ∧
          s'.view = a.apply s₁.view) := by
  rw [sNewjob, Except.bind_eq_ok] at h
  obtain ⟨s₁, h₁, h⟩ := h
  have husage := sUpdateSlotsUsage_usage hids h₁
  have hids₁ := husage.ids hids
  have huser₁ : user < s₁.nusers := by
    have : s₁.nusers = s.nusers := husage.nusers_eq
    omega
  refine ⟨s₁, h₁, husage, ?_⟩
  split at h
  · rename_i hnone
    refine .inr (newjobFill_none hids₁ huser₁ (fun hm => ?_) h)
    rwa [if_neg hm] at hnone
  · rename_i p hp
    have hm : m.jobid ≠ 0 := fun hm => by simp [hm] at hp
    rw [if_neg hm] at hp
    split_ifs at h with hstate
    · exact .inr (newjobFill_some huser₁ hm hp hstate h)
    · cases h
      exact .inl ⟨rfl, rfl⟩

/-! ### A job that runs -/

theorem runjobOk_saved {f : Job → Job} {pid : ℤ} (hf : ∀ p, (f p).strip = p.strip)
    (h : (match (s.modJob jobid f).findjob jobid with
      | none => .error Fatal.useAfterFree
      | some p =>
        if p.user = none then .error .nullPointer
        else .ok (if 0 < pid then (s.modJob jobid f).replaceJobsDb p else s.modJob jobid f)) =
      Except.ok s') :
    s'.view = s.view := by
  split at h
  · cases h
  · split_ifs at h
    all_goals
      cases h
      exact view_modJob_quiet hf

/-- **`s_process_runjob_ok`** records the pid of a running job. -/
theorem sProcessRunjobOk_spec {oname : Option String} {pid : ℤ} (hpid : 0 < pid)
    (h : s.sProcessRunjobOk e jobid oname pid = .ok s') :
    ∃ p, s.findjob jobid = some p ∧ (p.state = .pause ∧ s'.view = s.view ∨
      (Act.pid p pid).Guard s.view ∧ s'.view = (Act.pid p pid).apply s.view) := by
  rw [sProcessRunjobOk] at h
  cases hp : s.findjob jobid with
  | none => simp [hp] at h
  | some p =>
    simp only [hp] at h
    refine ⟨p, rfl, ?_⟩
    by_cases hpause : p.state = .pause
    · rw [if_pos hpause] at h
      cases h
      exact .inl ⟨hpause, rfl⟩
    · rw [if_neg hpause] at h
      by_cases hrun : p.state ≠ .running
      · rw [if_pos hrun] at h
        cases h
      · rw [if_neg hrun] at h
        obtain rfl := findjob_jobid hp
        have hmod : (s.modJob p.jobid (Job.setPid pid)).view = (Act.pid p pid).apply s.view :=
          view_modJob (g := Job.setPid pid) fun _ => rfl
        refine .inr ⟨⟨view_has hp, not_not.1 hrun, hpid⟩, (runjobOk_saved ?_ h).trans ?_⟩
        · exact fun _ => rfl
        · rw [view_cgroupsCreateJob, apply_ite view, view_bindCpus, ite_self, hmod]

/-! ### Removing jobs -/

theorem ofNotify_ofRemove {p : Job} (a : Act) (h : a.ofNotify) : a.ofRemove p := by
  cases a with
  | forget l => trivial
  | _ => exact h.elim

theorem view_notifyErrorlevel (p : Job) :
    (s.onQueue fun q => q.notifyErrorlevel p).view = s.view.onQueue fun q => q.notifyErrorlevel p :=
  view_onQueue _ (Queue.strip_notifyErrorlevel p)

theorem checkNotifyList_activeJobs (h : s.checkNotifyList jobid = .ok s') :
    s'.activeJobs = s.activeJobs := by
  refine Except.foldlM_induction (R := fun s s' : Spool => s'.activeJobs = s.activeJobs)
    (fun _ => rfl) (fun h h' => h'.trans h) (fun {s s' n} _ h => ?_) h
  rw [notifyWaiter] at h
  cases hj : s.getJob jobid with
  | none => simp [hj] at h
  | some j =>
    simp only [hj] at h
    split_ifs at h
    · unfold destroyFinishedJob at h
      split at h
      · cases h
      · cases h
        rfl
    · cases h
      rfl
    · cases h
      rfl

/-- The moves of `s_remove_job` for an active job.  The record that goes to the finished jobs has
the notifications it had before. -/
theorem removeActive_shelves {p : Job} (hp : s.findjob p.jobid = some p) (hrun : p.state ≠ .running)
    (hpause : p.state ≠ .pause) (habn : p.state ≠ .abnormal) (h : s.removeActive e p = .ok s') :
    Moves (fun a _ => a.ofRemove p ∧ ∀ p' x, a = .drop p' (some x) →
      x.2.notifyErrorlevelTo = p.notifyErrorlevelTo) s.view s'.view := by
  rw [removeActive, Except.bind_eq_ok] at h
  obtain ⟨s₁, h₁, h⟩ := h
  -- the event is logged later, but nothing reads it in between
  have hgone : (Act.gone p).apply s.view =
      (((s.deleteJobsDb p.jobid).modJob p.jobid Job.gone).onQueue fun q =>
        q.notifyErrorlevel p.gone).view.log (.removed p.gone) := by
    rw [view_notifyErrorlevel, view_modJob (g := Job.gone) fun _ => rfl, view_deleteJobsDb]
    rfl
  have hnotify := checkNotifyList_moves (fun a _ => a.ofNotify) (fun _ _ ha => ha) h₁
  obtain ⟨p', hp', hplain⟩ := Queue.findjob_gone hp
  have hfind : s₁.findjob p.jobid = some p' := by
    rw [Queue.findjob, checkNotifyList_activeJobs h₁]
    exact hp'
  have hid := findjob_jobid hfind
  have hstate : p'.state = .finished := congrArg Job.state hplain
  have hlog : Moves (fun a _ => a.ofRemove p ∧ ∀ p' x, a = .drop p' (some x) →
      x.2.notifyErrorlevelTo = p.notifyErrorlevelTo) _ _ :=
    (hnotify.log_notify (.removed p.gone)).mono fun a _ ha =>
      ⟨ofNotify_ofRemove a ha, fun p' x heq => by subst heq; exact ha.elim⟩
  refine Moves.trans (.single (.gone p) ⟨view_has hp, hrun, hpause, habn⟩
    ⟨rfl, fun _ _ h => by cases h⟩ hgone.symm) (hlog.trans ?_)
  have hhas : (s₁.view.log (.removed p.gone)).Has p' := view_has_of_findjob hfind
  dsimp only at h
  split_ifs at h with hpid
  · cases h
    refine .single (.drop p' none) ⟨hhas, by simp [hstate], by simp⟩
      ⟨hid, fun _ _ h => by cases h⟩ ?_
    rw [view_log, view_dropJob, ← hid]
    rfl
  · cases h
    refine .single (.drop p' (some (e.maxFinished,
      { removedRecord e p.gone.freed with cpuAlloc := none }))) ⟨hhas, by simp [hstate], ?_⟩
      ⟨hid, fun _ _ h => by cases h; rfl⟩ ?_
    · intro x hx
      obtain rfl := Option.some.inj hx
      have hpid' : p'.plain.pid = p.gone.plain.pid := congrArg _ hplain
      change p'.pid = p.pid at hpid'
      exact ⟨hpid' ▸ hpid, hstate, (congrArg Job.freed hplain).symm⟩
    · rw [view_newFinishedJob, view_defrag, view_freeAlloc, view_cgroupsCleanJob, view_freeCores,
        view_log, view_dropJob]
      simp only [Act.apply, Queue.freeCores_congr hplain, hid]
      rfl

theorem removeActive_moves {p : Job} (hp : s.findjob p.jobid = some p) (hrun : p.state ≠ .running)
    (hpause : p.state ≠ .pause) (habn : p.state ≠ .abnormal) (h : s.removeActive e p = .ok s') :
    Moves (fun a _ => a.ofRemove p) s.view s'.view :=
  (removeActive_shelves hp hrun hpause habn h).mono fun _ _ ha => ha.1

theorem view_finishedJobs {f : List Job → List Job} (g : List Job → List Job)
    (h : (f s.finishedJobs).map Job.strip = g (s.finishedJobs.map Job.strip)) :
    (s.onQueue fun q => { q with finishedJobs := f q.finishedJobs }).view =
      s.view.onQueue fun q => { q with finishedJobs := g q.finishedJobs } := by
  refine view_onQueue _ ?_
  simp only [Queue.strip, h]

theorem removeFinished_moves {p : Job} (hp : p ∈ s.finishedJobs) (hnone : s.findjob p.jobid = none)
    (h : s.removeFinished p = .ok s') : Moves (fun a _ => a.ofRemove p) s.view s'.view := by
  rw [removeFinished, Except.bind_eq_ok] at h
  obtain ⟨s₁, h₁, h⟩ := h
  have hgone : (Act.goneFinished p).apply s.view =
      (((s.deleteJobsDb p.jobid).onQueue fun q =>
        { q with finishedJobs := Keyed.modifyFirst Job.jobid p.jobid Job.gone q.finishedJobs }).onQueue
          fun q => q.notifyErrorlevel p.gone).view.log (.removed p.gone) := by
    rw [view_notifyErrorlevel, view_finishedJobs (Keyed.modifyFirst Job.jobid p.jobid Job.gone),
      view_deleteJobsDb]
    · rfl
    · exact (Keyed.modifyFirst_map (c := Job.jobid) (d := Job.jobid) (h := Job.strip)
        (f := Job.gone) (fun _ => rfl) fun _ => rfl).symm
  have hnotify := checkNotifyList_moves (fun a _ => a.ofNotify) (fun _ _ ha => ha) h₁
  have hlog := (hnotify.log_notify (.removed p.gone)).mono fun a _ ha => ofNotify_ofRemove (p := p) a ha
  have hguard : (Act.goneFinished p).Guard s.view :=
    ⟨List.mem_map_of_mem hp, by rw [view_findjob, hnone]; rfl⟩
  refine Moves.trans (.single (.goneFinished p) hguard rfl hgone.symm) (hlog.trans ?_)
  split at h
  · cases h
  · cases h
    refine .single (.forget (Keyed.remove Job.jobid p.jobid s₁.view.finishedJobs))
      List.eraseP_sublist trivial ?_
    rw [view_log, view_deleteFinishedDb, view_finishedJobs (Keyed.remove Job.jobid p.jobid)]
    · rfl
    · exact (Keyed.remove_map (c := Job.jobid) (d := Job.jobid) (h := Job.strip)
        fun _ => rfl).symm

/-- The job that `REMOVEJOB` names. -/
def namedJob (s : Spool) (jobid : ℤ) : Option Job := if jobid = -1 then s.lastJob else s.getJob jobid

theorem namedJob_cases {p : Job} (hids : s.view.Ids) (h : s.namedJob jobid = some p) :
    s.findjob p.jobid = some p ∨ s.findjob p.jobid = none ∧ p ∈ s.finishedJobs := by
  rw [namedJob, Queue.lastJob, Queue.getJob] at h
  split_ifs at h
  all_goals
    rw [Option.or_eq_some_iff] at h
    obtain h | ⟨hnone, h⟩ := h
  · exact .inl (findjob_of_mem hids (List.mem_of_getLast? h))
  · rw [List.getLast?_eq_none_iff] at hnone
    refine .inr ⟨?_, List.mem_of_getLast? h⟩
    rw [Queue.findjob, hnone]
    rfl
  · exact .inl (by rw [findjob_jobid h, h])
  · have hid : p.jobid = jobid := Keyed.key_of_lookup h
    exact .inr ⟨hid ▸ hnone, Keyed.mem_of_lookup h⟩

theorem removeRefusal_none {p : Job} (h : s.removeRefusal jobid p = none) :
    p.state ≠ .running ∧ p.state ≠ .pause ∧ p.state ≠ .abnormal := by
  simp only [removeRefusal] at h
  split_ifs at h with h₁ h₂
  tauto

/-- **`s_remove_job`**: a job that is removed tells its dependents, and leaves the queue or the
list of finished jobs. -/
theorem sRemoveJob_spec {socket : ℤ} {client : ℕ} {removed : Option ℤ} (hids : s.view.Ids)
    (h : s.sRemoveJob e socket jobid client = .ok (s', removed)) :
    removed = none ∧ s'.view = s.view ∨
      ∃ p, s.namedJob jobid = some p ∧ removed = some p.jobid ∧
        Moves (fun a _ => a.ofRemove p) s.view s'.view := by
  rw [sRemoveJob] at h
  dsimp only at h
  cases hp : (if jobid = -1 then s.lastJob else s.getJob jobid) with
  | none =>
    simp only [hp] at h
    cases h
    exact .inl ⟨rfl, rfl⟩
  | some p =>
    simp only [hp] at h
    by_cases hclient : client ≠ 0 ∧ p.user ≠ some client
    · rw [if_pos hclient] at h
      cases h
      exact .inl ⟨rfl, rfl⟩
    · rw [if_neg hclient] at h
      cases hr : s.removeRefusal jobid p with
      | some text =>
        simp only [hr] at h
        cases h
        exact .inl ⟨rfl, rfl⟩
      | none =>
        simp only [hr] at h
        obtain ⟨hrun, hpause, habn⟩ := removeRefusal_none hr
        obtain hact | ⟨hnone, hfin⟩ := namedJob_cases hids hp
        · rw [hact, Option.isSome_some, if_pos rfl, Except.bind_eq_ok] at h
          obtain ⟨s₁, h₁, h⟩ := h
          cases h
          exact .inr ⟨p, hp, rfl, (removeActive_moves hact hrun hpause habn h₁).trans .refl⟩
        · rw [hnone, if_neg (by simp), Except.bind_eq_ok] at h
          obtain ⟨s₁, h₁, h⟩ := h
          cases h
          exact .inr ⟨p, hp, rfl, (removeFinished_moves hfin hnone h₁).trans .refl⟩

end Spool

end TaskSpooler
