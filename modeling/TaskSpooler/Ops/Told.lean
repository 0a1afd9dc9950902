import TaskSpooler.Ops.Moves
import TaskSpooler.Sched.Finished

/-!
# Who tells whom about its error level

A job has a list of other jobs that it tells its error level when it ends or is removed.  Only a
submission writes to the lists, and a job hears from no other job than those that have it on their
list: `View.Tells` says so for a sequence of moves, with the records of the jobs that have ended in
between, and `Op.tells` proves it for every operation but `s_newjob`.
-/

namespace TaskSpooler

/-- The id of a job and the jobs that it will tell its error level. -/
def Job.tie (p : Job) : ℤ × List ℤ := (p.jobid, p.notifyErrorlevelTo)

/-- The same, and the error level that it has been told. -/
def Job.ties (p : Job) : (ℤ × List ℤ) × ℤ := (p.tie, p.dependencyErrorlevel)

/-- What the job `r` adds to the error level of dependencies of the job `k` when it ends. -/
def Job.share (r : Job) (k : ℤ) : ℤ := r.notifyErrorlevelTo.count k * r.result.errorlevel.natAbs

/-- The record of a job that has ended or has been removed. -/
def Event.report : Event → Option Job
  | finish p | removed p => some p
  | _ => none

/-- The event is no submission and no end of a job. -/
def Event.Quiet : Event → Prop
  | submit _ _ _ | finish _ | removed _ => False
  | _ => True

/-- The records of the jobs that have ended or have been removed, the last one first. -/
def reports (events : List Event) : List Job := events.filterMap Event.report

namespace View

/-- Between the two views the jobs `news` have ended or have been removed, the other jobs have heard
of nothing else, and nothing has been submitted. -/
structure Tells (news : List Job) (v v' : View) : Prop where
  events : ∃ more, v'.events = more ++ v.events ∧ reports more = news ∧
    ∀ p m q, Event.submit p m q ∉ more
  known : ∀ r ∈ news, ∃ y ∈ v.activeJobs ++ v.finishedJobs, y.tie = r.tie
  active : ∀ x' ∈ v'.activeJobs, ∃ x ∈ v.activeJobs, x.tie = x'.tie ∧
    x'.dependencyErrorlevel = x.dependencyErrorlevel + (news.map fun r => r.share x'.jobid).sum
  finished : ∀ y' ∈ v'.finishedJobs, ∃ y ∈ v.activeJobs ++ v.finishedJobs, y.tie = y'.tie

namespace Tells

variable {v v' v'' : View} {news news' : List Job}

theorem refl : Tells [] v v :=
  ⟨⟨[], rfl, rfl, by simp⟩, by simp, fun x hx => ⟨x, hx, rfl, by simp⟩,
    fun y hy => ⟨y, List.mem_append_right _ hy, rfl⟩⟩

/-- A job after the moves was there before, with the same list. -/
theorem origin (h : Tells news v v') {y' : Job} (hy : y' ∈ v'.activeJobs ++ v'.finishedJobs) :
    ∃ y ∈ v.activeJobs ++ v.finishedJobs, y.tie = y'.tie := by
  obtain hy | hy := List.mem_append.1 hy
  · obtain ⟨x, hx, htie, -⟩ := h.active y' hy
    exact ⟨x, List.mem_append_left _ hx, htie⟩
  · exact h.finished y' hy

theorem trans (h : Tells news v v') (h' : Tells news' v' v'') : Tells (news' ++ news) v v'' := by
  refine ⟨?_, fun r hr => ?_, fun x'' hx'' => ?_, fun y'' hy'' => ?_⟩
  · obtain ⟨more, hmore, rfl, hno⟩ := h.events
    obtain ⟨more', hmore', rfl, hno'⟩ := h'.events
    refine ⟨more' ++ more, ?_, List.filterMap_append, fun p m q hmem => ?_⟩
    · rw [hmore', hmore, List.append_assoc]
    · exact (List.mem_append.1 hmem).elim (hno' p m q) (hno p m q)
  · obtain hr | hr := List.mem_append.1 hr
    · obtain ⟨y', hy', htie'⟩ := h'.known r hr
      obtain ⟨y, hy, htie⟩ := h.origin hy'
      exact ⟨y, hy, htie.trans htie'⟩
    · exact h.known r hr
  · obtain ⟨x', hx', htie', hlevel'⟩ := h'.active x'' hx''
    obtain ⟨x, hx, htie, hlevel⟩ := h.active x' hx'
    have hid : x'.jobid = x''.jobid := congrArg Prod.fst htie'
    refine ⟨x, hx, htie.trans htie', ?_⟩
    rw [hlevel', hlevel, hid, List.map_append, List.sum_append]
    omega
  · obtain ⟨y', hy', htie'⟩ := h'.finished y'' hy''
    obtain ⟨y, hy, htie⟩ := h.origin hy'
    exact ⟨y, hy, htie.trans htie'⟩

/-- Nobody has been told anything. -/
theorem of_subset (hev : v'.events = v.events ∨ ∃ ev : Event, v'.events = ev :: v.events ∧ ev.Quiet)
    (hact : v'.activeJobs.map Job.ties ⊆ v.activeJobs.map Job.ties)
    (hfin : v'.finishedJobs.map Job.tie ⊆ v.finishedJobs.map Job.tie) : Tells [] v v' := by
  refine ⟨?_, by simp, fun x' hx' => ?_, fun y' hy' => ?_⟩
  · obtain hev | ⟨ev, hev, hquiet⟩ := hev
    · exact ⟨[], hev, rfl, by simp⟩
    · refine ⟨[ev], hev, ?_, fun p m q hmem => ?_⟩
      · cases ev with
        | submit p m q | finish p | removed p => exact hquiet.elim
        | _ => rfl
      · rw [← List.mem_singleton.1 hmem] at hquiet
        exact hquiet
  · obtain ⟨x, hx, hties⟩ := List.mem_map.1 (hact (List.mem_map_of_mem hx'))
    refine ⟨x, hx, congrArg Prod.fst hties, ?_⟩
    rw [List.map_nil, List.sum_nil, add_zero]
    exact (congrArg Prod.snd hties).symm
  · obtain ⟨y, hy, htie⟩ := List.mem_map.1 (hfin (List.mem_map_of_mem hy'))
    exact ⟨y, List.mem_append_right _ hy, htie⟩

theorem of_eq (hev : v'.events = v.events ∨ ∃ ev : Event, v'.events = ev :: v.events ∧ ev.Quiet)
    (hact : v'.activeJobs.map Job.ties = v.activeJobs.map Job.ties)
    (hfin : v'.finishedJobs.map Job.tie = v.finishedJobs.map Job.tie) : Tells [] v v' :=
  of_subset hev (hact ▸ List.Subset.refl _) (hfin ▸ List.Subset.refl _)

end Tells

end View

/-! ### The functions on the queue -/

namespace Queue

variable {q : Queue} {p : Job} {jobid : ℤ} {f : Job → Job}

theorem ties_modJob (hf : ∀ p, (f p).ties = p.ties) :
    (q.modJob jobid f).activeJobs.map Job.ties = q.activeJobs.map Job.ties :=
  Keyed.map_modify fun p _ _ => hf p

theorem ties_freeCores : (q.freeCores p).activeJobs.map Job.ties = q.activeJobs.map Job.ties := by
  rw [freeCores]
  split_ifs
  · rfl
  · exact (ties_modJob (f := Job.freed) fun _ => rfl).trans (congrArg _ activeJobs_modUser)

theorem ties_start : (q.start p).activeJobs.map Job.ties = q.activeJobs.map Job.ties := by
  rw [start]
  exact (ties_modJob (f := Job.started) fun _ => rfl).trans (congrArg _ activeJobs_modUser)

/-- **What a job hears** when another one tells its error level. -/
theorem mem_notifyErrorlevel {x' : Job} (hx' : x' ∈ (q.notifyErrorlevel p).activeJobs) :
    ∃ x ∈ q.activeJobs, x' =
      { x with dependencyErrorlevel := x.dependencyErrorlevel + p.share x.jobid } := by
  have hfold : ∀ (l : List ℤ) (q : Queue), ∀ x' ∈ (l.foldl (fun q jobid =>
      q.modAnyJob jobid (Job.addErrorlevel p.result.errorlevel)) q).activeJobs,
      ∃ x ∈ q.activeJobs, x' =
        { x with
          dependencyErrorlevel :=
            x.dependencyErrorlevel + l.count x.jobid * p.result.errorlevel.natAbs } := by
    intro l
    induction l with
    | nil => exact fun q x' hx' => ⟨x', hx', by simp⟩
    | cons d l ih =>
      intro q x' hx'
      obtain ⟨x₁, hx₁, rfl⟩ := ih _ x' hx'
      have hx₁ : (∃ x ∈ q.activeJobs, x.jobid = d ∧ x₁ = x.addErrorlevel p.result.errorlevel) ∨
          x₁ ∈ q.activeJobs ∧ x₁.jobid ≠ d := by
        dsimp only [modAnyJob] at hx₁
        split_ifs at hx₁ with hsome
        · exact Keyed.mem_modify.1 hx₁
        · refine .inr ⟨hx₁, fun hid => hsome ?_⟩
          exact Keyed.isSome_lookup.2 (hid ▸ List.mem_map_of_mem hx₁)
      obtain ⟨x, hx, hid, rfl⟩ | ⟨hx₁, hid⟩ := hx₁
      · refine ⟨x, hx, ?_⟩
        simp only [Job.addErrorlevel, hid, List.count_cons_self, Nat.cast_add, Nat.cast_one,
          add_mul, one_mul]
        congr 1
        omega
      · refine ⟨x₁, hx₁, ?_⟩
        rw [List.count_cons_of_ne (Ne.symm hid)]
  exact hfold _ { q with lastErrorlevel := p.result.errorlevel } x' hx'

/-- The lists of the jobs after a submission. -/
theorem mem_notifiedBy {ds : List ℤ} {k : ℤ} {x' : Job} (hx' : x' ∈ (q.notifiedBy ds k).activeJobs) :
    ∃ x ∈ q.activeJobs, x' =
      { x with
        notifyErrorlevelTo := x.notifyErrorlevelTo ++ List.replicate (ds.count x.jobid) k } := by
  have hfold : ∀ (ds : List ℤ) (l : List Job), ∀ x' ∈ ds.foldl (fun l d =>
      Keyed.modify Job.jobid d (Job.addNotify k) l) l, ∃ x ∈ l, x' =
        { x with
          notifyErrorlevelTo := x.notifyErrorlevelTo ++ List.replicate (ds.count x.jobid) k } := by
    intro ds
    induction ds with
    | nil => exact fun l x' hx' => ⟨x', hx', by simp⟩
    | cons d ds ih =>
      intro l x' hx'
      obtain ⟨x₁, hx₁, rfl⟩ := ih _ x' hx'
      obtain ⟨x, hx, hid, rfl⟩ | ⟨hx₁, hid⟩ := Keyed.mem_modify.1 hx₁
      · refine ⟨x, hx, ?_⟩
        simp only [Job.addNotify, hid, List.count_cons_self, List.append_assoc,
          List.singleton_append, List.replicate_succ]
      · refine ⟨x₁, hx₁, ?_⟩
        rw [List.count_cons_of_ne (Ne.symm hid)]
  exact hfold ds _ x' hx'

theorem tie_finished_notifyErrorlevel :
    (q.notifyErrorlevel p).finishedJobs.map Job.tie = q.finishedJobs.map Job.tie :=
  map_finished_notifyErrorlevel fun _ _ => rfl

end Queue

/-! ### The moves -/

namespace Act

variable {v : View} {a : Act}

/-- The job that a move lets end or takes away, with its error level. -/
def news : Act → List Job
  | finish _ _ p' _ => [p']
  | gone p | goneFinished p => [p.gone]
  | _ => []

/-- The move leaves the lists of the jobs to tell as they are. -/
def KeepsTies : Act → Prop
  | submit _ _ _ _ _ | reuse _ _ _ _ _ => False
  | drop p (some x) => x.2.notifyErrorlevelTo = p.notifyErrorlevelTo
  | _ => True

theorem tie_push (max : ℕ) (l : List Job) (p : Job) {y : Job}
    (hy : y ∈ Queue.kept max l ++ [{ p.strip with cpuAlloc := none }]) :
    y ∈ l ∨ y.tie = p.tie := by
  rw [List.mem_append, List.mem_singleton] at hy
  obtain hy | rfl := hy
  · exact .inl ((Queue.kept_sublist max l).subset hy)
  · exact .inr rfl

/-- The record of a job that ends still has its list. -/
theorem tie_finish {r : Result} {p p' : Job} {max : ℕ} (hids : v.Ids)
    (hg : (finish r p p' max).Guard v) : p'.tie = p.tie := by
  obtain ⟨hhas, hp'⟩ := hg
  have hid : p'.strip.jobid = p.jobid := Keyed.key_of_lookup hp'
  obtain ⟨x₁, hx₁, heq⟩ := Queue.mem_notifyErrorlevel (Keyed.mem_of_lookup hp')
  have htie₁ : p'.strip.tie = x₁.tie := by
    rw [heq]
    rfl
  have hties : ((v.freeCores p).modJob p.jobid (Job.done r)).activeJobs.map Job.tie =
      v.activeJobs.map Job.tie := by
    rw [Queue.activeJobs_freeCores_modJob hids.nodup hhas]
    exact Keyed.map_modify fun _ _ _ => rfl
  have hmem : x₁.tie ∈ ((v.freeCores p).modJob p.jobid (Job.done r)).activeJobs.map Job.tie :=
    List.mem_map_of_mem hx₁
  rw [hties] at hmem
  obtain ⟨x, hx, htie⟩ := List.mem_map.1 hmem
  have hxp : x = p.strip := by
    refine Keyed.eq_of_key hids.nodup hx hhas.mem ?_
    have : x.jobid = p'.strip.jobid := congrArg Prod.fst (htie.trans htie₁.symm)
    exact this.trans hid
  show p'.strip.tie = p.strip.tie
  rw [htie₁, ← htie, hxp]

theorem tells_finish {r : Result} {p p' : Job} {max : ℕ} (hids : v.Ids)
    (hg : (finish r p p' max).Guard v) : View.Tells [p'] v ((finish r p p' max).apply v) := by
  have htie := tie_finish hids hg
  have hplain : p'.plain = (p.freed.done r).plain := plain_finish hids hg
  have hresult : p'.result = r := congrArg Job.result hplain
  have hshare : ∀ k, p'.share k = (p.done r).share k := fun k => by
    have hlist : p'.notifyErrorlevelTo = p.notifyErrorlevelTo := congrArg Prod.snd htie
    rw [Job.share, Job.share, hresult, hlist]
    rfl
  have hhas : p.strip ∈ v.activeJobs := hg.1.mem
  refine ⟨⟨[_], rfl, rfl, by simp⟩, fun x hx => ?_, fun x' hx' => ?_, fun y hy => ?_⟩
  · obtain rfl := List.mem_singleton.1 hx
    exact ⟨p.strip, List.mem_append_left _ hhas, htie.symm⟩
  · have hx' : x' ∈ (v.toQueue.finish r p).activeJobs := Keyed.remove_subset hx'
    obtain ⟨x₁, hx₁, rfl⟩ := Queue.mem_notifyErrorlevel hx'
    have hx₁ : x₁ ∈ ((v.freeCores p).modJob p.jobid (Job.done r)).activeJobs := hx₁
    have hmem : x₁.ties ∈ ((v.freeCores p).modJob p.jobid (Job.done r)).activeJobs.map Job.ties :=
      List.mem_map_of_mem hx₁
    rw [Queue.ties_modJob (f := Job.done r) fun _ => rfl, Queue.ties_freeCores] at hmem
    obtain ⟨x, hx, hties⟩ := List.mem_map.1 hmem
    have hlevel : x.dependencyErrorlevel = x₁.dependencyErrorlevel := congrArg Prod.snd hties
    refine ⟨x, hx, congrArg Prod.fst hties, ?_⟩
    simp only [List.map_cons, List.map_nil, List.sum_singleton, hshare, hlevel]
  · obtain hy | hy := tie_push max _ p' hy
    · have hmem : y.tie ∈ (v.toQueue.finish r p).finishedJobs.map Job.tie := List.mem_map_of_mem hy
      rw [Queue.finish, Queue.tie_finished_notifyErrorlevel] at hmem
      have hfin : ((v.freeCores p).modJob p.jobid (Job.done r)).finishedJobs = v.finishedJobs :=
        Queue.finishedJobs_freeCores
      obtain ⟨x, hx, hxy⟩ := List.mem_map.1 hmem
      exact ⟨x, List.mem_append_right _ (hfin ▸ hx), hxy⟩
    · exact ⟨p.strip, List.mem_append_left _ hhas, (hy.trans htie).symm⟩

theorem tells_gone {p : Job} (hg : (gone p).Guard v) :
    View.Tells [p.gone] v ((gone p).apply v) := by
  refine ⟨⟨[_], rfl, rfl, by simp⟩, fun x hx => ?_, fun x' hx' => ?_, fun y hy => ?_⟩
  · obtain rfl := List.mem_singleton.1 hx
    exact ⟨p.strip, List.mem_append_left _ hg.1.mem, rfl⟩
  · obtain ⟨x₁, hx₁, rfl⟩ := Queue.mem_notifyErrorlevel hx'
    have hmem : x₁.ties ∈ (v.modJob p.jobid Job.gone).activeJobs.map Job.ties :=
      List.mem_map_of_mem hx₁
    rw [Queue.ties_modJob (f := Job.gone) fun _ => rfl] at hmem
    obtain ⟨x, hx, hties⟩ := List.mem_map.1 hmem
    have hlevel : x.dependencyErrorlevel = x₁.dependencyErrorlevel := congrArg Prod.snd hties
    refine ⟨x, hx, congrArg Prod.fst hties, ?_⟩
    simp only [List.map_cons, List.map_nil, List.sum_singleton, hlevel]
  · have hmem : y.tie ∈ ((v.modJob p.jobid Job.gone).notifyErrorlevel p.gone).finishedJobs.map
        Job.tie := List.mem_map_of_mem hy
    rw [Queue.tie_finished_notifyErrorlevel] at hmem
    obtain ⟨x, hx, hxy⟩ := List.mem_map.1 hmem
    exact ⟨x, List.mem_append_right _ hx, hxy⟩

theorem tells_goneFinished {p : Job} (hg : (goneFinished p).Guard v) :
    View.Tells [p.gone] v ((goneFinished p).apply v) := by
  refine ⟨⟨[_], rfl, rfl, by simp⟩, fun x hx => ?_, fun x' hx' => ?_, fun y hy => ?_⟩
  · obtain rfl := List.mem_singleton.1 hx
    exact ⟨p.strip, List.mem_append_right _ hg.1, rfl⟩
  · obtain ⟨x, hx, rfl⟩ := Queue.mem_notifyErrorlevel hx'
    refine ⟨x, hx, rfl, ?_⟩
    simp only [List.map_cons, List.map_nil, List.sum_singleton]
  · have hmem := List.mem_map_of_mem (f := Job.tie) hy
    have hsame : ((goneFinished p).apply v).finishedJobs.map Job.tie =
        (Keyed.modifyFirst Job.jobid p.jobid Job.gone v.finishedJobs).map Job.tie :=
      Queue.tie_finished_notifyErrorlevel
    rw [hsame, Keyed.map_modifyFirst (f := Job.gone) (g := Job.tie) fun _ _ _ => rfl] at hmem
    obtain ⟨x, hx, hxy⟩ := List.mem_map.1 hmem
    exact ⟨x, List.mem_append_right _ hx, hxy⟩

/-- **What a move tells**, and that it leaves the lists alone. -/
theorem tells (hids : v.Ids) (hg : a.Guard v) (ha : a.KeepsTies) :
    View.Tells a.news v (a.apply v) := by
  cases a with
  | finish r p p' max => exact tells_finish hids hg
  | gone p => exact tells_gone hg
  | goneFinished p => exact tells_goneFinished hg
  | submit p ds n m q | reuse old p ds m q => exact ha.elim
  | pause p =>
    exact .of_eq (.inl rfl) ((Queue.ties_modJob (f := Job.setState .pause) fun _ => rfl).trans
      Queue.ties_freeCores) (congrArg _ Queue.finishedJobs_freeCores)
  | abnormal p =>
    exact .of_eq (.inl rfl) ((Queue.ties_modJob (f := Job.setState .abnormal) fun _ => rfl).trans
      Queue.ties_freeCores) (congrArg _ Queue.finishedJobs_freeCores)
  | relegate p requeue =>
    refine .of_eq (.inl rfl) ?_ ?_
    · refine (Queue.ties_modJob (f := Job.relegated) fun _ => rfl).trans ?_
      split_ifs
      · exact Queue.ties_freeCores
      · rfl
    · show (Queue.modJob _ _ _).finishedJobs.map _ = _
      split_ifs
      · exact congrArg _ Queue.finishedJobs_freeCores
      · rfl
  | wall p w =>
    exact .of_eq (.inl rfl) (Queue.ties_modJob (f := Job.setWallTime w) fun _ => rfl) rfl
  | pid p n => exact .of_eq (.inl rfl) (Queue.ties_modJob (f := Job.setPid n) fun _ => rfl) rfl
  | start p => exact .of_eq (.inl rfl) Queue.ties_start (congrArg _ Queue.finishedJobs_start)
  | dispatch uid p q =>
    refine .of_eq (.inr ⟨_, rfl, trivial⟩) (Queue.ties_start.trans ?_) ((congrArg _ Queue.finishedJobs_start).trans ?_)
    · split_ifs
      · exact congrArg _ Queue.activeJobs_modUser
      · rfl
    · split_ifs
      · exact congrArg _ Queue.finishedJobs_modUser
      · rfl
  | asleep uid p q =>
    exact .of_eq (.inr ⟨_, rfl, trivial⟩) (Queue.ties_modJob (f := Job.setState .pause) fun _ => rfl) rfl
  | wake p => exact .of_eq (.inl rfl) (Queue.ties_modJob (f := Job.setState .queued) fun _ => rfl) rfl
  | lock p =>
    exact .of_eq (.inl rfl) ((Queue.ties_modJob (f := Job.setState .locked) fun _ => rfl).trans
      (congrArg _ Queue.activeJobs_modUser)) (congrArg _ Queue.finishedJobs_modUser)
  | unlock p =>
    exact .of_eq (.inl rfl) ((Queue.ties_modJob (f := Job.setState .queued) fun _ => rfl).trans
      (congrArg _ Queue.activeJobs_modUser)) (congrArg _ Queue.finishedJobs_modUser)
  | drop p shelf =>
    cases shelf with
    | none => exact .of_subset (.inl rfl) (List.map_subset _ Keyed.remove_subset) (List.Subset.refl _)
    | some x =>
      have hplain : x.2.plain = p.freed.plain := (hg.2.2 x rfl).2.2
      have hid : x.2.jobid = p.freed.jobid := Job.jobid_of_plain hplain
      have htie : x.2.tie = p.strip.tie := Prod.ext hid ha
      refine ⟨⟨[], rfl, rfl, by simp⟩, by simp [news], fun x' hx' => ?_, fun y hy => ?_⟩
      · have hx' : x' ∈ ((v.dropJob p.jobid).freeCores p).activeJobs := hx'
        rw [Queue.activeJobs_dropJob_freeCores hids.nodup] at hx'
        exact ⟨x', Keyed.remove_subset hx', rfl, by simp [news]⟩
      · obtain hy | hy := tie_push x.1 _ x.2 hy
        · rw [Queue.finishedJobs_freeCores] at hy
          exact ⟨y, List.mem_append_right _ hy, rfl⟩
        · exact ⟨p.strip, List.mem_append_left _ hg.1.mem, (hy.trans htie).symm⟩
  | forget l => exact .of_subset (.inl rfl) (List.Subset.refl _) (List.map_subset _ hg.subset)
  | delete p =>
    exact .of_subset (.inr ⟨_, rfl, trivial⟩) (List.map_subset _ Keyed.remove_subset) (List.Subset.refl _)
  | reorder l => exact .of_subset (.inl rfl) (List.map_subset _ hg.subset) (List.Subset.refl _)
  | recount =>
    simp only [apply]
    split_ifs
    · exact .of_eq (.inr ⟨_, rfl, trivial⟩) rfl rfl
    · exact .of_eq (.inl rfl) rfl rfl
  | reconnect p st socket =>
    refine .of_eq (.inl rfl) ?_ ?_
    · show (Queue.modAnyJob _ _ _).activeJobs.map _ = _
      rw [Queue.modAnyJob]
      split_ifs
      · exact Queue.ties_modJob (f := Job.reconnected st socket) fun _ => rfl
      · rfl
    · show (Queue.modAnyJob _ _ _).finishedJobs.map _ = _
      rw [Queue.modAnyJob]
      split_ifs
      · rfl
      · exact Keyed.map_modifyFirst (f := Job.reconnected st socket) fun _ _ _ => rfl
  | jobids n | users us n | maxSlots n => exact .of_eq (.inl rfl) rfl rfl

/-! ### The ids of all jobs -/

/-- The id of the job that a move takes to the finished ones. -/
def shelved : Act → List ℤ
  | finish _ p _ _ => [p.jobid]
  | drop p (some _) => [p.jobid]
  | _ => []

theorem shelved_of_new {p : Job} (hnew : a.new v = some p) : a.shelved = [] := by
  cases a with
  | finish r p p' max => cases hnew
  | drop p shelf => cases hnew
  | _ => rfl

theorem shelved_of_old_none (hold : a.old v = none) : a.shelved = [] := by
  cases a with
  | finish r p p' max => cases hold
  | drop p shelf => cases hold
  | _ => rfl

theorem shelved_sublist {p : Job} (hold : a.old v = some p) : a.shelved.Sublist [p.jobid] := by
  cases a with
  | finish r p p' max =>
    cases hold
    exact .refl _
  | drop p shelf =>
    cases hold
    cases shelf with
    | none => exact List.nil_sublist _
    | some x => exact .refl _
  | _ => exact List.nil_sublist _

theorem active_subperm (hids : v.Ids) (hg : a.Guard v) (hnew : ∀ p ds n m q, a ≠ submit p ds n m q) :
    (a.shelved ++ (a.apply v).activeJobs.map Job.jobid).Subperm (v.activeJobs.map Job.jobid) := by
  have hperm := ids_perm hids hg
  cases hold : a.old v with
  | none =>
    cases hnew' : a.new v with
    | none =>
      rw [shelved_of_old_none hold]
      simp only [hold, hnew', Option.toList_none, List.map_nil, List.nil_append] at hperm ⊢
      exact hperm.subperm
    | some p =>
      obtain ⟨ds, n, m, q, rfl⟩ := new_of_old_none hold hnew'
      exact absurd rfl (hnew p ds n m q)
  | some p =>
    cases hnew' : a.new v with
    | some p' =>
      rw [shelved_of_new hnew']
      simp only [hold, hnew', Option.toList_some, List.map_cons, List.map_nil, List.cons_append,
        List.nil_append, jobid_new hg hold hnew', List.perm_cons] at hperm ⊢
      exact hperm.subperm
    | none =>
      simp only [hold, hnew', Option.toList_some, Option.toList_none, List.map_cons, List.map_nil,
        List.nil_append] at hperm
      exact ((shelved_sublist hold).append_right _).subperm.trans hperm.subperm

theorem kept_subperm (max : ℕ) (l : List Job) {k : ℤ} {p : Job} (hid : p.jobid = k) :
    ((Queue.kept max l ++ [p]).map Job.jobid).Subperm (l.map Job.jobid ++ [k]) := by
  rw [List.map_append, List.map_singleton, hid]
  exact (((Queue.kept_sublist max l).map Job.jobid).append_right _).subperm

theorem finished_subperm (hids : v.Ids) (hg : a.Guard v) :
    ((a.apply v).finishedJobs.map Job.jobid).Subperm
      (v.finishedJobs.map Job.jobid ++ a.shelved) := by
  have hids' : (a.apply v).finishedJobs.map Job.jobid = (a.finished v).map Job.jobid := by
    have h := congrArg (List.map Job.jobid) (finished_apply (a := a) (v := v))
    rw [List.map_map, List.map_map] at h
    exact h
  rw [hids']
  have hsub : ∀ {l : List Job}, (l.map Job.jobid).Sublist (v.finishedJobs.map Job.jobid) →
      (l.map Job.jobid).Subperm (v.finishedJobs.map Job.jobid ++ []) := fun h => by
    rw [List.append_nil]
    exact h.subperm
  cases a with
  | finish r p p' max =>
    have hid : p'.jobid = (p.freed.done r).jobid :=
      Job.jobid_of_plain (plain_finish hids hg)
    exact kept_subperm max _ hid
  | drop p shelf =>
    cases shelf with
    | none => exact hsub (.refl _)
    | some x =>
      have hplain : x.2.plain = p.freed.plain := (hg.2.2 x rfl).2.2
      have hid : x.2.jobid = p.freed.jobid := Job.jobid_of_plain hplain
      exact kept_subperm x.1 _ hid
  | goneFinished p =>
    have h : (finished v (goneFinished p)).map Job.jobid = v.finishedJobs.map Job.jobid :=
      Keyed.map_modifyFirst (f := Job.gone) fun _ _ _ => rfl
    exact hsub (h ▸ .refl _)
  | forget l => exact hsub (List.Sublist.map Job.jobid hg)
  | reconnect p st socket =>
    have h : (finished v (reconnect p st socket)).map Job.jobid = v.finishedJobs.map Job.jobid := by
      rw [finished]
      split_ifs
      · rfl
      · exact Keyed.map_modifyFirst (f := Job.reconnected st socket) fun _ _ _ => rfl
    exact hsub (h ▸ .refl _)
  | _ => exact hsub (.refl _)

/-- **No job appears twice**: without a submission, the jobs after a move were there before. -/
theorem ids_subperm (hids : v.Ids) (hg : a.Guard v) (hnew : ∀ p ds n m q, a ≠ submit p ds n m q) :
    (((a.apply v).activeJobs ++ (a.apply v).finishedJobs).map Job.jobid).Subperm
      ((v.activeJobs ++ v.finishedJobs).map Job.jobid) := by
  rw [List.map_append, List.map_append]
  have hact := active_subperm hids hg hnew
  have hfin := finished_subperm hids hg
  refine ((List.subperm_append_left _).2 hfin).trans ?_
  have hperm : ((a.apply v).activeJobs.map Job.jobid ++ (v.finishedJobs.map Job.jobid ++ a.shelved)).Perm
      ((a.shelved ++ (a.apply v).activeJobs.map Job.jobid) ++ v.finishedJobs.map Job.jobid) := by
    rw [← List.append_assoc]
    refine List.perm_append_comm.trans ?_
    rw [List.append_assoc]
  exact hperm.subperm.trans ((List.subperm_append_right _).2 hact)

end Act

/-! ### The operations -/

namespace Op

variable {e : Env} {s s' : Spool} {o : Op}

/-- The record of a finished job that is removed is not dropped from the queue. -/
theorem Makes.keepsTies {a : Act} (h : o.Makes a)
    (hfill : ∀ socket m user old, o ≠ .fill socket m user old) (hact : ∀ p, o ≠ .removeActive p) :
    a.KeepsTies ∨ ∃ p p' shelf, o = .removeFinished p ∧ a = .drop p' shelf ∧ p'.jobid = p.jobid := by
  cases a with
  | submit p ds n m q | reuse old p ds m q =>
    cases o with
    | fill socket m user old => exact absurd rfl (hfill socket m user old)
    | _ => exact h.elim
  | drop p' shelf =>
    cases o with
    | fill socket m user old => exact absurd rfl (hfill socket m user old)
    | removeActive p => exact absurd rfl (hact p)
    | removeFinished p => exact .inr ⟨p, p', shelf, rfl, rfl, h⟩
    | _ => exact h.elim
  | _ => exact .inl trivial

theorem Makes.not_submit {a : Act} (h : o.Makes a)
    (hfill : ∀ socket m user old, o ≠ .fill socket m user old) :
    ∀ p ds n m q, a ≠ .submit p ds n m q := by
  rintro p ds n m q rfl
  cases o with
  | fill socket m user old => exact hfill socket m user old rfl
  | _ => exact h.elim

/-- **What an operation tells**: only a submission writes to the lists of the jobs to tell, and the
jobs afterwards were there before. -/
theorem tells (hids : s.view.Ids) (hpre : o.Pre e s) (h : o.run e s = .ok s')
    (ho : ∀ socket m user old, o ≠ .fill socket m user old) :
    (∃ news, View.Tells news s.view s'.view) ∧
      ((s'.view.activeJobs ++ s'.view.finishedJobs).map Job.jobid).Subperm
        ((s.view.activeJobs ++ s.view.finishedJobs).map Job.jobid) := by
  have hmoves : Moves (fun a w => (∀ p ds n m q, a ≠ .submit p ds n m q) ∧
      ((∃ news, View.Tells news s.view w) → a.Guard w → a.KeepsTies)) s.view s'.view := by
    by_cases hact : ∃ p, o = .removeActive p
    · obtain ⟨p, rfl⟩ := hact
      refine (Spool.removeActive_shelves hpre.1 hpre.2.1 hpre.2.2.1 hpre.2.2.2 h).mono
        fun a w ⟨ha, hlist⟩ => ⟨?_, fun ⟨news, hnews⟩ hg => ?_⟩
      · rintro p ds n m q rfl
        exact ha.elim
      · cases a with
        | drop p' shelf =>
          cases shelf with
          | none => trivial
          | some x =>
            -- the job that is dropped is the one that is removed
            have hid : p'.jobid = p.jobid := ha
            obtain ⟨y, hy, htie, -⟩ := hnews.active _ hg.1.mem
            have hyp : y = p.strip := by
              refine Keyed.eq_of_key hids.nodup hy (Spool.view_has hpre.1).mem ?_
              have : y.jobid = p'.jobid := congrArg Prod.fst htie
              exact this.trans hid
            have hsame : p.notifyErrorlevelTo = p'.notifyErrorlevelTo := by
              rw [hyp] at htie
              exact congrArg Prod.snd htie
            exact (hlist p' x rfl).trans hsame
        | submit p ds n m q | reuse old p ds m q => exact ha.elim
        | _ => trivial
    · have hne : ∀ p, o ≠ .removeActive p := fun p hp => hact ⟨p, hp⟩
      refine (Op.moves hids hpre h).mono fun a w ha => ⟨ha.not_submit ho, fun ⟨news, hnews⟩ hg => ?_⟩
      obtain hkeep | ⟨p, p', shelf, rfl, rfl, hid⟩ := ha.keepsTies ho hne
      · exact hkeep
      · obtain ⟨y, hy, htie, -⟩ := hnews.active _ hg.1.mem
        obtain ⟨x, hx, rfl⟩ := List.mem_map.1 hy
        have hxid : x.jobid = p'.jobid := congrArg Prod.fst htie
        exact absurd (hxid.trans hid) (Keyed.lookup_eq_none.1 hpre.2 x hx)
  refine (hmoves.invariant (I := fun w => w.Ids ∧ (∃ news, View.Tells news s.view w) ∧
    ((w.activeJobs ++ w.finishedJobs).map Job.jobid).Subperm
      ((s.view.activeJobs ++ s.view.finishedJobs).map Job.jobid)) ⟨hids, ⟨[], .refl⟩, .refl _⟩
    fun {w a} hI ha hg => ?_).2
  obtain ⟨hw, ⟨news, hnews⟩, hsub⟩ := hI
  exact ⟨Act.ids_apply hw hg, ⟨_, hnews.trans (Act.tells hw hg (ha.2 ⟨news, hnews⟩ hg))⟩,
    (Act.ids_subperm hw hg ha.1).trans hsub⟩

end Op

/-! ### What a job has heard -/

/-- What the jobs `ds` have reported in these events. -/
def heard (ds : List ℤ) (events : List Event) : ℤ :=
  ((reports events).map fun r => ds.count r.jobid * (r.result.errorlevel.natAbs : ℤ)).sum

theorem heard_append (ds : List ℤ) (l l' : List Event) :
    heard ds (l ++ l') = heard ds l + heard ds l' := by
  rw [heard, reports, List.filterMap_append, List.map_append, List.sum_append]
  rfl

namespace View

variable {v v' : View} {news : List Job}

/-- Without ids that the clients have chosen: all jobs have distinct positive ids below the next one,
and they tell only jobs with such ids. -/
structure Numbered (v : View) : Prop where
  pos : 0 < v.jobids
  nodup : ((v.activeJobs ++ v.finishedJobs).map Job.jobid).Nodup
  range : ∀ y ∈ v.activeJobs ++ v.finishedJobs, 0 < y.jobid ∧ y.jobid < v.jobids
  told : ∀ y ∈ v.activeJobs ++ v.finishedJobs, ∀ k ∈ y.notifyErrorlevelTo, k < v.jobids

/-- The job `k` will hear from the jobs `ds`, as long as they are there, and from nobody else.  It has
heard `base` and what they have reported in the events `later`. -/
structure Hears (v : View) (ds : List ℤ) (k base : ℤ) (later : List Event) : Prop where
  given : k < v.jobids
  older : ∀ d ∈ ds, d < k
  listed : ∀ y ∈ v.activeJobs ++ v.finishedJobs, y.notifyErrorlevelTo.count k = ds.count y.jobid
  level : ∀ x ∈ v.activeJobs, x.jobid = k → x.dependencyErrorlevel = base + heard ds later

theorem Numbered.tells (h : v.Numbered) (hT : Tells news v v') (hle : v.jobids ≤ v'.jobids)
    (hsub : ((v'.activeJobs ++ v'.finishedJobs).map Job.jobid).Subperm
      ((v.activeJobs ++ v.finishedJobs).map Job.jobid)) : v'.Numbered := by
  have hnd : ((v'.activeJobs ++ v'.finishedJobs).map Job.jobid).Nodup := by
    obtain ⟨l, hperm, hsub⟩ := hsub
    exact hperm.nodup_iff.1 (h.nodup.sublist hsub)
  refine ⟨h.pos.trans_le hle, hnd, fun y hy => ?_, fun y hy k hk => ?_⟩
  · obtain ⟨x, hx, hid⟩ := List.mem_map.1 (hsub.subset (List.mem_map_of_mem hy))
    rw [← hid]
    exact ⟨(h.range x hx).1, (h.range x hx).2.trans_le hle⟩
  · obtain ⟨x, hx, htie⟩ := hT.origin hy
    have hlist : x.notifyErrorlevelTo = y.notifyErrorlevelTo := congrArg Prod.snd htie
    exact (h.told x hx k (hlist ▸ hk)).trans_le hle

/-- **A job hears everything it waits for**, and nothing else. -/
theorem Hears.tells {ds : List ℤ} {k base : ℤ} {later more : List Event}
    (h : v.Hears ds k base later) (hT : Tells (reports more) v v') (hle : v.jobids ≤ v'.jobids) :
    v'.Hears ds k base (more ++ later) := by
  refine ⟨h.given.trans_le hle, h.older, fun y hy => ?_, fun x' hx' hid => ?_⟩
  · obtain ⟨x, hx, htie⟩ := hT.origin hy
    have hlist : x.notifyErrorlevelTo = y.notifyErrorlevelTo := congrArg Prod.snd htie
    have hid : x.jobid = y.jobid := congrArg Prod.fst htie
    rw [← hlist, ← hid]
    exact h.listed x hx
  · obtain ⟨x, hx, htie, hlevel⟩ := hT.active x' hx'
    have hxid : x.jobid = x'.jobid := congrArg Prod.fst htie
    have hshare : (reports more).map (fun r => r.share x'.jobid) =
        (reports more).map fun r => ds.count r.jobid * (r.result.errorlevel.natAbs : ℤ) := by
      refine List.map_congr_left fun r hr => ?_
      obtain ⟨y, hy, hyr⟩ := hT.known r hr
      have hylist : y.notifyErrorlevelTo = r.notifyErrorlevelTo := congrArg Prod.snd hyr
      have hyid : y.jobid = r.jobid := congrArg Prod.fst hyr
      rw [Job.share, ← hylist, hid, h.listed y hy, hyid]
    rw [hlevel, h.level x hx (hxid.trans hid), hshare, heard_append, add_assoc, ← heard]
    omega

/-! ### Submissions -/

variable {p : Job} {ds : List ℤ} {n : ℤ} {m : NewJob} {q : Queue}

theorem activeJobs_submit : ((Act.submit p ds n m q).apply v).activeJobs =
    (v.notifiedBy ds p.jobid).activeJobs ++ [p.strip] :=
  Queue.activeJobs_modUser

theorem finishedJobs_submit : ((Act.submit p ds n m q).apply v).finishedJobs = v.finishedJobs :=
  Queue.finishedJobs_modUser

/-- The active jobs after a submission: the new one, and the old ones with their longer lists. -/
theorem mem_active_submit {y : Job} (hy : y ∈ ((Act.submit p ds n m q).apply v).activeJobs) :
    y = p.strip ∨ ∃ x ∈ v.activeJobs, y =
      { x with
        notifyErrorlevelTo :=
          x.notifyErrorlevelTo ++ List.replicate (ds.count x.jobid) p.jobid } := by
  rw [activeJobs_submit, List.mem_append, List.mem_singleton] at hy
  exact hy.elim (fun hy => .inr (Queue.mem_notifiedBy hy)) .inl

theorem mem_submit {y : Job} (hy : y ∈ ((Act.submit p ds n m q).apply v).activeJobs ++
      ((Act.submit p ds n m q).apply v).finishedJobs) :
    y = p.strip ∨ y ∈ v.finishedJobs ∨ ∃ x ∈ v.activeJobs, y =
      { x with
        notifyErrorlevelTo :=
          x.notifyErrorlevelTo ++ List.replicate (ds.count x.jobid) p.jobid } := by
  obtain hy | hy := List.mem_append.1 hy
  · exact (mem_active_submit hy).imp_right .inr
  · exact .inr (.inl (finishedJobs_submit ▸ hy))

theorem ids_submit : (((Act.submit p ds n m q).apply v).activeJobs ++
    ((Act.submit p ds n m q).apply v).finishedJobs).map Job.jobid =
      v.activeJobs.map Job.jobid ++ p.jobid :: v.finishedJobs.map Job.jobid := by
  have hids : (v.notifiedBy ds p.jobid).activeJobs.map Job.jobid = v.activeJobs.map Job.jobid := by
    have hplain := congrArg (List.map Job.jobid) (Queue.plain_notifiedBy ds p.jobid (q := v.toQueue))
    rw [Queue.plain, Queue.plain, List.map_map, List.map_map] at hplain
    exact hplain
  rw [activeJobs_submit, finishedJobs_submit, List.map_append, List.map_append, hids,
    List.append_assoc]
  rfl

theorem jobids_submit : ((Act.submit p ds n m q).apply v).jobids = n :=
  congrArg (fun l => l.2.2) Act.limits_apply

/-- The server chooses the id. -/
theorem jobid_submit (hg : (Act.submit p ds n m q).Guard v) (hm : m.jobid = 0) :
    p.jobid = v.jobids := by
  obtain ⟨-, -, -, -, -, -, -, -, -, -, hid, -⟩ := hg
  rw [hid, if_neg (not_not.2 hm)]

theorem Numbered.submit (h : v.Numbered) (hg : (Act.submit p ds n m q).Guard v)
    (hm : m.jobid = 0) : ((Act.submit p ds n m q).apply v).Numbered := by
  have hid := jobid_submit hg hm
  have hlt : p.jobid < n := hg.2.2.1
  have hjobids : ((Act.submit p ds n m q).apply v).jobids = n := jobids_submit
  have hnd := h.nodup
  have hnew : ∀ y ∈ v.activeJobs ++ v.finishedJobs, y.jobid ≠ p.jobid := fun y hy => by
    have := (h.range y hy).2
    omega
  refine ⟨?_, ?_, fun y hy => ?_, fun y hy k hk => ?_⟩
  · have := h.pos
    omega
  · rw [ids_submit]
    refine List.perm_middle.nodup_iff.2 (List.nodup_cons.2 ⟨?_, by rwa [List.map_append] at hnd⟩)
    rw [← List.map_append]
    intro hmem
    obtain ⟨y, hy, heq⟩ := List.mem_map.1 hmem
    exact hnew y hy heq
  · rw [hjobids]
    obtain rfl | hy | ⟨x, hx, rfl⟩ := mem_submit hy
    · have := h.pos
      exact ⟨by show 0 < p.jobid; omega, hlt⟩
    · have := h.range y (List.mem_append_right _ hy)
      omega
    · have := h.range x (List.mem_append_left _ hx)
      exact ⟨this.1, by show x.jobid < n; omega⟩
  · rw [hjobids]
    obtain rfl | hy | ⟨x, hx, rfl⟩ := mem_submit hy
    · have hnil : p.notifyErrorlevelTo = [] := hg.2.2.2.2.2.2.1
      have hk : k ∈ p.notifyErrorlevelTo := hk
      rw [hnil] at hk
      exact absurd hk List.not_mem_nil
    · have := h.told y (List.mem_append_right _ hy) k hk
      omega
    · obtain hk | hk := List.mem_append.1 hk
      · have := h.told x (List.mem_append_left _ hx) k hk
        omega
      · rwa [List.eq_of_mem_replicate hk]

theorem Hears.submit {ds' : List ℤ} {k base : ℤ} {later : List Event}
    (h : v.Hears ds' k base later) (hg : (Act.submit p ds n m q).Guard v) (hm : m.jobid = 0) :
    ((Act.submit p ds n m q).apply v).Hears ds' k base (.submit p m q :: later) := by
  have hid := jobid_submit hg hm
  have hlt : p.jobid < n := hg.2.2.1
  have hjobids : ((Act.submit p ds n m q).apply v).jobids = n := jobids_submit
  have hk := h.given
  refine ⟨by omega, h.older, fun y hy => ?_, fun y hy hyk => ?_⟩
  · obtain rfl | hy | ⟨x, hx, rfl⟩ := mem_submit hy
    · have hnil : p.notifyErrorlevelTo = [] := hg.2.2.2.2.2.2.1
      have hno : p.jobid ∉ ds' := fun hmem => by
        have := h.older _ hmem
        omega
      show p.notifyErrorlevelTo.count k = ds'.count p.jobid
      rw [hnil, List.count_nil, List.count_eq_zero.2 hno]
    · exact h.listed y (List.mem_append_right _ hy)
    · have hne : k ≠ p.jobid := by omega
      rw [List.count_append, List.count_replicate, if_neg (by simpa using hne.symm), add_zero]
      exact h.listed x (List.mem_append_left _ hx)
  · obtain rfl | ⟨x, hx, rfl⟩ := mem_active_submit hy
    · have hyk : p.jobid = k := hyk
      omega
    · exact h.level x hx hyk

/-- The new job will hear from the active jobs that it depends on. -/
theorem Numbered.hears (h : v.Numbered) (hg : (Act.submit p ds n m q).Guard v) (hm : m.jobid = 0)
    (hds : ∀ d ∈ ds, d ∈ v.activeJobs.map Job.jobid) :
    ((Act.submit p ds n m q).apply v).Hears ds p.jobid p.dependencyErrorlevel [] := by
  have hid := jobid_submit hg hm
  have hnd := h.nodup
  rw [List.map_append] at hnd
  have holder : ∀ d ∈ ds, d < p.jobid := fun d hd => by
    obtain ⟨x, hx, rfl⟩ := List.mem_map.1 (hds d hd)
    have := (h.range x (List.mem_append_left _ hx)).2
    omega
  -- nobody has the new id on his list yet
  have hnone : ∀ y ∈ v.activeJobs ++ v.finishedJobs, y.notifyErrorlevelTo.count p.jobid = 0 :=
    fun y hy => List.count_eq_zero.2 fun hmem => by
      have := h.told y hy _ hmem
      omega
  refine ⟨by rw [jobids_submit]; exact hg.2.2.1, holder, fun y hy => ?_, fun y hy hyk => ?_⟩
  · obtain rfl | hy | ⟨x, hx, rfl⟩ := mem_submit hy
    · have hnil : p.notifyErrorlevelTo = [] := hg.2.2.2.2.2.2.1
      have hno : p.jobid ∉ ds := fun hmem => lt_irrefl _ (holder _ hmem)
      show p.notifyErrorlevelTo.count p.jobid = ds.count p.jobid
      rw [hnil, List.count_nil, List.count_eq_zero.2 hno]
    · rw [hnone y (List.mem_append_right _ hy), eq_comm, List.count_eq_zero]
      exact fun hmem => (List.nodup_append.1 hnd).2.2 _ (hds _ hmem) _ (List.mem_map_of_mem hy) rfl
    · rw [List.count_append, hnone x (List.mem_append_left _ hx), List.count_replicate_self, zero_add]
  · obtain rfl | ⟨x, hx, rfl⟩ := mem_active_submit hy
    · simp [heard, reports, Job.strip]
    · have hlt := (h.range x (List.mem_append_left _ hx)).2
      have hyk : x.jobid = p.jobid := hyk
      omega

end View

end TaskSpooler
