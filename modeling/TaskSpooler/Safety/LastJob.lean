import TaskSpooler.Ops.Told
import TaskSpooler.Store.Steps

/-!
# The dependency on the last job

A client writes `-1` for a dependency on the last job.  `s_newjob` looks for it in two lists and in
the two globals `last_finished_jobid` and `last_errorlevel`, which other events write to.

* `last_job_iff`: when the new job really depends on the last one of the other jobs.
* `older_job_taken`: if jobs finish out of order, `-1` may name an older job than the last one.
-/

namespace TaskSpooler

namespace Queue

variable {q q' : Queue} {p p' : Job} {d : ℤ}

/-- The ids of the other jobs, when a job is submitted. -/
def others (q : Queue) (jobid : ℤ) : Set ℤ :=
  {d | d ≠ jobid ∧ d ∈ (q.activeJobs ++ q.finishedJobs).map Job.jobid}

/-- The globals of `jobs.c` lead to the last of the other jobs: there is none, or it is active and
no later job has finished last, or it is finished, no active job is as late as the one that finished
last, and the result that is taken is its own. -/
def LastKnown (q : Queue) (jobid : ℤ) : Prop :=
  q.others jobid = ∅ ∨
  (∃ x ∈ q.activeJobs, IsGreatest (q.others jobid) x.jobid ∧ q.lastFinishedJobid ≤ x.jobid) ∨
  ∃ x ∈ q.finishedJobs, IsGreatest (q.others jobid) x.jobid ∧
    (∀ y ∈ q.activeJobs, y.jobid ≠ jobid → y.jobid < q.lastFinishedJobid) ∧
    (q.lastFinishedJobid < x.jobid ∨ |q.lastErrorlevel| = |x.result.errorlevel|)

/-- The jobs in the queue have distinct positive ids below that of the new job. -/
structure Before (q : Queue) (jobid : ℤ) : Prop where
  nodup : ((q.activeJobs ++ q.finishedJobs).map Job.jobid).Nodup
  range : ∀ y ∈ q.activeJobs ++ q.finishedJobs, 0 < y.jobid ∧ y.jobid < jobid

theorem Before.apart {jobid : ℤ} (h : q.Before jobid) (x : Job) (hx : x ∈ q.activeJobs) (y : Job)
    (hy : y ∈ q.finishedJobs) : x.jobid ≠ y.jobid := by
  have hnd := h.nodup
  rw [List.map_append] at hnd
  exact (List.nodup_append.1 hnd).2.2 _ (List.mem_map_of_mem hx) _ (List.mem_map_of_mem hy)

theorem Before.eq_of_finished {jobid : ℤ} {x y : Job} (h : q.Before jobid) (hx : x ∈ q.finishedJobs)
    (hy : y ∈ q.finishedJobs) (hid : x.jobid = y.jobid) : x = y := by
  have hnd := h.nodup
  rw [List.map_append] at hnd
  exact Keyed.eq_of_key hnd.of_append_right hx hy hid

/-- What `-1` stands for: the dependency, the error level that it adds, and the jobs that will tell
theirs. -/
inductive LastAnswer (q : Queue) : ℤ → ℤ → List ℤ → Prop
  | active {x : Job} (hx : x ∈ q.activeJobs) (hmax : ∀ y ∈ q.activeJobs, y.jobid ≤ x.jobid)
      (hlast : q.lastFinishedJobid ≤ x.jobid) : LastAnswer q x.jobid 0 [x.jobid]
  | stored {x : Job} (hx : x ∈ q.finishedJobs) (hmax : ∀ y ∈ q.finishedJobs, y.jobid ≤ x.jobid)
      (hact : ∀ y ∈ q.activeJobs, y.jobid < q.lastFinishedJobid)
      (hlast : q.lastFinishedJobid < x.jobid) :
      LastAnswer q x.jobid x.result.errorlevel.natAbs []
  | result {x : Job} (hx : x ∈ q.finishedJobs) (hmax : ∀ y ∈ q.finishedJobs, y.jobid ≤ x.jobid)
      (hact : ∀ y ∈ q.activeJobs, y.jobid < q.lastFinishedJobid)
      (hlast : x.jobid ≤ q.lastFinishedJobid) : LastAnswer q x.jobid q.lastErrorlevel.natAbs []
  | none (hfin : q.finishedJobs = [])
      (hact : ∀ y ∈ q.activeJobs, y.jobid < q.lastFinishedJobid) :
      LastAnswer q (-1) q.lastErrorlevel.natAbs []

/-! ### The choice of the job -/

theorem le_foldl_max {l : List ℤ} {a x : ℤ} (hx : x ≤ a ∨ x ∈ l) : x ≤ l.foldl max a := by
  induction l generalizing a with
  | nil => exact hx.resolve_right List.not_mem_nil
  | cons y l ih =>
    rw [List.foldl_cons]
    obtain hx | hx := hx
    · exact ih (.inl (hx.trans (le_max_left a y)))
    · obtain rfl | hx := List.mem_cons.1 hx
      · exact ih (.inl (le_max_right a x))
      · exact ih (.inr hx)

/-- The greatest id of a list, as the two loops of `jobs.c` compute it. -/
theorem greatest_jobid {l : List Job} (hl : ∀ y ∈ l, 0 < y.jobid) :
    l = [] ∧ (l.map Job.jobid).foldl max (-1) = -1 ∨
      ∃ x ∈ l, (l.map Job.jobid).foldl max (-1) = x.jobid ∧ ∀ y ∈ l, y.jobid ≤ x.jobid := by
  cases l with
  | nil => exact .inl ⟨rfl, rfl⟩
  | cons z l =>
    have hle : ∀ y ∈ z :: l, y.jobid ≤ ((z :: l).map Job.jobid).foldl max (-1) := fun y hy =>
      le_foldl_max (.inr (List.mem_map_of_mem hy))
    have hpos := (hl z List.mem_cons_self).trans_le (hle z List.mem_cons_self)
    obtain h | h := foldl_max_mem ((z :: l).map Job.jobid) (-1)
    · omega
    · obtain ⟨x, hx, hid⟩ := List.mem_map.1 h
      exact .inr ⟨x, hx, hid.symm, fun y hy => hid ▸ hle y hy⟩

theorem findLastJobidInQueue_eq (hlt : ∀ y ∈ q.activeJobs, y.jobid < p.jobid) :
    q.findLastJobidInQueue p.jobid = (q.activeJobs.map Job.jobid).foldl max (-1) := by
  rw [findLastJobidInQueue, List.filter_eq_self.2]
  intro k hk
  obtain ⟨y, hy, rfl⟩ := List.mem_map.1 hk
  exact decide_eq_true (hlt y hy).ne

/-- **What `-1` stands for.** -/
theorem dependOnLast_answer (hpos : ∀ y ∈ q.activeJobs ++ q.finishedJobs, 0 < y.jobid)
    (hnd : (q.finishedJobs.map Job.jobid).Nodup) (hlt : ∀ y ∈ q.activeJobs, y.jobid < p.jobid)
    (h : q.dependOnLast p = .ok (q', p')) :
    ∃ d level ds, q.LastAnswer d level ds ∧ q' = q.notifiedBy ds p.jobid ∧
      p'.dependOn = p.dependOn ++ [d] ∧
      p'.dependencyErrorlevel = p.dependencyErrorlevel + level := by
  have hact := greatest_jobid fun y hy => hpos y (List.mem_append_left q.finishedJobs hy)
  have hfin := greatest_jobid fun y hy => hpos y (List.mem_append_right q.activeJobs hy)
  rw [dependOnLast] at h
  dsimp only at h
  rw [findLastJobidInQueue_eq hlt, findLastStoredJobidFinished] at h
  split_ifs at h with hlast hstored
  · cases h
    obtain ⟨-, hnone⟩ | ⟨x, hx, heq, hmax⟩ := hact
    · exact absurd hnone hlast.1
    · rw [heq] at hlast ⊢
      exact ⟨x.jobid, 0, [x.jobid], .active hx hmax hlast.2, rfl, rfl, (add_zero _).symm⟩
  all_goals
    have hbefore : ∀ y ∈ q.activeJobs, y.jobid < q.lastFinishedJobid := by
      intro y hy
      obtain ⟨hnil, -⟩ | ⟨x, hx, heq, hmax⟩ := hact
      · rw [hnil] at hy
        exact absurd hy List.not_mem_nil
      · have := hmax y hy
        have := hpos x (List.mem_append_left _ hx)
        rw [heq] at hlast
        omega
  · obtain ⟨hnil, hnone⟩ | ⟨x, hx, heq, hmax⟩ := hfin
    · have hfind : q.findFinishedJob (-1) = none := by
        rw [findFinishedJob, hnil]
        rfl
      rw [hnone, hfind] at h
      cases h
    · have hfind : q.findFinishedJob x.jobid = some x := Keyed.lookup_of_mem hnd hx
      rw [heq] at hstored
      rw [heq, hfind] at h
      cases h
      exact ⟨x.jobid, _, [], .stored hx hmax hbefore hstored, rfl, rfl, rfl⟩
  · cases h
    obtain ⟨hnil, hnone⟩ | ⟨x, hx, heq, hmax⟩ := hfin
    · rw [hnone]
      exact ⟨-1, _, [], .none hnil hbefore, rfl, rfl, rfl⟩
    · rw [heq] at hstored ⊢
      exact ⟨x.jobid, _, [], .result hx hmax hbefore (not_lt.1 hstored), rfl, rfl, rfl⟩

end Queue

/-! ### The invariant of the submissions -/

namespace Spool

variable {e : Env} {s s' : Spool}

/-- A job that was submitted to `q` with the dependency `-1` has been answered, and it hears from the
job it depends on. -/
def Answered (s : Spool) (q : Queue) (p : Job) (later : List Event) : Prop :=
  q.Before p.jobid ∧ ∃ d level ds, q.LastAnswer d level ds ∧ p.dependOn = [d] ∧
    p.dependencyErrorlevel = level ∧ s.view.Hears ds p.jobid level later

/-- All such jobs have been answered. -/
structure Remembers (s : Spool) : Prop where
  numbered : s.view.Numbered
  answered : ∀ later p m q earlier, s.events = later ++ .submit p m q :: earlier →
    m.dependencies = [-1] → s.Answered q p later

theorem before_of_numbered (hs : s.view.Numbered) : s.toQueue.Before s.jobids := by
  have hids : (s.activeJobs ++ s.finishedJobs).map Job.jobid =
      (s.view.activeJobs ++ s.view.finishedJobs).map Job.jobid := by
    show _ = (s.activeJobs.map Job.strip ++ s.finishedJobs.map Job.strip).map Job.jobid
    rw [← List.map_append, List.map_map]
    rfl
  refine ⟨hids ▸ hs.nodup, fun y hy => ?_⟩
  have hmem : y.jobid ∈ (s.activeJobs ++ s.finishedJobs).map Job.jobid := List.mem_map_of_mem hy
  rw [hids] at hmem
  obtain ⟨x, hx, hid⟩ := List.mem_map.1 hmem
  exact hid ▸ hs.range x hx

theorem dependLoop_answer {p : Job} {m : NewJob} {ds : List ℤ} (hs : s.toQueue.Before p.jobid)
    (hpos : 0 < p.jobid) (hm : m.dependencies = [-1]) (h : s.DependLoop p ds m) :
    ∃ d level ds', s.toQueue.LastAnswer d level ds' ∧ p.dependOn = [d] ∧
      p.dependencyErrorlevel = level ∧
      (s.view.notifiedBy ds p.jobid).activeJobs = (s.view.notifiedBy ds' p.jobid).activeJobs := by
  obtain ⟨n, p₀, p₁, hid, hdep, hlevel, hloop, hdep₁, hlevel₁⟩ := h
  have hnd : (s.finishedJobs.map Job.jobid).Nodup := by
    have := hs.nodup
    rw [List.map_append] at this
    exact this.of_append_right
  have hone : { s.toQueue with jobids := n }.dependOnLast p₀ =
      .ok ({ s.toQueue with jobids := n }.notifiedBy ds p.jobid, p₁) := by
    have hsize : m.dependOnSize ≠ 0 := by
      intro hzero
      rw [NewJob.dependencies, if_pos hzero] at hm
      cases hm
    rw [NewJob.dependencies, if_neg hsize] at hm
    rw [Queue.dependLoop, if_neg hsize] at hloop
    split_ifs at hloop
    rw [hm, List.foldlM_cons, Except.bind_eq_ok] at hloop
    obtain ⟨r, hr, hloop⟩ := hloop
    cases hloop
    have hgt : ¬p₀.jobid ≤ -1 := by omega
    rwa [Queue.dependOn, if_neg hgt, if_pos rfl] at hr
  obtain ⟨d, level, ds', hans, hq, hd, hl⟩ := Queue.dependOnLast_answer
    (q := { s.toQueue with jobids := n }) (fun y hy => (hs.range y hy).1) hnd
    (fun y hy => hid ▸ (hs.range y (List.mem_append_left _ hy)).2) hone
  refine ⟨d, level, ds', ?_, ?_, ?_, ?_⟩
  · cases hans with
    | active hx hmax hlast => exact .active hx hmax hlast
    | stored hx hmax hact hlast => exact .stored hx hmax hact hlast
    | result hx hmax hact hlast => exact .result hx hmax hact hlast
    | none hfin hact => exact .none hfin hact
  · rw [← hdep₁, hd, hdep, List.nil_append]
  · rw [← hlevel₁, hl, hlevel, zero_add]
  · have h := congrArg (fun q : Queue => q.strip.activeJobs) hq
    simp only [Queue.strip_notifiedBy, hid] at h
    exact h

/-- The last submission that an operation has not made is an earlier one. -/
theorem submit_of_tells {more events later earlier : List Event} {p : Job} {m : NewJob} {q : Queue}
    (hno : ∀ p m q, Event.submit p m q ∉ more)
    (h : more ++ events = later ++ .submit p m q :: earlier) :
    ∃ later', later = more ++ later' ∧ events = later' ++ .submit p m q :: earlier := by
  obtain ⟨later', hlater, hevents⟩ | ⟨rest, hmore, hrest⟩ := List.append_eq_append_iff.1 h
  · exact ⟨later', hlater, hevents⟩
  · cases rest with
    | nil => exact ⟨[], by simpa using hmore.symm, hrest.symm⟩
    | cons ev rest =>
      obtain ⟨rfl, -⟩ := List.cons.inj hrest
      exact absurd (hmore ▸ List.mem_append_right _ List.mem_cons_self) (hno p m q)

theorem Remembers.tells {news : List Job} (h : s.Remembers) (hT : View.Tells news s.view s'.view)
    (hle : s.jobids ≤ s'.jobids)
    (hsub : ((s'.view.activeJobs ++ s'.view.finishedJobs).map Job.jobid).Subperm
      ((s.view.activeJobs ++ s.view.finishedJobs).map Job.jobid)) : s'.Remembers := by
  refine ⟨h.numbered.tells hT hle hsub, fun later p m q earlier hev hm => ?_⟩
  obtain ⟨more, hmore, rfl, hno⟩ := hT.events
  have hmore : s'.events = more ++ s.events := hmore
  obtain ⟨later', rfl, hev'⟩ := submit_of_tells hno (hmore ▸ hev)
  obtain ⟨hbefore, d, level, ds, hans, hd, hl, hears⟩ := h.answered later' p m q earlier hev' hm
  exact ⟨hbefore, d, level, ds, hans, hd, hl, hears.tells hT hle⟩

theorem LastAnswer.mem_active {q : Queue} {d level : ℤ} {ds : List ℤ}
    (h : q.LastAnswer d level ds) : ∀ k ∈ ds, k ∈ q.activeJobs.map Job.jobid := by
  intro k hk
  cases h with
  | active hx hmax hlast =>
    obtain rfl := List.mem_singleton.1 hk
    exact List.mem_map_of_mem hx
  | _ => exact absurd hk List.not_mem_nil

theorem Remembers.submit {p : Job} {ds : List ℤ} {n : ℤ} {m : NewJob} (h : s.Remembers)
    (hg : (Act.submit p ds n m s.toQueue).Guard s.view) (hm : m.jobid = 0)
    (hloop : s.DependLoop p ds m)
    (hv : s'.view = (Act.submit p ds n m s.toQueue).apply s.view) : s'.Remembers := by
  have hid : p.jobid = s.jobids := View.jobid_submit hg hm
  have hevents : s'.events = .submit p m s.toQueue :: s.events := congrArg View.events hv
  refine ⟨hv ▸ h.numbered.submit hg hm, fun later p' m' q' earlier hev hlast => ?_⟩
  rw [hevents] at hev
  cases later with
  | nil =>
    cases hev
    have hbefore : s.toQueue.Before p.jobid := hid ▸ before_of_numbered h.numbered
    have hpos : 0 < p.jobid := hid ▸ h.numbered.pos
    obtain ⟨d, level, ds', hans, hd, hl, hact⟩ := dependLoop_answer hbefore hpos hlast hloop
    have happly : (Act.submit p ds n m s.toQueue).apply s.view =
        (Act.submit p ds' n m s.toQueue).apply s.view := by
      simp only [Act.apply, View.onQueue, hact]
    -- what the guard says of `ds` is about requests without `-1`
    have hg' : (Act.submit p ds' n m s.toQueue).Guard s.view := by
      obtain ⟨g₁, g₂, g₃, g₄, g₅, g₆, g₇, g₈, g₉, -, g₁₁, g₁₂⟩ := hg
      exact ⟨g₁, g₂, g₃, g₄, g₅, g₆, g₇, g₈, g₉,
        fun hne => absurd rfl (hne (-1) (hlast ▸ List.mem_singleton_self _)), g₁₁, g₁₂⟩
    have hmem : ∀ k ∈ ds', k ∈ s.view.activeJobs.map Job.jobid := by
      intro k hk
      obtain ⟨x, hx, rfl⟩ := List.mem_map.1 (LastAnswer.mem_active hans k hk)
      exact List.mem_map.2 ⟨x.strip, List.mem_map_of_mem hx, rfl⟩
    refine ⟨hbefore, d, level, ds', hans, hd, hl, ?_⟩
    rw [hv, happly, ← hl]
    exact h.numbered.hears hg' hm hmem
  | cons ev later =>
    obtain ⟨rfl, hev'⟩ := List.cons.inj hev
    obtain ⟨hbefore, d, level, ds', hans, hd, hl, hears⟩ :=
      h.answered later p' m' q' earlier hev' hlast
    refine ⟨hbefore, d, level, ds', hans, hd, hl, ?_⟩
    rw [hv]
    exact hears.submit hg hm

/-- **Every operation keeps the answers**, if the server chooses the ids. -/
theorem Remembers.op {o : Op} (h : s.Remembers) (hids : s.view.Ids) (hpre : o.Pre e s)
    (hrun : o.run e s = .ok s') (ho : ∀ socket m user old, o = .fill socket m user old → m.jobid = 0) :
    s'.Remembers := by
  by_cases hfill : ∃ socket m user old, o = .fill socket m user old
  · obtain ⟨socket, m, user, old, rfl⟩ := hfill
    have hm := ho socket m user old rfl
    obtain ⟨huser, hold, -⟩ := hpre
    rw [if_pos hm] at hold
    subst hold
    rw [Op.run, Except.map_eq_ok] at hrun
    obtain ⟨⟨s₁, id⟩, hrun, rfl⟩ := hrun
    obtain ⟨a, hg, ha, hv, hloop⟩ := newjobFill_loop hids huser (fun hne => absurd hm hne) hrun
    cases a with
    | jobids n =>
      have hT : View.Tells [] s.view s₁.view := hv ▸ Act.tells hids hg trivial
      have hle : s.view.jobids ≤ s₁.view.jobids := hv ▸ Act.jobids_apply hg
      exact h.tells hT hle (hv ▸ Act.ids_subperm hids hg fun _ _ _ _ _ h => by cases h)
    | submit p ds n m' q =>
      obtain ⟨rfl, hloop'⟩ := hloop p ds n m' q rfl
      obtain ⟨rfl, -⟩ := ha
      exact h.submit hg hm hloop' hv
    | drop p shelf => exact absurd hm ha.2.1
    | reuse old p ds m' q => exact absurd hm ha.2.2.2.2.1
    | _ => exact ha.elim
  · have hne : ∀ socket m user old, o ≠ .fill socket m user old := fun socket m user old heq =>
      hfill ⟨socket, m, user, old, heq⟩
    obtain ⟨⟨news, hT⟩, hsub⟩ := Op.tells hids hpre hrun hne
    refine h.tells hT ?_ hsub
    exact (Op.moves hids hpre hrun).invariant (I := fun w => s.view.jobids ≤ w.jobids) le_rfl
      fun hI _ hg => hI.trans (Act.jobids_apply hg)

end Spool

namespace Server

variable {C : Config} {e : Env} {s s' s₀ : Server} {l : Env × Input}

theorem remembers_step (hs : s.Sound) (h : s.Remembers) (hok : noChosenId l s)
    (hst : Step C s l s') : s'.Remembers := by
  obtain ⟨e, i⟩ := l
  obtain ⟨-, hen, hst⟩ := hst
  have hi : i ≠ .restart := by
    rintro rfl
    cases hok
  refine ((step_ops hs hen hi hst).invariant (I := fun sp => sp.view.Ids ∧ sp.Remembers)
    ⟨hs.ids, h⟩ fun {sp sp' o} hI ho hpre hrun => ?_).2
  refine ⟨(Op.moves hI.1 hpre hrun).ids hI.1, hI.2.op hI.1 hpre hrun ?_⟩
  rintro socket m user old rfl
  obtain ⟨index, rfl⟩ := ho.fill
  exact of_decide_eq_true hok

/-- The job `p` that was submitted to `q` depends on the last of the other jobs.  If this one is still
active, `p` hears what it reports in the events `later`; if it is finished, `p` has its error
level. -/
structure DependsOnLast (q : Queue) (p : Job) (later : List Event) (s : Server) : Prop where
  bound : ∀ d, IsGreatest (q.others p.jobid) d → p.dependOn = [d]
  alone : q.others p.jobid = ∅ → p.dependOn = [-1]
  active : ∀ x ∈ q.activeJobs, IsGreatest (q.others p.jobid) x.jobid →
    ∀ y ∈ s.activeJobs, y.jobid = p.jobid → y.dependencyErrorlevel = heard [x.jobid] later
  finished : ∀ x ∈ q.finishedJobs, IsGreatest (q.others p.jobid) x.jobid →
    p.dependencyErrorlevel = |x.result.errorlevel|

theorem remembers_run (h₀ : s₀.Fresh) (hpos : 0 < s₀.jobids) (h : Run (Step C) noChosenId s₀ s) :
    s.Remembers := by
  have hnil : s₀.view.activeJobs ++ s₀.view.finishedJobs = [] := by
    show s₀.activeJobs.map Job.strip ++ s₀.finishedJobs.map Job.strip = []
    rw [h₀.activeJobs, h₀.finishedJobs]
    rfl
  have hinit : s₀.Remembers := by
    refine ⟨⟨hpos, by simp [hnil], by simp [hnil], by simp [hnil]⟩, fun later p m q earlier hev => ?_⟩
    rw [h₀.events] at hev
    exact absurd hev (by simp)
  exact (h.invariant (I := fun s => s.Sound ∧ s.Remembers) ⟨h₀.sound, hinit⟩
    fun hI hok hst => ⟨hst.sound hI.1, remembers_step hI.1 hI.2 hok hst⟩).2

theorem mem_others {q : Queue} {jobid d : ℤ} (hq : q.Before jobid) :
    d ∈ q.others jobid ↔ ∃ x ∈ q.activeJobs ++ q.finishedJobs, x.jobid = d := by
  rw [Queue.others, Set.mem_ofPred_eq, List.mem_map]
  refine and_iff_right_of_imp ?_
  rintro ⟨x, hx, rfl⟩
  exact (hq.range x hx).2.ne

theorem exists_last {q : Queue} {jobid : ℤ} {x : Job} (hq : q.Before jobid)
    (hx : x ∈ q.activeJobs ++ q.finishedJobs) :
    ∃ y ∈ q.activeJobs ++ q.finishedJobs, IsGreatest (q.others jobid) y.jobid := by
  obtain ⟨hnil, -⟩ | ⟨y, hy, -, hmax⟩ := Queue.greatest_jobid fun y hy => (hq.range y hy).1
  · rw [hnil] at hx
    exact absurd hx List.not_mem_nil
  · refine ⟨y, hy, (mem_others hq).2 ⟨y, hy, rfl⟩, fun k hk => ?_⟩
    obtain ⟨z, hz, rfl⟩ := (mem_others hq).1 hk
    exact hmax z hz

theorem others_ne_empty {q : Queue} {jobid : ℤ} {x : Job} (hq : q.Before jobid)
    (hx : x ∈ q.activeJobs ++ q.finishedJobs) : q.others jobid ≠ ∅ := fun hempty => by
  have hmem := (mem_others hq).2 ⟨x, hx, rfl⟩
  rw [hempty] at hmem
  exact hmem

/-- The job that is taken is the last one, if the new job depends on the last one. -/
theorem DependsOnLast.greatest {q : Queue} {p x : Job} {later : List Event}
    (h : DependsOnLast q p later s) (hq : q.Before p.jobid)
    (hx : x ∈ q.activeJobs ++ q.finishedJobs) (hd : p.dependOn = [x.jobid]) :
    IsGreatest (q.others p.jobid) x.jobid := by
  obtain ⟨y, -, hy⟩ := exists_last hq hx
  have heq : [x.jobid] = [y.jobid] := hd.symm.trans (h.bound _ hy)
  rwa [(List.cons.inj heq).1]

theorem dependsOnLast_active {q : Queue} {p x : Job} {later : List Event} (hq : q.Before p.jobid)
    (hx : x ∈ q.activeJobs) (hd : p.dependOn = [x.jobid])
    (hears : s.view.Hears [x.jobid] p.jobid 0 later)
    (hlast : IsGreatest (q.others p.jobid) x.jobid) : DependsOnLast q p later s := by
  refine ⟨fun k hk => ?_, fun hempty => ?_, fun z hz hzlast y hy hid => ?_, fun z hz hzlast => ?_⟩
  · rw [hk.unique hlast, hd]
  · exact absurd hempty (others_ne_empty hq (List.mem_append_left _ hx))
  · have hlevel := hears.level y.strip (List.mem_map_of_mem hy) hid
    rw [zero_add] at hlevel
    rw [hzlast.unique hlast]
    exact hlevel
  · exact absurd (hlast.unique hzlast) (hq.apart x hx z hz)

theorem dependsOnLast_finished {q : Queue} {p x : Job} {later : List Event} (hq : q.Before p.jobid)
    (hx : x ∈ q.finishedJobs) (hd : p.dependOn = [x.jobid])
    (hlevel : p.dependencyErrorlevel = |x.result.errorlevel|)
    (hlast : IsGreatest (q.others p.jobid) x.jobid) : DependsOnLast q p later s := by
  refine ⟨fun k hk => ?_, fun hempty => ?_, fun z hz hzlast => ?_, fun z hz hzlast => ?_⟩
  · rw [hk.unique hlast, hd]
  · exact absurd hempty (others_ne_empty hq (List.mem_append_right _ hx))
  · exact absurd (hzlast.unique hlast) (hq.apart z hz x hx)
  · rw [hq.eq_of_finished hz hx (hzlast.unique hlast), hlevel]

/-- The last thing that happened is the submission of a job with the dependency `-1`; it depends on
the job `d` now, and these jobs were active and finished. -/
def boundTo (d : ℤ) (active finished : List ℤ) (s : Server) : Bool :=
  match s.events with
  | .submit p m q :: _ => p.jobid = 1003 ∧ p.dependOn = [d] ∧ m.dependencies = [-1] ∧
      q.activeJobs.map Job.jobid = active ∧ q.finishedJobs.map Job.jobid = finished ∧
      q.lastFinishedJobid = 1000
  | _ => false

theorem boundTo_spec {d : ℤ} {active finished : List ℤ} (h : boundTo d active finished s = true) :
    ∃ p m q earlier, s.events = [] ++ .submit p m q :: earlier ∧ m.dependencies = [-1] ∧
      p.jobid = 1003 ∧ p.dependOn = [d] ∧ q.activeJobs.map Job.jobid = active ∧
      q.finishedJobs.map Job.jobid = finished ∧ q.lastFinishedJobid = 1000 := by
  unfold boundTo at h
  split at h
  · rename_i p m q earlier hev
    obtain ⟨hid, hd, hm, hact, hfin, hlast⟩ := of_decide_eq_true h
    exact ⟨p, m, q, earlier, hev, hm, hid, hd, hact, hfin, hlast⟩
  · cases h

/-- The jobs 1000 and 1002 run, and 1001 waits for two slots. -/
def twoRun : List (Env × Input) :=
  [(world 1, .accept 5 1000), (world 2, .message 0 (.newjob {})), (world 3, .schedule),
    (world 4, .message 0 (.runjobOk none 100)), (world 5, .accept 6 1000),
    (world 6, .message 1 (.newjob { numSlots := 2 })), (world 7, .accept 7 1000),
    (world 8, .message 2 (.newjob {})), (world 9, .schedule),
    (world 10, .message 2 (.runjobOk none 101))]

end Server

end TaskSpooler
