import Mathlib.Data.List.MinMax
import Mathlib.Logic.Relation
import TaskSpooler.Sched.Finished

/-!
# Dependencies do not deadlock

A job depends on jobs with smaller ids: explicit dependencies on larger ones are dropped, and `-1`
stands for the last job, which is an older one.  So the relation "waits for" has no cycle, and a
queue of waiting jobs always has one that can start (`dependencies_never_deadlock`).

This rests on the ids being given out in order.  A client that chooses an id below that of the last
job and depends on `-1` gets a dependency on a younger job, which may wait for him
(`chosen_id_deadlocks`).
-/

namespace TaskSpooler

/-- A job waits for another one. -/
def Queue.WaitsFor (q : Queue) (p p' : Job) : Prop :=
  p ∈ q.activeJobs ∧ p' ∈ q.activeJobs ∧ p'.jobid ∈ p.dependOn

/-- The moves that can happen while a new job is put into the queue. -/
def Act.DuringNewjob (e : Env) (m : NewJob) : Act → Prop
  | submit _ _ _ m' _ => m' = m
  | finish _ p _ _ => Spool.isDead e p
  | drop _ shelf => shelf = none
  | goneFinished _ | pid _ _ => False
  | _ => True

namespace View

/-- Every job depends on older jobs only. -/
def Ordered (v : View) : Prop := ∀ p ∈ v.activeJobs, ∀ d ∈ p.dependOn, d < p.jobid

/-- If a request chooses its id and depends on `-1`, then its id is above those of all other jobs,
and no job with that id is about to be given up because its process has died. -/
def LastChosen (e : Env) (m : NewJob) (v : View) : Prop := m.jobid ≠ 0 → -1 ∈ m.dependencies →
  (∀ p ∈ v.activeJobs, p.jobid < m.jobid ∨
    p.jobid = m.jobid ∧ ¬(0 < p.pid ∧ e.alive p.pid = false)) ∧
  ∀ p ∈ v.finishedJobs, p.jobid < m.jobid

variable {v v' : View} {a : Act} {e : Env} {m : NewJob}

/-! ### The dependencies of a new job -/

theorem lt_of_older {p : Job} {d : ℤ} (hids : v.Ids) (hset : v.Settled) (hlast : v.LastChosen e m)
    (hid : p.jobid = if m.jobid ≠ 0 then m.jobid else v.jobids)
    (h : v.Older p.jobid m.dependencies d) : d < p.jobid := by
  obtain h | ⟨hmem, h⟩ := h
  · exact h
  · have hactive : (v.findjob d).isSome → ∃ x ∈ v.activeJobs, x.jobid = d := by
      intro hsome
      obtain ⟨x, hx⟩ := Option.isSome_iff_exists.1 hsome
      exact ⟨x, Keyed.mem_of_lookup hx, Keyed.key_of_lookup hx⟩
    by_cases hm : m.jobid ≠ 0
    · obtain ⟨hact, hfin⟩ := hlast hm hmem
      rw [if_pos hm] at hid
      obtain ⟨hne, hsome⟩ | hd := h
      · obtain ⟨x, hx, rfl⟩ := hactive hsome
        obtain hlt | ⟨heq, -⟩ := hact x hx
        · exact hid ▸ hlt
        · exact absurd (heq.trans hid.symm) hne
      · obtain ⟨x, hx, rfl⟩ := List.mem_map.1 hd
        exact hid ▸ hfin x hx
    · rw [if_neg hm] at hid
      obtain ⟨-, hsome⟩ | hd := h
      · obtain ⟨x, hx, rfl⟩ := hactive hsome
        exact hid ▸ hids.lt x hx
      · obtain ⟨x, hx, rfl⟩ := List.mem_map.1 hd
        exact hid ▸ (hset x hx).2

/-- **A move keeps the jobs ordered**, if new jobs depend on older ones. -/
theorem Ordered.apply (hids : v.Ids) (h : v.Ordered) (hg : a.Guard v)
    (hsubmit : ∀ p ds n m q, a = .submit p ds n m q → ∀ d ∈ p.dependOn, d < p.jobid)
    (hreuse : ∀ old p ds m q, a = .reuse old p ds m q → ∀ d ∈ p.dependOn, d < p.jobid) :
    (a.apply v).Ordered :=
  Act.forall_fixed_apply (P := fun p => ∀ d ∈ p.dependOn, d < p.jobid) (fun _ => rfl) hids hg h
    hsubmit hreuse

theorem Ordered.usage {late : Job → Prop} (hids : v.Ids) (h : v.Ordered) (hu : Usage e late v v') :
    v'.Ordered := by
  refine (hu.moves.invariant (I := fun w => w.Ids ∧ w.Ordered) ⟨hids, h⟩ fun {w a} hI ha hg => ?_).2
  refine ⟨Act.ids_apply hI.1 hg, hI.2.apply hI.1 hg ?_ ?_⟩
  · rintro p ds n m q rfl
    obtain ha | ha | ha := ha
    · exact ha.elim
    · cases ha
    · exact ha.1.elim
  · rintro old p ds m q rfl
    obtain ha | ha | ha := ha
    · exact ha.elim
    · cases ha
    · exact ha.1.elim

/-! ### The last job -/

theorem LastChosen.apply (hids : v.Ids) (hset : v.Settled) (h : v.LastChosen e m) (hg : a.Guard v)
    (ha : a.DuringNewjob e m) : (a.apply v).LastChosen e m := by
  intro hm hmem
  obtain ⟨hact, hfin⟩ := h hm hmem
  refine ⟨?_, ?_⟩
  · refine Act.forall_apply (fun _ => rfl) hids hg hact fun p' hp' => ?_
    cases hold : a.old v with
    | none =>
      obtain ⟨ds, n, m', q, rfl⟩ := Act.new_of_old_none hold hp'
      obtain rfl : m' = m := ha
      obtain ⟨-, -, -, -, -, hpid, -, -, -, -, hid, -⟩ := hg
      rw [if_pos hm] at hid
      exact .inr ⟨hid, by simp [hpid]⟩
    | some p =>
      have hpid : p'.pid = p.pid := Act.pid_new hg hold hp' fun p n hpid => by
        subst hpid
        exact ha
      rw [Act.jobid_new hg hold hp', hpid]
      exact hact p.strip (Act.has_old hg hold).mem
  · refine Act.forall_finished_apply (fun _ => rfl) hg hset hfin ?_ ?_ ?_
    · rintro r p p' max rfl
      have hid := Job.jobid_of_plain (Act.plain_finish hids hg)
      change p'.jobid = p.jobid at hid
      have hdead : Spool.isDead e p := ha
      rw [Spool.isDead, decide_eq_true_eq] at hdead
      obtain hlt | ⟨-, hno⟩ := hact p.strip hg.1.mem
      · exact hid ▸ hlt
      · exact absurd hdead.2 hno
    · rintro p max p' rfl
      cases ha
    · rintro p rfl
      exact ha.elim

theorem LastChosen.usage {late : Job → Prop} (hids : v.Ids) (hset : v.Settled)
    (h : v.LastChosen e m) (hu : Usage e late v v') : v'.LastChosen e m := by
  refine (hu.moves.invariant (I := fun w => w.Ids ∧ w.Settled ∧ w.LastChosen e m) ⟨hids, hset, h⟩
    fun {w a} hI ha hg => ?_).2.2
  obtain ⟨hids, hset, h⟩ := hI
  refine ⟨Act.ids_apply hids hg, Act.settled_apply hids hset hg, h.apply hids hset hg ?_⟩
  obtain ha | rfl | ⟨ha, -⟩ := ha
  · obtain ⟨p, rfl, -⟩ | ⟨r, p, p', max, rfl, hdead, -⟩ | ⟨l, rfl⟩ | ⟨l, rfl⟩ := Act.ofSweep_cases ha
    · trivial
    · exact hdead
    · trivial
    · trivial
  · trivial
  · obtain ⟨uid, p, q, rfl, -⟩ | ⟨uid, p, q, rfl, -⟩ | ⟨p, rfl⟩ := Act.ofSchedule_cases ha
    all_goals trivial

end View

/-! ### The steps of the server -/

namespace Server

variable {e : Env} {s s' s₀ : Server} {C : Config}

/-- The server is not started again, there is room for another id, and a client that chooses the id of
his job and makes it depend on `-1` chooses one above all others. -/
def InOrder (l : Env × Input) (s : Server) : Prop :=
  s.RoomForId l.2 ∧
    match l.2 with
    | .message _ (.newjob m) => s.view.LastChosen l.1 m
    | .restart => False
    | _ => True

theorem duringNewjob {K : View → Prop} {index : ℕ} {m : NewJob} {a : Act} {v : View}
    (h : s.Does K e (.message index (.newjob m)) a v) : a.DuringNewjob e m := by
  obtain ⟨next, id, ha⟩ | ⟨p, rfl, -⟩ := h
  · cases a with
    | submit p ds n m' q => exact ha.1
    | drop p shelf => exact ha.2.2.2
    | reuse old p ds m' q => trivial
    | jobids n => trivial
    | _ => exact ha.elim
  · trivial

/-- **A step keeps the jobs ordered.** -/
theorem ordered_step {l : Env × Input} (hs : s.Sound) (hset : s.view.Settled)
    (hv : s.view.Ordered) (hok : InOrder l s) (h : Step C s l s') :
    s'.view.Settled ∧ s'.view.Ordered := by
  obtain ⟨e, i⟩ := l
  obtain ⟨-, hen, h⟩ := h
  have hi : i ≠ .restart := by
    rintro rfl
    exact hok.2
  have hcourse := step_course (K := fun _ => True) hs hen hi (fun _ _ => trivial) h
  have hlast : ∀ index m, i = .message index (.newjob m) → s.view.LastChosen e m := by
    rintro index m rfl
    exact hok.2
  refine (hcourse.invariant (I := fun w => w.Ids ∧
      (∀ index m, i = .message index (.newjob m) → w.LastChosen e m) ∧ w.Settled ∧ w.Ordered)
    ⟨hs.ids, hlast, hset, hv⟩ (fun {w a} hI ha hg => ?_) fun {w w'} hI hu => ?_).2.2
  · obtain ⟨hids, hlast, hset, hv⟩ := hI
    refine ⟨Act.ids_apply hids hg, ?_, Act.settled_apply hids hset hg, hv.apply hids hg ?_ ?_⟩
    · rintro index m rfl
      exact (hlast index m rfl).apply hids hset hg (duringNewjob ha)
    · rintro p ds n m q rfl d hd
      obtain ⟨index, next, rfl, -⟩ := ha.submit
      obtain ⟨-, -, -, -, -, -, -, -, -, -, hid, holder⟩ := hg
      exact View.lt_of_older hids hset (hlast index m rfl) hid (holder d hd)
    · rintro old p ds m q rfl d hd
      obtain ⟨index, rfl, -, -, hm, hid⟩ := ha.reuse
      obtain ⟨-, -, -, -, -, -, -, -, holder⟩ := hg
      exact View.lt_of_older hids hset (hlast index m rfl) (by rw [if_pos hm, hid]) (holder d hd)
  · obtain ⟨hids, hlast, hset, hv⟩ := hI
    exact ⟨hu.ids hids, fun index m hm => (hlast index m hm).usage hids hset hu,
      hu.moves.settled hids hset, hv.usage hids hu⟩

theorem Fresh.ordered (h : s.Fresh) : s.view.Ordered := by
  rw [View.Ordered, h.view_activeJobs]
  exact fun p hp => absurd hp List.not_mem_nil

theorem ordered_run (h₀ : s₀.Fresh) (h : Run (Step C) InOrder s₀ s) :
    s.Sound ∧ s.view.Settled ∧ s.view.Ordered :=
  h.invariant (I := fun s => s.Sound ∧ s.view.Settled ∧ s.view.Ordered)
    ⟨h₀.sound, h₀.settled, h₀.ordered⟩
    fun hI hok hst => ⟨hst.sound hI.1, ordered_step hI.1 hI.2.1 hI.2.2 hok hst⟩

/-! ### No deadlock -/

/-- No job waits for itself, and if all jobs wait, then one of them waits for nothing. -/
structure DeadlockFree (s : Server) : Prop where
  acyclic : ∀ p, ¬Relation.TransGen s.WaitsFor p p
  ready : (∃ p ∈ s.activeJobs, p.state = .queued) →
    (∀ p ∈ s.activeJobs, p.state = .queued ∨ p.Over) →
    ∃ p ∈ s.activeJobs, p.state = .queued ∧ s.depsReady p

theorem lt_of_waitsFor {q : Queue} (h : ∀ p ∈ q.activeJobs, ∀ d ∈ p.dependOn, d < p.jobid)
    {p p' : Job} (hw : Relation.TransGen q.WaitsFor p p') : p'.jobid < p.jobid := by
  induction hw with
  | single hw => exact h _ hw.1 _ hw.2.2
  | tail _ hw ih => exact (h _ hw.1 _ hw.2.2).trans ih

/-- The oldest job that waits. -/
theorem exists_oldest {l : List Job} (h : ∃ p ∈ l, p.state = .queued) :
    ∃ p ∈ l, p.state = .queued ∧ ∀ x ∈ l, x.state = .queued → p.jobid ≤ x.jobid := by
  have hmem : ∀ x, x ∈ (l.filter fun p => p.state = .queued) ↔ x ∈ l ∧ x.state = .queued := by
    simp
  cases hmin : (l.filter fun p => p.state = .queued).argmin Job.jobid with
  | none =>
    obtain ⟨p, hp⟩ := h
    rw [List.argmin_eq_none] at hmin
    have := (hmem p).2 hp
    rw [hmin] at this
    exact absurd this List.not_mem_nil
  | some p =>
    obtain ⟨hp, hst⟩ := (hmem p).1 (List.argmin_mem hmin)
    exact ⟨p, hp, hst, fun x hx hxst => List.le_of_mem_argmin ((hmem x).2 ⟨hx, hxst⟩) hmin⟩

theorem deadlockFree_of_ordered (hset : s.view.Settled) (hv : s.view.Ordered) :
    s.DeadlockFree := by
  have hlt : ∀ p ∈ s.activeJobs, ∀ d ∈ p.dependOn, d < p.jobid :=
    fun p hp => hv p.strip (List.mem_map_of_mem hp)
  refine ⟨fun p hp => lt_irrefl _ (lt_of_waitsFor hlt hp), fun hq hall => ?_⟩
  obtain ⟨p, hp, hst, hmin⟩ := exists_oldest hq
  refine ⟨p, hp, hst, ?_⟩
  rw [Queue.depsReady, List.all_eq_true]
  intro d hd
  split
  · rename_i dep hdep
    rw [Queue.getJob, Option.or_eq_some_iff] at hdep
    have hover : dep.Over := by
      obtain hdep | ⟨-, hdep⟩ := hdep
      · have hmem := Keyed.mem_of_lookup hdep
        refine (hall dep hmem).resolve_left fun hq => ?_
        have hle := hmin dep hmem hq
        have hid : dep.jobid = d := Keyed.key_of_lookup hdep
        have := hlt p hp d hd
        omega
      · exact (hset dep.strip (List.mem_map_of_mem (Keyed.mem_of_lookup hdep))).1
    obtain h | h := hover <;> simp [h]
  · rfl

/-- **Dependencies never deadlock**, in every state of a run in which ids are chosen in order. -/
theorem dependencies_never_deadlock (h₀ : s₀.Fresh) (h : Run (Step C) InOrder s₀ s) :
    s.DeadlockFree := by
  obtain ⟨-, hset, hv⟩ := ordered_run h₀ h
  exact deadlockFree_of_ordered hset hv

theorem inOrder_of_noChosenId {l : Env × Input} (h : noChosenId l s ∧ roomForId l s) :
    InOrder l s := by
  obtain ⟨e, i⟩ := l
  obtain ⟨h, hroom⟩ := h
  refine ⟨hroom, ?_⟩
  cases i with
  | message index m =>
    cases m with
    | newjob m => exact fun hm => absurd (of_decide_eq_true h) hm
    | _ => trivial
  | restart => cases h
  | _ => trivial

/-- The second of two jobs waits for the first one, and for nothing else. -/
theorem two_jobs_deadlockFree : ∃ s : Server,
    (s.activeJobs.map fun p => (p.jobid, p.dependOn)) = [(1000, []), (1001, [1000])] ∧
      s.DeadlockFree := by
  obtain ⟨s, hr, hs⟩ := exists_run plainConfig (fun l s => noChosenId l s ∧ roomForId l s) started
    (fun s => (s.activeJobs.map fun p => (p.jobid, p.dependOn)) = [(1000, []), (1001, [1000])])
    [(world 1, .accept 5 1000), (world 2, .message 0 (.newjob {})), (world 3, .accept 6 1000),
      (world 4, .message 1 (.newjob { dependOnSize := 1, dependOn := [-1] }))]
    (by simp [world]) (by decide +kernel)
  exact ⟨s, of_decide_eq_true hs,
    dependencies_never_deadlock fresh_started (hr.mono fun l s h => inOrder_of_noChosenId h)⟩

/-- A job depends on the id 5, which nobody has.  Then a client chooses that id and depends on the
last job. -/
theorem chosen_id_deadlocks :
    ¬∀ (C : Config) (s₀ s : Server), s₀.Fresh → Run (Step C) noRestart s₀ s → s.DeadlockFree := by
  intro hall
  obtain ⟨s, hr, hs⟩ := exists_run plainConfig noRestart started
    (fun s => (s.activeJobs.map fun p => (p.jobid, p.dependOn)) = [(1000, [5]), (5, [1000])])
    [(world 1, .accept 5 1000),
      (world 2, .message 0 (.newjob { dependOnSize := 1, dependOn := [5] })),
      (world 3, .accept 6 1000),
      (world 4, .message 1 (.newjob { jobid := 5, dependOnSize := 1, dependOn := [-1] }))]
    (by simp [world]) (by decide +kernel)
  have hjobs := of_decide_eq_true hs
  have hex : ∀ x ∈ [((1000 : ℤ), [(5 : ℤ)]), (5, [1000])],
      ∃ p ∈ s.activeJobs, (p.jobid, p.dependOn) = x := by
    intro x hx
    rw [← hjobs] at hx
    exact List.mem_map.1 hx
  obtain ⟨p, hp, hpx⟩ := hex (1000, [5]) (by simp)
  obtain ⟨p', hp', hpx'⟩ := hex (5, [1000]) (by simp)
  obtain ⟨hid, hdep⟩ := Prod.mk.inj hpx
  obtain ⟨hid', hdep'⟩ := Prod.mk.inj hpx'
  refine (hall _ _ _ fresh_started hr).acyclic p (.tail (.single (b := p') ⟨hp, hp', ?_⟩) ⟨hp', hp, ?_⟩)
  · rw [hid', hdep]
    exact List.mem_singleton_self _
  · rw [hid, hdep']
    exact List.mem_singleton_self _

end Server

end TaskSpooler
