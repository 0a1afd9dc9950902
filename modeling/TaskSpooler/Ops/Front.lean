import TaskSpooler.Ops.Frame
import TaskSpooler.Sched.Front

/-!
# The front of the queue after an operation

While slots are busy the first job should run (`Queue.Headed`).

* `Op.front_spared` : a running job stays first after every operation that does not stop it and does
  not reorder the queue.
* `Op.Harmless.headed` : operations after which a running job is in front if one was before.
* `Spool.headed_stopped`, `headed_removed` : exactly when one is after a job stops or is removed.
-/

namespace TaskSpooler

/-- No slots are busy, or the first job runs. -/
def Queue.Headed (q : Queue) : Prop := q.busySlots ≤ 0 ∨ RunsFirst q.activeJobs

/-! ### Moves -/

namespace Act

variable {v : View} {a : Act} {k : ℤ}

/-- The move does not stop or remove the job with this id while it runs, and keeps the order. -/
def Spares (k : ℤ) : Act → Prop
  | pause p | relegate p _ | abnormal p | finish _ p _ _ | delete p => p.jobid ≠ k
  | reorder _ => False
  | _ => True

theorem Spares.running (ha : a.Spares k) (hg : a.Guard v) {p : Job} (hold : a.old v = some p)
    (hid : p.jobid = k) (hst : p.state = .running) : ∃ p', a.new v = some p' ∧ p'.state = .running := by
  cases a with
  | pause p | relegate p _ | abnormal p | finish _ p _ _ | delete p =>
    cases hold
    exact absurd hid ha
  | wall p w | pid p n =>
    cases hold
    exact ⟨_, rfl, hst⟩
  | start p | dispatch uid p q => exact ⟨_, rfl, rfl⟩
  | asleep uid p q =>
    cases hold
    have hq := hg.2.2.2.2.2.2.1
    rw [hst] at hq
    cases hq
  | wake p | lock p | unlock p =>
    cases hold
    have hq := hg.2
    rw [hst] at hq
    cases hq
  | reuse p₀ p ds m q =>
    cases hold
    have hq := hg.2.2.2.2.2.2.2.1
    rw [← hg.2.2.1, hst] at hq
    simp at hq
  | gone p | drop p shelf =>
    cases hold
    exact absurd hst hg.2.1
  | reconnect p₀ st socket =>
    have hstate := hg.2.2
    simp only [old, new] at hold ⊢
    split_ifs at hold ⊢
    cases hold
    rw [if_neg (by rw [hst]; simp)] at hstate
    exact ⟨_, rfl, hstate.trans hst⟩
  | _ => cases hold

theorem Spares.keeps (ha : a.Spares k) (hg : a.Guard v) : (∀ l, a ≠ reorder l) ∧
    ∀ p, a.old v = some p → p.jobid = k → p.state = .running →
      ∃ p', a.new v = some p' ∧ p'.state = .running := by
  refine ⟨?_, fun p hold hid hst => ha.running hg hold hid hst⟩
  rintro l rfl
  exact ha

theorem Spares.front (ha : a.Spares k) (hids : v.Ids) (hg : a.Guard v)
    (h : front v.activeJobs = some (k, .running)) :
    front (a.apply v).activeJobs = some (k, .running) :=
  front_apply hids hg (ha.keeps hg).1 (ha.keeps hg).2 h

/-- The move neither starts nor stops a job, removes none that could run, and keeps the order. -/
def Gentle : Act → Prop
  | pause _ | relegate _ _ | abnormal _ | start _ | dispatch _ _ _ | finish _ _ _ _ | delete _
  | reorder _ | recount => False
  | drop _ shelf => shelf = none
  | _ => True

theorem Gentle.spares (ha : a.Gentle) : a.Spares k := by
  cases a <;> first | exact ha.elim | trivial

theorem Gentle.slots_eq (ha : a.Gentle) : a.slots = 0 := by
  cases a with
  | pause | relegate | abnormal | start | dispatch | finish | delete | reorder | recount =>
    exact ha.elim
  | drop p shelf =>
    cases ha
    rfl
  | _ => rfl

theorem Gentle.busySlots (ha : a.Gentle) : (a.apply v).busySlots = v.busySlots := by
  by_cases hl : a.Local
  · rw [busySlots_apply hl, ha.slots_eq, Int.add_zero]
  · cases a with
    | users us n => rfl
    | recount => exact ha.elim
    | _ => exact absurd trivial hl

theorem Gentle.headed (ha : a.Gentle) (hids : v.Ids) (hg : a.Guard v) (h : v.Headed) :
    (a.apply v).Headed := by
  obtain h | ⟨k, hk⟩ := h
  · exact .inl (ha.busySlots.trans_le h)
  · exact .inr ⟨k, ha.spares.front hids hg hk⟩

end Act

/-- Gentle moves. -/
theorem Moves.headed {v v' : View} (h : Moves (fun a _ => a.Gentle) v v') (hids : v.Ids)
    (hv : v.Headed) : v'.Headed :=
  (h.invariant (I := fun w => w.Ids ∧ w.Headed) ⟨hids, hv⟩
    fun hI ha hg => ⟨Act.ids_apply hI.1 hg, ha.headed hI.1 hg hI.2⟩).2

/-! ### Single moves -/

namespace Spool

variable {e : Env} {s s' : Spool} {a : Act} {p p' : Job} {k : ℤ}

theorem front_view : front s.view.activeJobs = front s.activeJobs := front_strip

theorem headed_view : s.view.Headed ↔ s.Headed := by
  rw [Queue.Headed, Queue.Headed, runsFirst_congr (l := s.activeJobs) front_view]
  rfl

theorem headed_of_view (hv : s'.view = s.view) (hs : s.Headed) : s'.Headed :=
  headed_view.1 (hv ▸ headed_view.2 hs)

theorem headed_gentle (hids : s.view.Ids) (h : Moves (fun a _ => a.Gentle) s.view s'.view)
    (hs : s.Headed) : s'.Headed :=
  headed_view.1 (h.headed hids (headed_view.2 hs))

/-- Moves that leave the first job in its state. -/
theorem front_moves {st : Jobstate} {ok : Act → View → Prop} (hids : s.view.Ids)
    (h : Moves ok s.view s'.view)
    (hok : ∀ {a v}, ok a v → a.Guard v → (∀ l, a ≠ .reorder l) ∧ ∀ p, a.old v = some p →
      p.jobid = k → p.state = st → ∃ p', a.new v = some p' ∧ p'.state = st)
    (hs : front s.activeJobs = some (k, st)) : front s'.activeJobs = some (k, st) := by
  have hend := h.invariant (I := fun w => w.Ids ∧ front w.activeJobs = some (k, st))
    ⟨hids, front_view.trans hs⟩ fun hI ha hg => ⟨Act.ids_apply hI.1 hg,
      Act.front_apply hI.1 hg (hok ha hg).1 (hok ha hg).2 hI.2⟩
  exact front_view.symm.trans hend.2

theorem busySlots_of_view (hv : s'.view = a.apply s.view) (hl : a.Local) :
    s'.busySlots = s.busySlots + a.slots := by
  have hbusy : s'.busySlots = (a.apply s.view).busySlots := congrArg (fun v => v.busySlots) hv
  exact hbusy.trans (Act.busySlots_apply hl)

theorem busySlots_frees (h : a.frees = some p) :
    s.busySlots + a.slots = s.busySlots - Queue.freedSlots p := by
  rw [Act.slots_of_frees h, sub_eq_add_neg]

theorem busySlots_none (htakes : a.takes = none) (hfrees : a.frees = none) :
    s.busySlots + a.slots = s.busySlots := by
  rw [Act.slots_of_none htakes hfrees, add_zero]

theorem headed_stopped (hids : s.view.Ids) (hg : a.Guard s.view) (hv : s'.view = a.apply s.view)
    (hl : a.Local) (hold : a.old s.view = some p) (hnew : a.new s.view = some p')
    (hst : p'.state ≠ .running) :
    s'.Headed ↔ s.busySlots + a.slots ≤ 0 ∨ RunsBefore p.jobid s.activeJobs := by
  have h := Act.runsFirst_stopped hids hg hold hnew hst
  rw [← hv, runsFirst_congr (l := s'.activeJobs) front_view, RunsBefore, front_view] at h
  rw [Queue.Headed, h, busySlots_of_view hv hl]
  rfl

theorem headed_removed (hids : s.view.Ids) (hg : a.Guard s.view) (hv : s'.view = a.apply s.view)
    (hl : a.Local) (hold : a.old s.view = some p) (hnew : a.new s.view = none) :
    s'.Headed ↔ s.busySlots + a.slots ≤ 0 ∨ RunsFirst (others p.jobid s.activeJobs) := by
  have h := Act.runsFirst_removed hids hg hold hnew
  have hothers : others p.jobid s.view.activeJobs = (others p.jobid s.activeJobs).map Job.strip :=
    others_map fun _ => rfl
  rw [← hv, runsFirst_congr (l := s'.activeJobs) front_view, hothers, runsFirst_congr front_strip] at h
  rw [Queue.Headed, h, busySlots_of_view hv hl]

/-! ### Conditions on the first job -/

/-- The first job, if it runs and is one of these, holds all the slots that are busy. -/
def HoldsAll (s : Spool) (P : Job → Prop) : Prop :=
  ∀ p rest, s.activeJobs = p :: rest → p.state = .running → P p → s.busySlots ≤ Queue.freedSlots p

/-- If the first job runs and is one of these, the next one runs as well, or it holds all the slots
that are busy. -/
def PartsWith (s : Spool) (P : Job → Prop) : Prop :=
  ∀ p rest, s.activeJobs = p :: rest → p.state = .running → P p →
    RunsFirst rest ∨ s.busySlots ≤ Queue.freedSlots p

theorem freedSlots_nonneg (h : 0 ≤ p.numSlots) : 0 ≤ Queue.freedSlots p := by
  rw [Queue.freedSlots]
  split_ifs
  · exact le_rfl
  · exact h

/-- The first job runs and has the id of a job that is found, so it is that job. -/
theorem eq_first {x : Job} {rest : List Job} (hids : s.view.Ids) (hl : s.activeJobs = x :: rest)
    (hp : s.findjob p.jobid = some p) (hid : x.jobid = p.jobid) : x = p :=
  Keyed.eq_of_key (nodup_of_ids hids) (hl ▸ List.mem_cons_self) (Keyed.mem_of_lookup hp) hid

theorem HoldsAll.stopped {P : Job → Prop} (h : s.HoldsAll P) (hP : P p) (hids : s.view.Ids)
    (hp : s.findjob p.jobid = some p) (hslots : 0 ≤ p.numSlots) (hs : s.Headed) :
    s.busySlots - Queue.freedSlots p ≤ 0 ∨ RunsBefore p.jobid s.activeJobs := by
  obtain hbusy | hrun := hs
  · have hfreed := freedSlots_nonneg hslots
    exact .inl (by omega)
  · obtain ⟨x, rest, hl, hx⟩ := runsFirst_iff.1 hrun
    by_cases hid : x.jobid = p.jobid
    · obtain rfl := eq_first hids hl hp hid
      have hle := h x rest hl hx hP
      exact .inl (by omega)
    · exact .inr ⟨x.jobid, hid, by rw [hl, front_cons, hx]⟩

theorem others_first {x : Job} {rest : List Job} (hids : s.view.Ids)
    (hl : s.activeJobs = x :: rest) : others x.jobid s.activeJobs = rest := by
  have hnd := nodup_of_ids hids
  rw [hl, List.map_cons, List.nodup_cons] at hnd
  rw [hl, others, List.filter_cons_of_neg (by simp)]
  refine List.filter_eq_self.2 fun y hy => ?_
  have hne : y.jobid ≠ x.jobid := fun h => hnd.1 (h ▸ List.mem_map_of_mem hy)
  simpa using hne

theorem PartsWith.removed {P : Job → Prop} (h : s.PartsWith P) (hP : P p) (hids : s.view.Ids)
    (hp : s.findjob p.jobid = some p) (hslots : 0 ≤ p.numSlots) (hs : s.Headed) :
    s.busySlots - Queue.freedSlots p ≤ 0 ∨ RunsFirst (others p.jobid s.activeJobs) := by
  obtain hbusy | hrun := hs
  · have hfreed := freedSlots_nonneg hslots
    exact .inl (by omega)
  · obtain ⟨x, rest, hl, hx⟩ := runsFirst_iff.1 hrun
    by_cases hid : x.jobid = p.jobid
    · obtain rfl := eq_first hids hl hp hid
      rw [others_first hids hl]
      obtain hnext | hle := h x rest hl hx hP
      · exact .inr hnext
      · exact .inl (by omega)
    · exact .inr ⟨x.jobid, front_others (by rw [hl, front_cons, hx]) hid⟩

end Spool

/-! ### Operations -/

namespace Op

variable {e : Env} {s s' : Spool} {o : Op} {k : ℤ} {p : Job}

/-- The operation does not stop or remove the job with this id while it runs, and moves no other job
in front of it. -/
def Spares (k : ℤ) : Op → Prop
  | pause p | relegate p => p.jobid ≠ k
  | health jobid | finish _ jobid | delete jobid => jobid ≠ k
  | bottom ids => k ∉ ids
  | urgent _ _ | swap _ _ _ | sort => False
  | _ => True

theorem Spares.makes {a : Act} (ho : o.Spares k) (hbottom : ∀ ids, o ≠ bottom ids) (ha : o.Makes a) :
    a.Spares k := by
  cases o with
  | bottom ids => exact absurd rfl (hbottom ids)
  | urgent | swap | sort => exact ho.elim
  | pause p =>
    cases a with
    | pause p' => exact (congrArg Job.jobid ha).trans_ne ho
    | _ => exact ha.elim
  | relegate p =>
    cases a with
    | relegate p' b => exact (congrArg Job.jobid ha).trans_ne ho
    | _ => exact ha.elim
  | finish r jobid =>
    cases a with
    | finish r' p p' max => exact ha.2.trans_ne ho
    | _ => exact ha.elim
  | health jobid =>
    cases a with
    | abnormal p => exact Eq.trans_ne ha ho
    | _ => exact ha.elim
  | delete jobid =>
    cases a with
    | delete p => exact Eq.trans_ne ha ho
    | _ => exact ha.elim
  | fill socket m user old =>
    obtain ⟨next, id, ha⟩ := ha
    cases a <;> trivial
  | _ => cases a <;> trivial

theorem front_staying {ids : List ℤ} {l : List Job} {st : Jobstate} (h : front l = some (k, st))
    (hk : k ∉ ids) : front (staying ids l) = some (k, st) := by
  cases l with
  | nil => cases h
  | cons x l =>
    have hid : x.jobid = k := congrArg Prod.fst (Option.some.inj h)
    rw [staying, List.filter_cons_of_pos (by simpa [hid] using hk)]
    exact h

/-- An operation that moves no other job in front of the first one and leaves it in its state. -/
theorem front_kept {st : Jobstate} (hids : s.view.Ids) (hpre : o.Pre e s) (h : o.run e s = .ok s')
    (hbottom : ∀ ids, o = bottom ids → k ∉ ids)
    (hmakes : (∀ ids, o ≠ bottom ids) → ∀ {a v}, o.Makes a → a.Guard v → (∀ l, a ≠ .reorder l) ∧
      ∀ p, a.old v = some p → p.jobid = k → p.state = st → ∃ p', a.new v = some p' ∧ p'.state = st)
    (hs : front s.activeJobs = some (k, st)) : front s'.activeJobs = some (k, st) := by
  by_cases hbot : ∃ ids, o = bottom ids
  · obtain ⟨ids, rfl⟩ := hbot
    cases h
    rw [Spool.activeJobs_toBottom, front_append, ← staying, front_staying hs (hbottom ids rfl)]
    rfl
  · exact Spool.front_moves hids (moves hids hpre h) (hmakes fun ids h => hbot ⟨ids, h⟩) hs

/-- **An operation that spares the first job** leaves it in front. -/
theorem front_spared (hids : s.view.Ids) (hpre : o.Pre e s) (h : o.run e s = .ok s')
    (ho : o.Spares k) (hs : front s.activeJobs = some (k, .running)) :
    front s'.activeJobs = some (k, .running) := by
  refine front_kept hids hpre h ?_ (fun hbottom _ _ ha hg => (ho.makes hbottom ha).keeps hg) hs
  rintro ids rfl
  exact ho

/-- The operation is about other jobs than the one with this id, and moves no other job in front of
it. -/
def Passes (k : ℤ) : Op → Prop
  | pause p | relegate p | dispatch _ p | wake p | start p => p.jobid ≠ k
  | finish _ jobid | health jobid | delete jobid => jobid ≠ k
  | bottom ids => k ∉ ids
  | send _ _ | notify _ | recount | users _ _ _ | unnotify _ => True
  | _ => False

theorem Passes.not_touches (ho : o.Passes k) : ¬o.Touches s k := by
  cases o with
  | pause p | relegate p | dispatch uid p | wake p | start p => exact fun h => ho h.symm
  | finish r jobid | health jobid | delete jobid => exact fun h => ho h.symm
  | bottom | send | notify | recount | users | unnotify => exact id
  | _ => exact ho.elim

theorem Passes.makes {a : Act} {v : View} (ho : o.Passes k) (hbottom : ∀ ids, o ≠ bottom ids)
    (ha : o.Makes a) (hold : a.old v = some p) : p.jobid ≠ k := by
  cases o with
  | bottom ids => exact absurd rfl (hbottom ids)
  | pause q | relegate q | dispatch uid q | wake q | start q =>
    cases a <;> first
      | exact ha.elim
      | (cases hold
         exact (congrArg Job.jobid ha).trans_ne ho)
  | finish r jobid =>
    cases a with
    | finish r' q q' max =>
      cases hold
      exact ha.2.trans_ne ho
    | _ => exact ha.elim
  | health jobid | delete jobid =>
    cases a <;> first
      | exact ha.elim
      | (cases hold
         exact Eq.trans_ne ha ho)
  | notify jobid | recount | users us n m =>
    cases a <;> first
      | exact ha.elim
      | cases hold
  | send | unnotify => cases a <;> exact ha.elim
  | _ => exact ho.elim

theorem Passes.ne_reorder {a : Act} (ho : o.Passes k) (hbottom : ∀ ids, o ≠ bottom ids)
    (ha : o.Makes a) (l : List Job) : a ≠ .reorder l := by
  rintro rfl
  cases o with
  | bottom ids => exact hbottom ids rfl
  | urgent | swap | sort => exact ho
  | fill =>
    obtain ⟨next, id, ha⟩ := ha
    exact ha
  | _ => exact ha

/-- An operation that passes by the first job leaves it in front, as it is. -/
theorem front_passed {st : Jobstate} (hids : s.view.Ids) (hpre : o.Pre e s) (h : o.run e s = .ok s')
    (ho : o.Passes k) (hs : front s.activeJobs = some (k, st)) :
    front s'.activeJobs = some (k, st) := by
  refine front_kept hids hpre h ?_ (fun hbottom _ _ ha _ => ⟨ho.ne_reorder hbottom ha, ?_⟩) hs
  · rintro ids rfl
    exact ho
  · intro p hold hid
    exact absurd hid (ho.makes hbottom ha hold)

/-- The operation starts no job and brings none in. -/
def StartsNone : Op → Prop
  | pause _ | relegate _ | finish _ _ | delete _ | bottom _ | send _ _ | notify _ | recount
  | users _ _ _ | unnotify _ => True
  | _ => False

/-- The operation consists of gentle moves. -/
def Gentle : Op → Prop
  | pause _ | relegate _ | bottom _ | finish _ _ | recount | dispatch _ _ | health _ | delete _
  | removeActive _ | removeFinished _ | start _ | urgent _ _ | swap _ _ _ | sort => False
  | _ => True

theorem Gentle.makes {a : Act} (ho : o.Gentle) (ha : o.Makes a) : a.Gentle := by
  cases o with
  | fill socket m user old =>
    obtain ⟨next, id, ha⟩ := ha
    cases a with
    | submit | reuse | jobids => trivial
    | drop p shelf => exact ha.2.2.2
    | _ => exact ha.elim
  | _ =>
    cases a with
    | pause | relegate | abnormal | start | dispatch | finish | drop | delete | reorder | recount =>
      first | exact ho.elim | exact ha.elim
    | _ => trivial

/-- The operation is gentle, removes a job that does not run, or sorts the jobs. -/
def Harmless (o : Op) (s : Spool) : Prop :=
  match o with
  | delete jobid => ∀ p, s.findjob jobid = some p → p.state ≠ .running
  | removeActive p => 0 ≤ p.numSlots
  | removeFinished _ | sort => True
  | o => o.Gentle

/-- `s_remove_job` of a finished job. -/
theorem headed_removeFinished (hids : s.view.Ids) (hpre : (removeFinished p).Pre e s)
    (h : (removeFinished p).run e s = .ok s') (hs : s.Headed) : s'.Headed := by
  have hnone : p.jobid ∉ s.view.plain.map Job.jobid := by
    intro hmem
    obtain ⟨x, hx, hid⟩ := List.mem_map.1 hmem
    obtain ⟨y, hy, rfl⟩ := List.mem_map.1 hx
    obtain ⟨z, hz, rfl⟩ := List.mem_map.1 hy
    exact Keyed.lookup_eq_none.1 hpre.2 z hz hid
  have hinv := (moves hids hpre h).invariant
    (I := fun w => (w.Ids ∧ w.Headed) ∧ p.jobid ∉ w.plain.map Job.jobid)
    ⟨⟨hids, Spool.headed_view.2 hs⟩, hnone⟩ fun {w a} hI ha hg => ?_
  · exact Spool.headed_view.1 hinv.1.2
  · obtain ⟨⟨hw, hh⟩, hno⟩ := hI
    have habsent : ∀ x : Job, w.Has x → x.jobid ≠ p.jobid := by
      intro x hx hid
      have hmem : x.strip.plain ∈ w.plain := List.mem_map_of_mem hx.mem
      have hkey : x.strip.plain.jobid ∈ w.plain.map Job.jobid := List.mem_map_of_mem hmem
      exact hno (hid ▸ hkey)
    cases a with
    | gone x => exact absurd (congrArg Job.jobid ha) (habsent x hg.1)
    | drop x shelf => exact absurd ha (habsent x hg.1)
    | goneFinished x | forget l =>
      refine ⟨⟨Act.ids_apply hw hg, Act.Gentle.headed trivial hw hg hh⟩, ?_⟩
      rw [Act.plain_same rfl rfl (fun l h => by cases h)]
      exact hno
    | _ => exact ha.elim

/-- `s_remove_job` of an active job, which does not run. -/
theorem headed_removeActive (hids : s.view.Ids) (hpre : (removeActive p).Pre e s)
    (h : (removeActive p).run e s = .ok s') (hs : s.Headed) (hslots : 0 ≤ p.numSlots) :
    s'.Headed := by
  obtain hbusy | ⟨k, hk⟩ := hs
  · -- the slots that are given back are not negative
    have hnum : ∀ x ∈ s.view.activeJobs, x.jobid = p.jobid → 0 ≤ x.numSlots := by
      intro x hx hid
      rw [Keyed.eq_of_key hids.nodup hx (Spool.view_has hpre.1).mem hid]
      exact hslots
    have hinv := (moves hids hpre h).invariant (I := fun w => w.Ids ∧ w.busySlots ≤ 0 ∧
        ∀ x ∈ w.activeJobs, x.jobid = p.jobid → 0 ≤ x.numSlots)
      ⟨hids, hbusy, hnum⟩ fun {w a} hI ha hg => ⟨Act.ids_apply hI.1 hg, ?_, ?_⟩
    · exact .inl hinv.2.1
    · cases a with
      | drop x shelf =>
        have hx : 0 ≤ x.numSlots := hI.2.2 x.strip hg.1.mem ha
        have hfreed := Spool.freedSlots_nonneg hx
        have hle := hI.2.1
        rw [Act.busySlots_apply (a := .drop x shelf) trivial]
        cases shelf <;> simp only [Act.slots, Act.takes, Act.frees] <;> simp <;> omega
      | gone x | goneFinished x | forget l =>
        refine (Act.Gentle.busySlots ?_).trans_le hI.2.1
        trivial
      | _ => exact ha.elim
    · refine Act.forall_fixed_apply (fun _ => rfl) hI.1 hg hI.2.2 ?_ ?_
      · rintro x ds n m q rfl
        exact ha.elim
      · rintro y x ds m q rfl
        exact ha.elim
  · exact .inr ⟨k, front_spared hids hpre h trivial hk⟩

theorem headed_sorted (h : s.busySlots ≤ 0 ∨ ∃ p ∈ s.activeJobs, p.state = .running) :
    s.sSortJobs.Headed := by
  refine h.imp_right fun ⟨p, hp, hst⟩ => ?_
  have hmem : p ∈ s.activeJobs.filter fun p => p.state = .running :=
    List.mem_filter.2 ⟨hp, decide_eq_true hst⟩
  have hact : s.sSortJobs.activeJobs = (s.activeJobs.filter fun p => p.state = .running) ++
      s.activeJobs.filter fun p => p.state ≠ .running := rfl
  obtain ⟨x, rest, hx⟩ := List.exists_cons_of_ne_nil (List.ne_nil_of_mem hmem)
  have hrun : x ∈ s.activeJobs.filter fun p => p.state = .running := hx ▸ List.mem_cons_self
  rw [hact, hx]
  exact runsFirst_iff.2 ⟨x, _, rfl, of_decide_eq_true (List.mem_filter.1 hrun).2⟩

theorem exists_running (h : s.Headed) :
    s.busySlots ≤ 0 ∨ ∃ p ∈ s.activeJobs, p.state = .running := by
  refine h.imp_right fun h => ?_
  obtain ⟨x, rest, hl, hx⟩ := runsFirst_iff.1 h
  exact ⟨x, hl ▸ List.mem_cons_self, hx⟩

/-- **A harmless operation** keeps a running job in front. -/
theorem Harmless.headed (ho : o.Harmless s) (hids : s.view.Ids) (hpre : o.Pre e s)
    (h : o.run e s = .ok s') (hs : s.Headed) : s'.Headed := by
  by_cases hgentle : o.Gentle
  · exact Spool.headed_gentle hids ((moves hids hpre h).mono fun _ _ => hgentle.makes) hs
  · cases o with
    | delete jobid =>
      obtain ⟨p, hp, hv⟩ := Spool.sDeleteJob_spec h
      obtain rfl := Spool.findjob_jobid hp
      refine (Spool.headed_removed hids (a := .delete p) (Spool.view_has hp) hv trivial rfl rfl).2 ?_
      refine hs.imp (Spool.busySlots_none rfl rfl).trans_le fun hrun => ?_
      exact (hrun.before (Keyed.mem_of_lookup hp) (Spool.nodup_of_ids hids) (ho p hp)).others
    | removeActive p => exact headed_removeActive hids hpre h hs ho
    | removeFinished p => exact headed_removeFinished hids hpre h hs
    | sort =>
      cases h
      exact headed_sorted (exists_running hs)
    | _ => first | exact absurd trivial hgentle | exact ho.elim

/-- `safe_pause_job` of the first job leaves no other one in front. -/
theorem headed_pause {P : Job → Prop} (hids : s.view.Ids) (hpre : (pause p).Pre e s)
    (h : (pause p).run e s = .ok s') (hs : s.Headed) (hslots : 0 ≤ p.numSlots) (hall : s.HoldsAll P)
    (hP : P p) : s'.Headed := by
  cases h
  refine (Spool.headed_stopped hids (a := .pause p) ⟨Spool.view_has hpre.1, hpre.2⟩
    (Spool.view_pause p) trivial rfl rfl (by simp [Job.setState])).2 ?_
  exact (hall.stopped hP hids hpre.1 hslots hs).imp_left (Spool.busySlots_frees rfl).trans_le

/-- After the end of the first job the next one is in front. -/
theorem headed_finish {r : Result} {jobid : ℤ} (hids : s.view.Ids)
    (h : (finish r jobid).run e s = .ok s') (hs : s.Headed)
    (hslots : ∀ p ∈ s.activeJobs, 0 ≤ p.numSlots) (hparts : s.PartsWith fun p => p.jobid = jobid) :
    s'.Headed := by
  obtain ⟨p, p', hp, -, hg, hv⟩ := Spool.jobFinished_spec h
  obtain rfl := Spool.findjob_jobid hp
  refine (Spool.headed_removed hids hg hv trivial rfl rfl).2 ?_
  exact (hparts.removed rfl hids hp (hslots p (Keyed.mem_of_lookup hp)) hs).imp_left
    (Spool.busySlots_frees rfl).trans_le

/-- `config_running` of a paused job. -/
theorem headed_start (hids : s.view.Ids) (hpre : (start p).Pre e s) (h : (start p).run e s = .ok s')
    (hs : RunsFirst s.activeJobs ∨ StandsFirst p.jobid s.activeJobs) : RunsFirst s'.activeJobs := by
  cases h
  have hv : (s.configRunning e p).view = (Act.start p).apply s.view := Spool.view_configRunning e p
  have hfirst := Act.runsFirst_started hids (a := .start p) ⟨Spool.view_has hpre.1, hpre.2⟩ rfl rfl rfl
  rw [← hv, runsFirst_congr (l := (s.configRunning e p).activeJobs) Spool.front_view,
    runsFirst_congr (l := s.activeJobs) Spool.front_view, StandsFirst, Spool.front_view] at hfirst
  exact hfirst.2 hs

theorem headed_urgent {socket jobid : ℤ} (hs : s.Headed)
    (ho : s.busySlots ≤ 0 ∨ ∀ p, s.findjob jobid = some p → p.state = .running) :
    (s.sMoveUrgent socket jobid).Headed := by
  rw [Spool.sMoveUrgent]
  cases hp : s.findjob jobid with
  | none => exact hs
  | some p =>
    obtain ho | ho := ho
    · exact .inl ho
    · exact .inr (runsFirst_iff.2 ⟨p, _, rfl, ho p hp⟩)

theorem headed_swap {socket j k : ℤ} (hs : s.Headed)
    (ho : s.busySlots ≤ 0 ∨ ∀ p q, s.findjob j = some p → s.findjob k = some q →
      (StandsFirst j s.activeJobs → q.state = .running) ∧
      (StandsFirst k s.activeJobs → p.state = .running)) :
    (s.sSwapJobs socket j k).Headed := by
  rw [Spool.sSwapJobs]
  split
  · rename_i i₁ i₂ p₁ p₂ h₁ h₂ hp₁ hp₂
    obtain ⟨hi₁, hget₁⟩ := Spool.getElem_of_findIdx h₁ hp₁
    obtain ⟨hi₂, hget₂⟩ := Spool.getElem_of_findIdx h₂ hp₂
    have hfirst : ∀ {i p n} (hi : i < s.activeJobs.length), s.activeJobs[i] = p →
        s.findjob n = some p → i = 0 → StandsFirst n s.activeJobs := by
      rintro i p n hi hget hfind rfl
      refine ⟨p.state, ?_⟩
      rw [front, List.head?_eq_getElem?, List.getElem?_eq_getElem hi, hget, Option.map_some,
        Spool.findjob_jobid hfind]
    have hqueue : (((s.onQueue fun q => { q with activeJobs := (q.activeJobs.set i₁ p₂).set i₂ p₁
        }).swapDb j k).send socket .swapJobsOk).toQueue =
        { s.toQueue with activeJobs := (s.activeJobs.set i₁ p₂).set i₂ p₁ } := by
      unfold Spool.swapDb
      split <;> rfl
    rw [Queue.Headed, hqueue]
    obtain hs | hs := hs
    · exact .inl hs
    · refine ho.imp_right fun ho => ?_
      obtain ⟨hjk, hkj⟩ := ho p₁ p₂ hp₁ hp₂
      refine runsFirst_set (by simpa using hi₂) (fun h0 => hkj (hfirst hi₂ hget₂ hp₂ h0)) fun _ => ?_
      exact runsFirst_set hi₁ (fun h0 => hjk (hfirst hi₁ hget₁ hp₁ h0)) fun _ => hs
  · exact hs

end Op

/-- Gentle operations, and others that do no harm. -/
theorem Ops.headed {e : Env} {ok : Op → Spool → Prop} {s s' : Spool} (h : Ops e ok s s')
    (hids : s.view.Ids) (hs : s.Headed)
    (hok : ∀ o sp, ok o sp → sp.view.Ids → o.Pre e sp → o.Harmless sp) : s'.Headed :=
  (h.invariant (I := fun sp => sp.view.Ids ∧ sp.Headed) ⟨hids, hs⟩
    fun {sp _ o} hI ho hpre hrun => ⟨(Op.moves hI.1 hpre hrun).ids hI.1,
      (hok o sp ho hI.1 hpre).headed hI.1 hpre hrun hI.2⟩).2

/-- Operations that spare the first job. -/
theorem Ops.front {e : Env} {ok : Op → Spool → Prop} {s s' : Spool} {k : ℤ} (h : Ops e ok s s')
    (hids : s.view.Ids) (hs : front s.activeJobs = some (k, .running))
    (hok : ∀ o sp, ok o sp → o.Pre e sp → front sp.activeJobs = some (k, .running) → o.Spares k) :
    front s'.activeJobs = some (k, .running) :=
  (h.invariant (I := fun sp => sp.view.Ids ∧ TaskSpooler.front sp.activeJobs = some (k, .running))
    ⟨hids, hs⟩ fun {sp _ o} hI ho hpre hrun => ⟨(Op.moves hI.1 hpre hrun).ids hI.1,
      Op.front_spared hI.1 hpre hrun (hok o sp ho hpre hI.2) hI.2⟩).2

end TaskSpooler
