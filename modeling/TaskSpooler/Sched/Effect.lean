import TaskSpooler.Sched.Moves

/-!
# What a move changes

Apart from the recount and from changes of the table of users, a move replaces at most one job of
the queue by another one and adds something to the counters of its owner.  `Act.old` and `Act.new`
are the two jobs, `Act.owner`, `Act.slots`, `Act.jobs` and `Act.queue` the changes of the counters.

* `Act.plain_changed`, `Act.plain_removed`, `Act.plain_added`, `Act.plain_same`: the active jobs after
  a move, in their order, up to the fields that notifications write.
* `Act.perm_apply`: the active jobs after a move, up to their order.
* `Act.sum_apply`: a sum over the active jobs changes by the difference of the two jobs.
-/

namespace TaskSpooler

/-! ### Jobs without their notifications -/

theorem Job.jobid_of_plain {p p' : Job} (h : p.plain = p'.plain) : p.jobid = p'.jobid := by
  have hid := congrArg Job.jobid h
  exact hid

/-- A function of a job that does not look at notifications. -/
def PlainFn {α : Type*} (g : Job → α) : Prop := ∀ p, g p.plain = g p

namespace Queue

variable {q : Queue} {jobid : ℤ} {f : Job → Job} {p : Job}

/-- The active jobs without their notifications. -/
def plain (q : Queue) : List Job := q.activeJobs.map Job.plain

theorem map_notifyErrorlevel {β : Type*} {g : Job → β}
    (hg : ∀ n x, g (Job.addErrorlevel n x) = g x) :
    (q.notifyErrorlevel p).activeJobs.map g = q.activeJobs.map g := by
  have hfold : ∀ (l : List ℤ) (q : Queue),
      (l.foldl (fun q jobid =>
        q.modAnyJob jobid (Job.addErrorlevel p.result.errorlevel)) q).activeJobs.map g =
          q.activeJobs.map g := by
    intro l
    induction l with
    | nil => exact fun q => rfl
    | cons jobid l ih =>
      intro q
      rw [List.foldl_cons, ih, modAnyJob]
      split_ifs
      · exact Keyed.map_modify fun x _ _ => hg _ x
      · rfl
  exact hfold _ _

theorem plain_notifyErrorlevel : (q.notifyErrorlevel p).plain = q.plain :=
  map_notifyErrorlevel fun _ _ => rfl

theorem plain_notifiedBy (ds : List ℤ) (jobid : ℤ) : (q.notifiedBy ds jobid).plain = q.plain := by
  have hfold : ∀ (ds : List ℤ) (l : List Job),
      (ds.foldl (fun l d => Keyed.modify Job.jobid d (Job.addNotify jobid) l) l).map Job.plain =
        l.map Job.plain := by
    intro ds
    induction ds with
    | nil => exact fun l => rfl
    | cons d ds ih =>
      intro l
      rw [List.foldl_cons, ih]
      exact Keyed.map_modify fun _ _ _ => rfl
  exact hfold ds q.activeJobs

theorem plain_modJob_const {c : Job} :
    (q.modJob jobid fun _ => c).plain = Keyed.modify Job.jobid jobid (fun _ => c.plain) q.plain :=
  (Keyed.modify_map (c := Job.jobid) (d := Job.jobid) (h := Job.plain) (f := fun _ => c)
    (g := fun _ => c.plain) (fun _ => rfl) fun _ => rfl).symm

/-- What is left of a queue without its jobs. -/
def counters (q : Queue) : (ℕ → User) × ℤ × ℕ × ℤ × ℤ :=
  (q.users, q.busySlots, q.nusers, q.maxSlots, q.jobids)

theorem counters_modAnyJob : (q.modAnyJob jobid f).counters = q.counters := by
  rw [modAnyJob]
  split_ifs <;> rfl

theorem counters_notifyErrorlevel : (q.notifyErrorlevel p).counters = q.counters := by
  have hfold : ∀ (l : List ℤ) (q : Queue),
      (l.foldl (fun q jobid =>
        q.modAnyJob jobid (Job.addErrorlevel p.result.errorlevel)) q).counters = q.counters := by
    intro l
    induction l with
    | nil => exact fun q => rfl
    | cons jobid l ih =>
      intro q
      rw [List.foldl_cons, ih, counters_modAnyJob]
  exact hfold _ _

end Queue

/-- Add to the counters of a user. -/
def User.bump (slots jobs queue : ℤ) (u : User) : User :=
  { u with busy := u.busy + slots, jobs := u.jobs + jobs, queue := u.queue + queue }

@[simp] theorem User.bump_zero (u : User) : u.bump 0 0 0 = u := by
  simp [User.bump]

namespace Queue

/-- The slots that `free_cores` gives back. -/
def freedSlots (p : Job) : ℤ := if p.numAllocated = 0 then 0 else p.numSlots

/-- The running jobs that `free_cores` counts off. -/
def freedJobs (p : Job) : ℤ := if p.numAllocated = 0 then 0 else 1

end Queue

/-! ### The description of a move -/

namespace Act

/-- The job that a move changes, as it was. -/
def old (v : View) : Act → Option Job
  | pause p | relegate p _ | abnormal p | wall p _ | start p | dispatch _ p _ | asleep _ p _
  | wake p | lock p | unlock p | reuse p _ _ _ _ | finish _ p _ _ | gone p | drop p _ | delete p
  | pid p _ => some p
  | reconnect p _ _ => if (v.findjob p.jobid).isSome then some p else none
  | _ => none

/-- The job that a move changes, as it is afterwards. -/
def new (v : View) : Act → Option Job
  | pause p => some (p.freed.setState .pause)
  | relegate p _ => some (if p.state = .running then p.freed.relegated else p.relegated)
  | abnormal p => some (p.freed.setState .abnormal)
  | wall p w => some (p.setWallTime w)
  | start p | dispatch _ p _ => some p.started
  | asleep _ p _ => some (p.setState .pause)
  | wake p | unlock p => some (p.setState .queued)
  | lock p => some (p.setState .locked)
  | submit p _ _ _ _ => some p
  | reuse _ p _ _ _ => some (p.setState (if p.state = .wait then .queued else p.state))
  | gone p => some p.gone
  | pid p n => some (p.setPid n)
  | reconnect p st socket =>
    if (v.findjob p.jobid).isSome then some (p.reconnected st socket) else none
  | _ => none

/-- The user whose counters a move changes. -/
def owner : Act → Option ℕ
  | pause p | relegate p _ | abnormal p | start p | lock p | unlock p | submit p _ _ _ _
  | reuse _ p _ _ _ | finish _ p _ _ | drop p _ => p.user
  | dispatch uid _ _ | asleep uid _ _ => some uid
  | _ => none

/-- The move gives the slots of its job back. -/
def frees : Act → Option Job
  | pause p | abnormal p | finish _ p _ _ => some p
  | relegate p _ => if p.state = .running then some p else none
  | drop p shelf => if shelf.isSome then some p else none
  | _ => none

/-- The move takes slots for its job. -/
def takes : Act → Option Job
  | start p | dispatch _ p _ => some p
  | _ => none

/-- What a move adds to `busy_slots` and to `user->busy`. -/
def slots (a : Act) : ℤ :=
  (match a.takes with
    | some p => p.numSlots
    | none => 0) -
  match a.frees with
    | some p => Queue.freedSlots p
    | none => 0

/-- What a move adds to `user->jobs`. -/
def jobs (a : Act) : ℤ :=
  (match a.takes with
    | some _ => 1
    | none => 0) -
  match a.frees with
    | some p => Queue.freedJobs p
    | none => 0

/-- What a move adds to `user->queue`. -/
def queue : Act → ℤ
  | dispatch _ p _ => if p.state = .queued then -1 else 0
  | asleep _ _ _ | lock _ => -1
  | unlock _ | submit _ _ _ _ _ => 1
  | reuse _ p _ _ _ => if p.state = .locked then 0 else 1
  | _ => 0

/-- The move leaves the table of users and the counters to `old`, `new` and the changes above. -/
def Local : Act → Prop
  | recount | users _ _ => False
  | _ => True

variable {a : Act} {p : Job}

theorem slots_of_takes (h : a.takes = some p) : a.slots = p.numSlots := by
  cases a with
  | start x | dispatch uid x q =>
    cases h
    simp [slots, takes, frees]
  | _ => cases h

theorem slots_of_frees (h : a.frees = some p) : a.slots = -Queue.freedSlots p := by
  have htakes : a.takes = none := by
    cases a with
    | start | dispatch => cases h
    | _ => rfl
  rw [slots, htakes, h]
  exact zero_sub _

theorem slots_of_none (htakes : a.takes = none) (hfrees : a.frees = none) : a.slots = 0 := by
  rw [slots, htakes, hfrees]
  rfl

end Act

/-! ### Changing one job of the queue -/

namespace View

/-- The ids of the active jobs are distinct and have been given out, and the users are distinct. -/
structure Ids (v : View) : Prop where
  nodup : (v.activeJobs.map Job.jobid).Nodup
  lt : ∀ p ∈ v.activeJobs, p.jobid < v.jobids
  uids : ∀ u < v.nusers, ∀ u' < v.nusers, (v.users u).uid = (v.users u').uid → u = u'

variable {v : View} {p : Job}

theorem Has.mem (h : v.Has p) : p.strip ∈ v.activeJobs := Keyed.mem_of_lookup h

theorem Ids.lt_of_has (hids : v.Ids) (h : v.Has p) : p.jobid < v.jobids := hids.lt p.strip h.mem

end View

namespace Queue

variable {q : Queue} {f : Job → Job} {p : Job}

theorem findjob_modJob {jobid : ℤ} (hf : ∀ p, p.jobid = jobid → (f p).jobid = jobid) (k : ℤ) :
    (q.modJob jobid f).findjob k = if k = jobid then (q.findjob k).map f else q.findjob k :=
  Keyed.lookup_modify hf k

theorem findjob_modJob_of_ne {jobid k : ℤ} (hf : ∀ p, p.jobid = jobid → (f p).jobid = jobid)
    (hne : k ≠ jobid) : (q.modJob jobid f).findjob k = q.findjob k := by
  rw [findjob_modJob hf, if_neg hne]

theorem findjob_freeCores_of_ne {k : ℤ} (hne : k ≠ p.jobid) :
    (q.freeCores p).findjob k = q.findjob k := by
  rw [freeCores]
  split_ifs
  · rfl
  · refine (findjob_modJob_of_ne (f := Job.freed) (fun _ h => h) hne).trans ?_
    cases p.user <;> rfl

theorem activeJobs_freeCores (hnd : (q.activeJobs.map Job.jobid).Nodup)
    (h : q.findjob p.jobid = some p.strip) :
    (q.freeCores p).activeJobs = Keyed.modify Job.jobid p.jobid Job.freed q.activeJobs := by
  rw [freeCores]
  split_ifs with hz
  · have hfreed : p.strip.freed = p.strip := by
      simp only [Job.freed, Job.strip, ← hz]
    exact (Keyed.modify_eq_self (c := Job.jobid) hnd (Keyed.mem_of_lookup h) hfreed).symm
  · cases p.user <;> rfl

theorem activeJobs_freeCores_modJob (hnd : (q.activeJobs.map Job.jobid).Nodup)
    (h : q.findjob p.jobid = some p.strip) :
    ((q.freeCores p).modJob p.jobid f).activeJobs =
      Keyed.modify Job.jobid p.jobid (fun p => f p.freed) q.activeJobs := by
  show Keyed.modify Job.jobid p.jobid f (q.freeCores p).activeJobs = _
  rw [activeJobs_freeCores hnd h, Keyed.modify_modify]
  exact fun _ h => h

theorem activeJobs_start :
    (q.start p).activeJobs = Keyed.modify Job.jobid p.jobid Job.started q.activeJobs := by
  rw [start]
  cases p.user <;> rfl

theorem activeJobs_modUser {u : Option ℕ} {f : User → User} :
    (q.modUser u f).activeJobs = q.activeJobs := by
  cases u <;> rfl

theorem remove_map_plain (jobid : ℤ) (l : List Job) :
    Keyed.remove Job.jobid jobid (l.map Job.plain) =
      (Keyed.remove Job.jobid jobid l).map Job.plain :=
  Keyed.remove_map (h := Job.plain) fun _ => rfl

theorem plain_finish_dropJob (r : Result) (hnd : (q.activeJobs.map Job.jobid).Nodup)
    (h : q.findjob p.jobid = some p.strip) :
    ((q.finish r p).dropJob p.jobid).plain = (q.dropJob p.jobid).plain := by
  have hfin : (q.finish r p).plain = ((q.freeCores p).modJob p.jobid (Job.done r)).plain :=
    plain_notifyErrorlevel
  show (Keyed.remove _ _ _).map _ = (Keyed.remove _ _ _).map _
  rw [← remove_map_plain, ← plain, hfin, plain, activeJobs_freeCores_modJob hnd h,
    remove_map_plain, Keyed.remove_modify hnd]
  exact fun _ => rfl

theorem activeJobs_dropJob_freeCores (hnd : (q.activeJobs.map Job.jobid).Nodup) :
    ((q.dropJob p.jobid).freeCores p).activeJobs = (q.dropJob p.jobid).activeJobs := by
  rw [freeCores]
  split_ifs
  · rfl
  · have hno : ∀ x ∈ (q.dropJob p.jobid).activeJobs, x.jobid ≠ p.jobid :=
      fun x hx => ((Keyed.mem_remove hnd).1 hx).2
    have hself := Keyed.modify_of_notMem (f := Job.freed) hno
    cases p.user <;> exact hself

theorem plain_modify {p' : Job} (hnd : (q.activeJobs.map Job.jobid).Nodup)
    (h : q.findjob p.jobid = some p.strip) (hf : (f p.strip).plain = p'.plain) :
    (Keyed.modify Job.jobid p.jobid f q.activeJobs).map Job.plain =
      Keyed.modify Job.jobid p.jobid (fun _ => p'.plain) q.plain := by
  rw [Keyed.modify, Keyed.modify, plain, List.map_map, List.map_map]
  refine List.map_congr_left fun x hx => ?_
  have hid : x.plain.jobid = x.jobid := rfl
  simp only [Function.comp_apply, hid]
  split_ifs with hk
  · have hxp : x = p.strip := Keyed.eq_of_key hnd hx (Keyed.mem_of_lookup h) hk
    rw [hxp, hf]
  · rfl

theorem plain_dropJob (jobid : ℤ) : (q.dropJob jobid).plain = Keyed.remove Job.jobid jobid q.plain :=
  (remove_map_plain jobid q.activeJobs).symm

end Queue

namespace Act

variable {v : View} {a : Act} {p p' : Job}

/-! ### The job that a move changes -/

/-- The job that a move changes is an active one. -/
theorem has_old {p : Job} (hg : a.Guard v) (hold : a.old v = some p) : v.Has p := by
  cases a <;> simp only [old, reduceCtorEq, Option.some.injEq] at hold
  case dispatch => exact hold ▸ hg.2.1
  case asleep => exact hold ▸ hg.2.1
  case wall => exact hold ▸ hg
  case delete => exact hold ▸ hg
  case reconnect p₀ st socket =>
    split_ifs at hold with hsome
    cases hold
    obtain ⟨x, hx⟩ := Option.isSome_iff_exists.1 hsome
    have hget := hg.1
    rw [Queue.getJob, hx] at hget
    exact hx.trans hget
  all_goals exact hold ▸ hg.1

theorem new_of_old_none {p : Job} (hold : a.old v = none) (hnew : a.new v = some p) :
    ∃ ds n m q, a = submit p ds n m q := by
  cases a <;> simp only [old, new, reduceCtorEq, Option.some.injEq] at hold hnew
  case submit p ds n m q =>
    subst hnew
    exact ⟨ds, n, m, q, rfl⟩
  case reconnect p st socket =>
    split_ifs at hold hnew

theorem jobid_new {p p' : Job} (hg : a.Guard v) (hold : a.old v = some p)
    (hnew : a.new v = some p') : p'.jobid = p.jobid := by
  cases a <;> simp only [old, new] at hold hnew
  case reuse p₀ p₁ ds m q =>
    cases hold
    cases hnew
    exact hg.2.1.symm
  case relegate p₀ b =>
    cases hold
    cases hnew
    split_ifs <;> rfl
  case reconnect p₀ st socket =>
    split_ifs at hold hnew
    cases hold
    cases hnew
    rfl
  all_goals first | (cases hold; done) | (cases hnew; done) | (cases hold; cases hnew; rfl)

/-- A submission of a job that neither waits for its client nor has lost it finds it locked. -/
theorem locked_of_reuse (hst : p.state = p'.state)
    (hstate : p'.state = .delink ∨ p'.state = .wait ∨ p'.state = .locked)
    (hp : p.state ≠ .wait ∧ p.state ≠ .delink) : p'.state = .locked := by
  obtain h | h | h := hstate
  · exact absurd (hst.trans h) hp.2
  · exact absurd (hst.trans h) hp.1
  · exact h

/-- A reconnected job keeps its state, if it has not lost its client. -/
theorem new_reconnect {st : Jobstate} {socket : ℤ} (hg : (reconnect p st socket).Guard v)
    (hnew : (reconnect p st socket).new v = some p') : (reconnect p st socket).old v = some p ∧
      (p.state ≠ .delink → p' = p.reconnected p.state socket) := by
  have hst := hg.2.2
  simp only [old, new] at hnew ⊢
  split_ifs at hnew ⊢
  refine ⟨rfl, fun hne => ?_⟩
  rw [if_neg hne] at hst
  rw [← hst]
  exact (Option.some.inj hnew).symm

/-! ### The active jobs after a move, in their order -/

/-- A move that changes the job `p` by `f` and no other. -/
theorem plain_modifies {f : Job → Job} (hids : v.Ids) (hp : v.findjob p.jobid = some p.strip)
    (hact : (a.apply v).activeJobs = Keyed.modify Job.jobid p.jobid f v.activeJobs)
    (hf : (f p.strip).plain = p'.plain) :
    (a.apply v).plain = Keyed.modify Job.jobid p.jobid (fun _ => p'.plain) v.plain := by
  rw [Queue.plain, hact]
  exact Queue.plain_modify hids.nodup hp hf

theorem activeJobs_pause (hids : v.Ids) (hg : (pause p).Guard v) :
    ((pause p).apply v).activeJobs =
      Keyed.modify Job.jobid p.jobid (fun x => x.freed.setState .pause) v.activeJobs :=
  Queue.activeJobs_freeCores_modJob (f := Job.setState .pause) hids.nodup hg.1

theorem activeJobs_relegate {requeue : Bool} (hids : v.Ids) (hg : (relegate p requeue).Guard v) :
    ((relegate p requeue).apply v).activeJobs = Keyed.modify Job.jobid p.jobid
      (fun x => if p.state = .running then x.freed.relegated else x.relegated) v.activeJobs := by
  rw [apply, View.onQueue_toQueue]
  split_ifs
  · exact Queue.activeJobs_freeCores_modJob (f := Job.relegated) hids.nodup hg.1
  · rfl

theorem activeJobs_abnormal (hids : v.Ids) (hg : (abnormal p).Guard v) :
    ((abnormal p).apply v).activeJobs =
      Keyed.modify Job.jobid p.jobid (fun x => x.freed.setState .abnormal) v.activeJobs :=
  Queue.activeJobs_freeCores_modJob (f := Job.setState .abnormal) hids.nodup hg.1

theorem activeJobs_dispatch {uid : ℕ} {q : Queue} : ((dispatch uid p q).apply v).activeJobs =
    Keyed.modify Job.jobid p.jobid Job.started v.activeJobs := by
  simp only [apply]
  split_ifs
  · exact Queue.activeJobs_start
  · exact Queue.activeJobs_start

theorem activeJobs_lock : ((lock p).apply v).activeJobs =
    Keyed.modify Job.jobid p.jobid (Job.setState .locked) v.activeJobs := by
  cases hu : p.user <;> simp only [apply, hu] <;> rfl

theorem activeJobs_unlock : ((unlock p).apply v).activeJobs =
    Keyed.modify Job.jobid p.jobid (Job.setState .queued) v.activeJobs := by
  cases hu : p.user <;> simp only [apply, hu] <;> rfl

/-- The record of a submission is filled in. -/
theorem plain_reuse {p₀ : Job} {ds : List ℤ} {m : NewJob} {q : Queue}
    (hg : (reuse p₀ p ds m q).Guard v) : ((reuse p₀ p ds m q).apply v).plain =
      Keyed.modify Job.jobid p₀.jobid
        (fun _ => (p.setState (if p.state = .wait then .queued else p.state)).plain) v.plain := by
  obtain ⟨-, hid, -, -, -, -, ⟨u, -, hu⟩, -⟩ := hg
  have happly : (apply v (reuse p₀ p ds m q)).plain = ((v.notifiedBy ds p.jobid).modJob p.jobid
      fun _ => p.strip.setState (if p.state = .wait then .queued else p.state)).plain := by
    simp only [apply, hu]
    split_ifs <;> rfl
  rw [happly, Queue.plain_modJob_const, Queue.plain_notifiedBy, hid]
  rfl

/-- A running job is gone: the jobs that wait for it learn its level, which `plain` leaves out. -/
theorem plain_gone (hids : v.Ids) (hg : (gone p).Guard v) : ((gone p).apply v).plain =
    Keyed.modify Job.jobid p.jobid (fun _ => p.gone.plain) v.plain := by
  show ((v.toQueue.modJob p.jobid Job.gone).notifyErrorlevel p.gone).plain = _
  rw [Queue.plain_notifyErrorlevel]
  exact Queue.plain_modify (f := Job.gone) hids.nodup hg.1 rfl

/-- The relink of a job that is still in the queue. -/
theorem plain_reconnect {st : Jobstate} {socket : ℤ} (hids : v.Ids)
    (hg : (reconnect p st socket).Guard v) (hsome : (v.findjob p.jobid).isSome) :
    ((reconnect p st socket).apply v).plain = Keyed.modify Job.jobid p.jobid
      (fun _ => (p.reconnected st socket).plain) v.plain := by
  have hfind : v.findjob p.jobid = some p.strip := by
    obtain ⟨x, hx⟩ := Option.isSome_iff_exists.1 hsome
    have h := hg.1
    rw [Queue.getJob, hx] at h
    rw [hx]
    exact h
  have happly : (apply v (reconnect p st socket)).plain =
      (v.toQueue.modJob p.jobid (Job.reconnected st socket)).plain := by
    show (v.toQueue.modAnyJob p.jobid (Job.reconnected st socket)).plain = _
    rw [Queue.modAnyJob, if_pos hsome]
  rw [happly]
  exact Queue.plain_modify (f := Job.reconnected st socket) hids.nodup hfind rfl

/-- **A job is changed** where it stands. -/
theorem plain_changed (hids : v.Ids) (hg : a.Guard v) (hold : a.old v = some p)
    (hnew : a.new v = some p') :
    (a.apply v).plain = Keyed.modify Job.jobid p.jobid (fun _ => p'.plain) v.plain := by
  cases a with
  | pause p =>
    cases hold
    cases hnew
    exact plain_modifies hids hg.1 (activeJobs_pause hids hg) rfl
  | relegate p requeue =>
    cases hold
    cases hnew
    refine plain_modifies hids hg.1 (activeJobs_relegate hids hg) ?_
    split_ifs <;> rfl
  | abnormal p =>
    cases hold
    cases hnew
    exact plain_modifies hids hg.1 (activeJobs_abnormal hids hg) rfl
  | wall p w =>
    cases hold
    cases hnew
    exact plain_modifies hids hg rfl rfl
  | start p =>
    cases hold
    cases hnew
    exact plain_modifies hids hg.1 Queue.activeJobs_start rfl
  | dispatch uid p q =>
    cases hold
    cases hnew
    exact plain_modifies hids hg.2.1 activeJobs_dispatch rfl
  | asleep uid p q =>
    cases hold
    cases hnew
    exact plain_modifies hids hg.2.1 rfl rfl
  | wake p =>
    cases hold
    cases hnew
    exact plain_modifies hids hg.1 rfl rfl
  | lock p =>
    cases hold
    cases hnew
    exact plain_modifies hids hg.1 activeJobs_lock rfl
  | unlock p =>
    cases hold
    cases hnew
    exact plain_modifies hids hg.1 activeJobs_unlock rfl
  | reuse p₀ p₁ ds m q =>
    cases hold
    cases hnew
    exact plain_reuse hg
  | gone p =>
    cases hold
    cases hnew
    exact plain_gone hids hg
  | pid p n =>
    cases hold
    cases hnew
    exact plain_modifies hids hg.1 rfl rfl
  | reconnect p₀ st socket =>
    simp only [old, new] at hold hnew
    split_ifs at hold hnew with hsome
    cases hold
    cases hnew
    exact plain_reconnect hids hg hsome
  | _ => first | (cases hold; done) | cases hnew

/-- **A job is removed.** -/
theorem plain_removed (hids : v.Ids) (hg : a.Guard v) (hold : a.old v = some p)
    (hnew : a.new v = none) : (a.apply v).plain = Keyed.remove Job.jobid p.jobid v.plain := by
  have hnd := hids.nodup
  cases a with
  | finish r p p' max =>
    cases hold
    exact (Queue.plain_finish_dropJob r hnd hg.1).trans (Queue.plain_dropJob _)
  | drop p shelf =>
    cases hold
    refine Eq.trans ?_ (Queue.plain_dropJob p.jobid)
    cases shelf with
    | none => rfl
    | some x =>
      show ((v.toQueue.dropJob p.jobid).freeCores p).activeJobs.map Job.plain = _
      rw [Queue.activeJobs_dropJob_freeCores hnd]
      rfl
  | delete p =>
    cases hold
    exact Queue.plain_dropJob p.jobid
  | reconnect p₀ st socket =>
    simp only [old, new] at hold hnew
    split_ifs at hold hnew
  | _ => first | (cases hold; done) | cases hnew

/-- **A job is added** at the end. -/
theorem plain_added (hg : a.Guard v) (hold : a.old v = none) (hnew : a.new v = some p') :
    (a.apply v).plain = v.plain ++ [p'.plain] := by
  obtain ⟨ds, n, m, q, rfl⟩ := new_of_old_none hold hnew
  obtain ⟨u, -, hu⟩ := hg.2.2.2.2.2.2.2.2.1
  simp only [apply, hu]
  show List.map Job.plain ((v.notifiedBy ds p'.jobid).activeJobs ++ [p'.strip]) = _
  rw [List.map_append, ← Queue.plain, Queue.plain_notifiedBy]
  rfl

/-- **Other moves** leave the jobs as they are, but for their order. -/
theorem plain_same (hold : a.old v = none) (hnew : a.new v = none) (hre : ∀ l, a ≠ reorder l) :
    (a.apply v).plain = v.plain := by
  cases a with
  | reorder l => exact absurd rfl (hre l)
  | goneFinished p => exact Queue.plain_notifyErrorlevel
  | recount =>
    simp only [apply]
    split_ifs <;> rfl
  | reconnect p st socket =>
    simp only [old] at hold
    show (v.toQueue.modAnyJob p.jobid (Job.reconnected st socket)).plain = _
    rw [Queue.modAnyJob]
    split_ifs with hsome
    · rw [if_pos hsome] at hold
      cases hold
    · rfl
  | _ => first | (cases hold; done) | (cases hnew; done) | rfl

/-! ### The active jobs after a move, in any order -/

/-- **The active jobs after a move**: `Act.old` has been replaced by `Act.new`. -/
theorem perm_apply (hids : v.Ids) (hg : a.Guard v) :
    ((a.old v).toList.map Job.plain ++ (a.apply v).plain).Perm
      ((a.new v).toList.map Job.plain ++ v.plain) := by
  have hnd : (v.plain.map Job.jobid).Nodup := by
    rw [Queue.plain, List.map_map]
    exact hids.nodup
  cases hold : a.old v with
  | some p =>
    have hmem : p.plain ∈ v.plain := List.mem_map.2 ⟨p.strip, (has_old hg hold).mem, rfl⟩
    cases hnew : a.new v with
    | some p' =>
      rw [plain_changed hids hg hold hnew]
      exact Keyed.perm_modify (f := fun _ => p'.plain) hnd hmem
    | none =>
      rw [plain_removed hids hg hold hnew]
      exact (Keyed.perm_cons_remove hnd hmem).symm
  | none =>
    cases hnew : a.new v with
    | some p' =>
      rw [plain_added hg hold hnew]
      have hcomm : (v.plain ++ [p'.plain]).Perm ([p'.plain] ++ v.plain) := List.perm_append_comm
      exact hcomm
    | none =>
      by_cases hre : ∃ l, a = reorder l
      · obtain ⟨l, rfl⟩ := hre
        exact hg.map _
      · rw [plain_same hold hnew fun l heq => hre ⟨l, heq⟩]

/-- **A sum over the active jobs after a move.** -/
theorem sum_apply {w : Job → ℤ} (hw : PlainFn w) (hids : v.Ids) (hg : a.Guard v) :
    ((a.apply v).activeJobs.map w).sum =
      (v.activeJobs.map w).sum + ((a.new v).elim 0 w - (a.old v).elim 0 w) := by
  have hplain : ∀ l : List Job, ((l.map Job.plain).map w).sum = (l.map w).sum := by
    intro l
    rw [List.map_map]
    exact congrArg _ (List.map_congr_left fun p _ => hw p)
  have hopt : ∀ o : Option Job, ((o.toList.map Job.plain).map w).sum = o.elim 0 w := by
    intro o
    cases o with
    | none => rfl
    | some p => simp [hw p]
  have h := ((perm_apply hids hg).map w).sum_eq
  rw [List.map_append, List.sum_append, List.map_append, List.sum_append, hopt, hopt,
    Queue.plain, hplain, Queue.plain, hplain] at h
  omega

theorem ids_perm (hids : v.Ids) (hg : a.Guard v) :
    ((a.old v).toList.map Job.jobid ++ (a.apply v).activeJobs.map Job.jobid).Perm
      ((a.new v).toList.map Job.jobid ++ v.activeJobs.map Job.jobid) := by
  have h := (perm_apply hids hg).map Job.jobid
  simp only [List.map_append, List.map_map, Queue.plain] at h
  exact h

end Act

end TaskSpooler
