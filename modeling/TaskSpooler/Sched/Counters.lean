import TaskSpooler.Sched.Effect

/-!
# The counters and the ids after a move

A move adds `Act.slots`, `Act.jobs` and `Act.queue` to the counters of its owner, and `Act.slots` to
`busy_slots`, unless it is the recount or a change of the table of users.

* `Act.users_apply`, `Act.busySlots_apply`: the counters.
* `Act.ids_apply`: the ids of the active jobs stay distinct and below the next id.
-/

namespace TaskSpooler

namespace Queue

variable (q : Queue) (p : Job) (u : ℕ)

theorem users_notifyErrorlevel : (q.notifyErrorlevel p).users = q.users :=
  congrArg (fun c => c.1) counters_notifyErrorlevel

theorem busySlots_notifyErrorlevel : (q.notifyErrorlevel p).busySlots = q.busySlots :=
  congrArg (fun c => c.2.1) counters_notifyErrorlevel

theorem users_modUser {o : Option ℕ} {f : User → User} :
    (q.modUser o f).users u = if o = some u then f (q.users u) else q.users u := by
  cases o with
  | none => rfl
  | some i =>
    show Function.update q.users i (f (q.users i)) u = _
    by_cases h : i = u
    · subst h
      simp
    · rw [Function.update_of_ne (Ne.symm h), if_neg (by simpa using h)]

theorem users_countQueued (o : Option ℕ) :
    (q.countQueued o).users u = if o = some u then (q.users u).bump 0 0 1 else q.users u := by
  rw [countQueued, users_modUser]
  simp [User.bump]

theorem users_uncountQueued (o : Option ℕ) :
    (q.uncountQueued o).users u = if o = some u then (q.users u).bump 0 0 (-1) else q.users u := by
  rw [uncountQueued, users_modUser]
  simp [User.bump, sub_eq_add_neg]

theorem users_freeCores : (q.freeCores p).users u =
    if p.user = some u then (q.users u).bump (-freedSlots p) (-freedJobs p) 0 else q.users u := by
  rw [freeCores, freedSlots, freedJobs]
  split_ifs with hz
  · simp
  · rfl
  all_goals
    show (q.modUser p.user _).users u = _
    rw [users_modUser]
    simp_all [User.bump, sub_eq_add_neg]

theorem users_start : (q.start p).users u =
    if p.user = some u then (q.users u).bump p.numSlots 1 0 else q.users u := by
  rw [start]
  show (q.modUser p.user _).users u = _
  rw [users_modUser]
  simp [User.bump]

theorem busySlots_freeCores : (q.freeCores p).busySlots = q.busySlots - freedSlots p := by
  rw [freeCores, freedSlots]
  split_ifs
  · omega
  · cases p.user <;> rfl

theorem busySlots_start : (q.start p).busySlots = q.busySlots + p.numSlots := by
  rw [start]
  cases p.user <;> rfl

/-- The number of users, the number of slots and the next job id. -/
def limits (q : Queue) : ℕ × ℤ × ℤ := (q.nusers, q.maxSlots, q.jobids)

theorem limits_modUser {o : Option ℕ} {f : User → User} : (q.modUser o f).limits = q.limits := by
  cases o <;> rfl

theorem limits_notifyErrorlevel : (q.notifyErrorlevel p).limits = q.limits :=
  congrArg (fun c => c.2.2) counters_notifyErrorlevel

theorem limits_freeCores : (q.freeCores p).limits = q.limits := by
  rw [freeCores]
  split_ifs
  · rfl
  · cases p.user <;> rfl

theorem limits_start : (q.start p).limits = q.limits := by
  rw [start]
  cases p.user <;> rfl

end Queue

namespace Act

variable {v : View} {a : Act}

/-! ### The counters -/

theorem recount_toQueue : (apply v recount).toQueue = v.toQueue.recount := by
  simp only [apply]
  split_ifs <;> rfl

/-- **The counters of the users after a move.** -/
theorem users_apply (hl : a.Local) (hg : a.Guard v) (u : ℕ) : (a.apply v).users u =
    if a.owner = some u then (v.users u).bump a.slots a.jobs a.queue else v.users u := by
  cases a with
  | recount => exact hl.elim
  | users us n => exact hl.elim
  | pause p =>
    refine (v.users_freeCores p u).trans ?_
    simp [slots, jobs, queue, owner, takes, frees]
  | abnormal p =>
    refine (v.users_freeCores p u).trans ?_
    simp [slots, jobs, queue, owner, takes, frees]
  | relegate p requeue =>
    by_cases hr : p.state = .running
    · simp only [apply, hr, if_true]
      refine (v.users_freeCores p u).trans ?_
      simp [slots, jobs, queue, owner, takes, frees, hr]
    · simp [slots, jobs, queue, owner, takes, frees, apply, hr, Queue.modJob]
  | start p =>
    refine (v.users_start p u).trans ?_
    simp [slots, jobs, queue, owner, takes, frees]
  | dispatch uid p q =>
    -- the user whose turn it is owns the job
    have hu : p.user = some uid := hg.2.2.2.1
    by_cases hq : p.state = .queued
    · have h := (v.uncountQueued (some uid)).users_start p u
      rw [Queue.users_uncountQueued] at h
      simp only [apply, hq, if_true]
      refine h.trans ?_
      simp only [hu, slots, jobs, queue, owner, takes, frees, hq]
      split_ifs <;> simp [User.bump]
    · have h := v.users_start p u
      simp only [apply, hq, if_false]
      refine h.trans ?_
      simp [hu, slots, jobs, queue, owner, takes, frees, hq]
  | asleep uid p q =>
    refine (v.users_uncountQueued u (some uid)).trans ?_
    simp [slots, jobs, queue, owner, takes, frees]
  | lock p =>
    refine (v.users_uncountQueued u p.user).trans ?_
    simp [slots, jobs, queue, owner, takes, frees]
  | unlock p =>
    refine (v.users_countQueued u p.user).trans ?_
    simp [slots, jobs, queue, owner, takes, frees]
  | submit p ds n m q =>
    refine (Queue.users_countQueued _ u p.user).trans ?_
    simp [slots, jobs, queue, owner, takes, frees]
  | reuse p₀ p ds m q =>
    by_cases hq : p.state = .locked
    · simp [slots, jobs, queue, owner, takes, frees, apply, hq, Queue.modJob, Queue.notifiedBy]
    · simp only [apply, hq, if_false]
      refine (Queue.users_countQueued _ u p.user).trans ?_
      simp [slots, jobs, queue, owner, takes, frees, hq, Queue.modJob, Queue.notifiedBy]
  | finish r p p' max =>
    have h : (v.toQueue.finish r p).users u = (v.freeCores p).users u :=
      congrFun (Queue.users_notifyErrorlevel ..) u
    refine h.trans ((v.users_freeCores p u).trans ?_)
    simp [slots, jobs, queue, owner, takes, frees]
  | drop p shelf =>
    cases shelf with
    | none => simp [slots, jobs, queue, owner, takes, frees, apply, Queue.dropJob]
    | some x =>
      refine ((v.dropJob p.jobid).users_freeCores p u).trans ?_
      simp [slots, jobs, queue, owner, takes, frees, Queue.dropJob]
  | gone p => exact congrFun (Queue.users_notifyErrorlevel ..) u
  | goneFinished p => exact congrFun (Queue.users_notifyErrorlevel ..) u
  | reconnect p st socket => exact congrFun (congrArg (fun c => c.1) Queue.counters_modAnyJob) u
  | _ => rfl

/-- **`busy_slots` after a move.** -/
theorem busySlots_apply (hl : a.Local) : (a.apply v).busySlots = v.busySlots + a.slots := by
  cases a with
  | recount => exact hl.elim
  | users us n => exact hl.elim
  | pause p =>
    refine (v.busySlots_freeCores p).trans ?_
    simp [slots, takes, frees, sub_eq_add_neg]
  | abnormal p =>
    refine (v.busySlots_freeCores p).trans ?_
    simp [slots, takes, frees, sub_eq_add_neg]
  | relegate p requeue =>
    by_cases hr : p.state = .running
    · simp only [apply, hr, if_true]
      refine (v.busySlots_freeCores p).trans ?_
      simp [slots, takes, frees, hr, sub_eq_add_neg]
    · simp [slots, takes, frees, apply, hr, Queue.modJob]
  | start p =>
    refine (v.busySlots_start p).trans ?_
    simp [slots, takes, frees]
  | dispatch uid p q =>
    simp only [apply]
    split_ifs
    · refine ((v.uncountQueued (some uid)).busySlots_start p).trans ?_
      simp [slots, takes, frees, Queue.uncountQueued, Queue.modUser]
    · refine (v.busySlots_start p).trans ?_
      simp [slots, takes, frees]
  | lock p => cases hu : p.user <;> simp [apply, slots, takes, frees, hu] <;> rfl
  | unlock p => cases hu : p.user <;> simp [apply, slots, takes, frees, hu] <;> rfl
  | submit p ds n m q => cases hu : p.user <;> simp [apply, slots, takes, frees, hu] <;> rfl
  | reuse p₀ p ds m q =>
    simp only [apply]
    split_ifs <;> cases hu : p.user <;> simp [slots, takes, frees] <;> rfl
  | finish r p p' max =>
    have h : (v.toQueue.finish r p).busySlots = (v.freeCores p).busySlots :=
      Queue.busySlots_notifyErrorlevel ..
    refine h.trans ((v.busySlots_freeCores p).trans ?_)
    simp [slots, takes, frees, sub_eq_add_neg]
  | drop p shelf =>
    cases shelf with
    | none => simp [slots, takes, frees, apply, Queue.dropJob]
    | some x =>
      refine ((v.dropJob p.jobid).busySlots_freeCores p).trans ?_
      simp [slots, takes, frees, Queue.dropJob, sub_eq_add_neg]
  | gone p =>
    refine (Queue.busySlots_notifyErrorlevel ..).trans ?_
    simp [slots, takes, frees, Queue.modJob]
  | goneFinished p =>
    refine (Queue.busySlots_notifyErrorlevel ..).trans ?_
    simp [slots, takes, frees]
  | reconnect p st socket =>
    refine (congrArg (fun c => c.2.1) Queue.counters_modAnyJob).trans ?_
    simp [slots, takes, frees, Queue.counters]
  | _ => simp [slots, takes, frees, apply, Queue.modJob, Queue.uncountQueued, Queue.modUser,
      Queue.served, Queue.dropJob]

/-- The limits after a move. -/
theorem limits_apply : (a.apply v).limits =
    (match a with
      | users _ n => n
      | _ => v.nusers,
     match a with
      | maxSlots n => n
      | _ => v.maxSlots,
     match a with
      | submit _ _ n _ _ => n
      | jobids n => n
      | _ => v.jobids) := by
  cases a with
  | recount =>
    simp only [apply]
    split_ifs <;> rfl
  | pause p => exact v.limits_freeCores p
  | abnormal p => exact v.limits_freeCores p
  | relegate p requeue =>
    simp only [apply]
    split_ifs
    · exact v.limits_freeCores p
    · rfl
  | start p => exact v.limits_start p
  | dispatch uid p q =>
    simp only [apply]
    split_ifs
    · exact (v.uncountQueued (some uid)).limits_start p
    · exact v.limits_start p
  | lock p => exact v.limits_modUser
  | unlock p => exact v.limits_modUser
  | submit p ds n m q => cases hu : p.user <;> simp only [apply, hu] <;> rfl
  | reuse p₀ p ds m q =>
    simp only [apply]
    split_ifs <;> cases p.user <;> rfl
  | finish r p p' max =>
    refine (Queue.limits_notifyErrorlevel ..).trans ?_
    exact v.limits_freeCores p
  | drop p shelf =>
    cases shelf with
    | none => rfl
    | some x => exact (v.dropJob p.jobid).limits_freeCores p
  | gone p => exact Queue.limits_notifyErrorlevel ..
  | goneFinished p => exact Queue.limits_notifyErrorlevel ..
  | reconnect p st socket => exact congrArg (fun c => c.2.2) Queue.counters_modAnyJob
  | _ => rfl

/-! ### The ids -/

theorem jobids_apply (hg : a.Guard v) : v.jobids ≤ (a.apply v).jobids := by
  have h : (a.apply v).jobids = _ := congrArg (fun l => l.2.2) limits_apply
  rw [h]
  cases a with
  | submit p ds n m q => exact hg.2.1
  | jobids n => exact hg
  | _ => exact le_refl _

theorem nusers_le_apply (hg : a.Guard v) : v.nusers ≤ (a.apply v).nusers := by
  have hlim : (a.apply v).nusers = _ := congrArg (fun l => l.1) limits_apply
  rw [hlim]
  cases a with
  | users us n => exact hg.1
  | _ => exact le_refl _

theorem nusers_apply (hl : a.Local) : (a.apply v).nusers = v.nusers := by
  have h : (a.apply v).nusers = _ := congrArg (fun l => l.1) limits_apply
  rw [h]
  cases a with
  | users us n => exact hl.elim
  | _ => rfl

theorem uids_apply (hids : v.Ids) (hg : a.Guard v) : ∀ u < (a.apply v).nusers,
    ∀ u' < (a.apply v).nusers, ((a.apply v).users u).uid = ((a.apply v).users u').uid → u = u' := by
  by_cases hl : a.Local
  · have huid : ∀ u, ((a.apply v).users u).uid = (v.users u).uid := by
      intro u
      rw [users_apply hl hg]
      split_ifs <;> rfl
    simp only [huid, nusers_apply hl]
    exact hids.uids
  · cases a with
    | recount =>
      rw [recount_toQueue]
      exact hids.uids
    | users us n => exact hg.2.1
    | _ => exact absurd trivial hl

/-- **The ids of the active jobs stay distinct and given out.** -/
theorem ids_apply (hids : v.Ids) (hg : a.Guard v) : (a.apply v).Ids := by
  have hlt : ∀ x ∈ v.activeJobs.map Job.jobid, x < v.jobids := by
    simpa using hids.lt
  suffices h : ((a.apply v).activeJobs.map Job.jobid).Nodup ∧
      ∀ x ∈ (a.apply v).activeJobs.map Job.jobid, x < (a.apply v).jobids by
    exact ⟨h.1, fun p hp => h.2 _ (List.mem_map_of_mem hp), uids_apply hids hg⟩
  have hle := jobids_apply hg
  have hperm := ids_perm hids hg
  cases hold : a.old v with
  | some p =>
    cases hnew : a.new v with
    | some p' =>
      simp only [hold, hnew, Option.toList_some, List.map_cons, List.map_nil, List.cons_append,
        List.nil_append, jobid_new hg hold hnew, List.perm_cons] at hperm
      exact ⟨hperm.nodup_iff.2 hids.nodup, fun x hx => (hlt x (hperm.subset hx)).trans_le hle⟩
    | none =>
      simp only [hold, hnew, Option.toList_some, Option.toList_none, List.map_cons, List.map_nil,
        List.cons_append, List.nil_append] at hperm
      exact ⟨(hperm.nodup_iff.2 hids.nodup).of_cons,
        fun x hx => (hlt x (hperm.subset (List.mem_cons_of_mem _ hx))).trans_le hle⟩
  | none =>
    cases hnew : a.new v with
    | none =>
      simp only [hold, hnew, Option.toList_none, List.map_nil, List.nil_append] at hperm
      exact ⟨hperm.nodup_iff.2 hids.nodup, fun x hx => (hlt x (hperm.subset hx)).trans_le hle⟩
    | some p =>
      simp only [hold, hnew, Option.toList_some, Option.toList_none, List.map_cons, List.map_nil,
        List.cons_append, List.nil_append] at hperm
      -- only a submission adds a job
      obtain ⟨ds, n, m, q, rfl⟩ := new_of_old_none hold hnew
      obtain ⟨hfresh, -, hn, -⟩ := hg
      have hnot : p.jobid ∉ v.activeJobs.map Job.jobid := by
        intro hmem
        obtain ⟨x, hx, hxp⟩ := List.mem_map.1 hmem
        exact Keyed.lookup_eq_none.1 hfresh x hx hxp
      have hjobids : ((submit p ds n m q).apply v).jobids = n :=
        congrArg (fun l => l.2.2) limits_apply
      refine ⟨hperm.nodup_iff.2 (List.nodup_cons.2 ⟨hnot, hids.nodup⟩), fun x hx => ?_⟩
      obtain rfl | hx := List.mem_cons.1 (hperm.subset hx)
      · rw [hjobids]
        exact hn
      · exact (hlt x hx).trans_le hle

/-- The id of an active job after a move is an old one or that of a new job. -/
theorem mem_ids_apply {x : ℤ} (hids : v.Ids) (hg : a.Guard v)
    (hx : x ∈ (a.apply v).activeJobs.map Job.jobid) :
    x ∈ v.activeJobs.map Job.jobid ∨ ∃ p ds n m q, a = submit p ds n m q ∧ x = p.jobid := by
  have hmem := (ids_perm hids hg).subset (List.mem_append_right _ hx)
  obtain h | h := List.mem_append.1 hmem
  · obtain ⟨p', hp', rfl⟩ := List.mem_map.1 h
    have hnew := Option.mem_toList.1 hp'
    cases hold : a.old v with
    | none =>
      obtain ⟨ds, n, m, q, rfl⟩ := new_of_old_none hold hnew
      exact .inr ⟨p', ds, n, m, q, rfl, rfl⟩
    | some p =>
      have hperm := ids_perm hids hg
      simp only [hold, hnew, Option.toList_some, List.map_cons, List.map_nil,
        List.cons_append, List.nil_append, jobid_new hg hold hnew, List.perm_cons] at hperm
      exact .inl (hperm.subset hx)
  · exact .inl h

end Act

theorem Moves.ids {ok : Act → View → Prop} {v v' : View} (h : Moves ok v v') (hids : v.Ids) :
    v'.Ids :=
  h.invariant hids fun hids _ hg => Act.ids_apply hids hg

theorem Moves.nusers_le {ok : Act → View → Prop} {v v' : View} (h : Moves ok v v') :
    v.nusers ≤ v'.nusers :=
  h.invariant (I := fun w => v.nusers ≤ w.nusers) (le_refl _) fun hI _ hg =>
    hI.trans (Act.nusers_le_apply hg)

theorem Moves.nusers_eq {ok : Act → View → Prop} {v v' : View} (h : Moves ok v v')
    (hok : ∀ us n w, ¬ok (.users us n) w) : v'.nusers = v.nusers := by
  refine h.invariant (I := fun w => w.nusers = v.nusers) rfl fun {w a} hI ha _ => ?_
  have hlim : (a.apply w).nusers = _ := congrArg (fun l => l.1) Act.limits_apply
  rw [hlim]
  cases a with
  | users us n => exact absurd ha (hok us n w)
  | _ => exact hI

end TaskSpooler
