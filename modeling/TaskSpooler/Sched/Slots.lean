import TaskSpooler.Server.Runs

/-!
# Slots and the jobs that hold them

A job holds its slots while it runs and at no other time: this is `Job.Booked`, and every move
keeps it (`Act.booked_apply`).  Therefore what a move adds to the counters by hand is the change of
the corresponding sum over the running jobs (`Act.change_eq`), with one exception: `s_delete_job`
of a running job.
-/

namespace TaskSpooler

/-- The part of a job that only a new request can change. -/
def Job.fixed (p : Job) : Job :=
  { p with
    state := .queued, wallTime := 0, numAllocated := 0, pid := 0, clientSocket := 0, result := {} }

namespace Act

variable {v : View} {a : Act}

/-! ### Facts about every active job -/

theorem of_old {P : Job → Prop} {p : Job} (hP : PlainFn P) (hg : a.Guard v)
    (h : ∀ p ∈ v.activeJobs, P p) (hold : a.old v = some p) : P p := by
  have hp := h _ (has_old hg hold).mem
  rw [← hP] at hp ⊢
  exact hp

/-- **A fact about every active job is kept by a move that keeps it for its own job.** -/
theorem forall_apply {P : Job → Prop} (hP : PlainFn P) (hids : v.Ids) (hg : a.Guard v)
    (h : ∀ p ∈ v.activeJobs, P p) (hnew : ∀ p, a.new v = some p → P p) :
    ∀ p ∈ (a.apply v).activeJobs, P p := by
  have hplain : ∀ {p x : Job}, x.plain = p.plain → P x → P p := by
    intro p x hxp hx
    rw [← hP, hxp, hP] at hx
    exact hx
  intro p hp
  have hmem : p.plain ∈ (a.apply v).plain := List.mem_map_of_mem hp
  obtain hn | ho := List.mem_append.1 ((perm_apply hids hg).subset (List.mem_append_right _ hmem))
  · obtain ⟨x, hx, hxp⟩ := List.mem_map.1 hn
    exact hplain hxp (hnew x (Option.mem_toList.1 hx))
  · obtain ⟨x, hx, hxp⟩ := List.mem_map.1 ho
    exact hplain hxp (h x hx)

theorem pid_new {p p' : Job} (hg : a.Guard v) (hold : a.old v = some p) (hnew : a.new v = some p')
    (hpid : ∀ p n, a ≠ pid p n) : p'.pid = p.pid := by
  cases a with
  | pid p n => exact absurd rfl (hpid p n)
  | reuse old p ds m q =>
    cases hold
    cases hnew
    exact hg.2.2.2.1.symm
  | relegate p requeue =>
    cases hold
    cases hnew
    split_ifs <;> rfl
  | reconnect p st socket =>
    simp only [old, new] at hold hnew
    split_ifs at hold hnew
    cases hold
    cases hnew
    rfl
  | _ => first | (cases hold; done) | (cases hnew; done) | (cases hold; cases hnew; rfl)

/-- What is known of the ids and pids of the started jobs is kept, unless a pid is recorded. -/
theorem pids_apply {P : ℤ → ℤ → Prop} (hids : v.Ids) (hg : a.Guard v) (hpid : ∀ p n, a ≠ pid p n)
    (h : ∀ p ∈ v.activeJobs, p.pid ≠ 0 → P p.jobid p.pid) :
    ∀ p ∈ (a.apply v).activeJobs, p.pid ≠ 0 → P p.jobid p.pid := by
  refine forall_apply (fun _ => rfl) hids hg h fun p' hnew => ?_
  cases hold : a.old v with
  | none =>
    obtain ⟨ds, n, m, q, rfl⟩ := new_of_old_none hold hnew
    obtain ⟨-, -, -, -, -, hzero, -⟩ := hg
    exact fun hne => absurd hzero hne
  | some p =>
    rw [jobid_new hg hold hnew, pid_new hg hold hnew hpid]
    exact h p.strip (has_old hg hold).mem

/-- What no move changes in a job, apart from a new request for it. -/
theorem fixed_new {p p' : Job} (hold : a.old v = some p) (hnew : a.new v = some p')
    (hre : ∀ old p ds m q, a ≠ reuse old p ds m q) : p'.fixed = p.fixed := by
  cases a with
  | reuse old p ds m q => exact absurd rfl (hre old p ds m q)
  | relegate p requeue =>
    cases hold
    cases hnew
    split_ifs <;> rfl
  | reconnect p st socket =>
    simp only [old, new] at hold hnew
    split_ifs at hold hnew
    cases hold
    cases hnew
    rfl
  | _ => first | (cases hold; done) | (cases hnew; done) | (cases hold; cases hnew; rfl)

/-- **A fact about the fixed part of every job** is kept, if it holds of new jobs. -/
theorem forall_fixed_apply {P : Job → Prop} (hP : ∀ p, P p.plain.fixed = P p) (hids : v.Ids)
    (hg : a.Guard v) (h : ∀ p ∈ v.activeJobs, P p)
    (hsubmit : ∀ p ds n m q, a = submit p ds n m q → P p)
    (hreuse : ∀ old p ds m q, a = reuse old p ds m q → P p) :
    ∀ p ∈ (a.apply v).activeJobs, P p := by
  have hplain : PlainFn P := fun p => by rw [← hP, ← hP p]; rfl
  refine forall_apply hplain hids hg h fun p' hnew => ?_
  by_cases hre : ∃ old p ds m q, a = reuse old p ds m q
  · obtain ⟨old, p, ds, m, q, rfl⟩ := hre
    cases hnew
    have := hreuse old p ds m q rfl
    rw [← hP] at this ⊢
    exact this
  · cases hold : a.old v with
    | none =>
      obtain ⟨ds, n, m, q, rfl⟩ := new_of_old_none hold hnew
      exact hsubmit p' ds n m q rfl
    | some p =>
      have hfix : p'.plain.fixed = p.plain.fixed := congrArg Job.plain
        (fixed_new hold hnew fun old p ds m q h => hre ⟨old, p, ds, m, q, h⟩)
      have := of_old hplain hg h hold
      rw [← hP, ← hfix, hP] at this
      exact this

theorem ofUsage.ne_submit {e : Env} {late : Job → Prop} (h : a.ofUsage e late) (p : Job)
    (ds : List ℤ) (n : ℤ) (m : NewJob) (q : Queue) : a ≠ submit p ds n m q := by
  rintro rfl
  obtain h | h | h := h
  · exact h
  · cases h
  · exact h.1

theorem ofUsage.ne_reuse {e : Env} {late : Job → Prop} (h : a.ofUsage e late) (p₀ p : Job)
    (ds : List ℤ) (m : NewJob) (q : Queue) : a ≠ reuse p₀ p ds m q := by
  rintro rfl
  obtain h | h | h := h
  · exact h
  · cases h
  · exact h.1

/-- A recount makes no new jobs. -/
theorem ofUsage.forall_fixed_apply {e : Env} {late : Job → Prop} {P : Job → Prop}
    (hP : ∀ p, P p.plain.fixed = P p) (hids : v.Ids) (ha : a.ofUsage e late) (hg : a.Guard v)
    (h : ∀ p ∈ v.activeJobs, P p) : ∀ p ∈ (a.apply v).activeJobs, P p :=
  Act.forall_fixed_apply hP hids hg h (fun p ds n m q heq => absurd heq (ha.ne_submit p ds n m q))
    fun p₀ p ds m q heq => absurd heq (ha.ne_reuse p₀ p ds m q)

end Act

/-! ### Holding slots -/

/-- The job belongs to one of `n` users, and holds its slots exactly while it runs. -/
structure Job.Booked (n : ℕ) (p : Job) : Prop where
  owner : ∃ u < n, p.user = some u
  state : p.state ≠ .wait ∧ p.state ≠ .delink
  allocated : p.numAllocated = if p.state = .running then p.numSlots else 0

/-- Every active job holds slots as it should. -/
def View.Booked (v : View) : Prop := ∀ p ∈ v.activeJobs, p.Booked v.nusers

theorem plainFn_booked (n : ℕ) : PlainFn (Job.Booked n) := fun _ =>
  propext ⟨fun h => ⟨h.owner, h.state, h.allocated⟩, fun h => ⟨h.owner, h.state, h.allocated⟩⟩

namespace Job.Booked

variable {n : ℕ} {p : Job}

theorem mono {n' : ℕ} (h : p.Booked n) (hn : n ≤ n') : p.Booked n' := by
  obtain ⟨u, hu, hp⟩ := h.owner
  exact ⟨⟨u, hu.trans_le hn, hp⟩, h.state, h.allocated⟩

theorem allocated_of_ne (h : p.Booked n) (hr : p.state ≠ .running) : p.numAllocated = 0 := by
  rw [h.allocated, if_neg hr]

end Job.Booked

namespace Act

variable {v : View} {a : Act}

theorem booked_new {p : Job} (hb : v.Booked) (hg : a.Guard v) (hnew : a.new v = some p) :
    p.Booked v.nusers := by
  have hold : ∀ {p}, a.old v = some p → p.Booked v.nusers :=
    fun h => of_old (plainFn_booked _) hg hb h
  cases a with
  | pause p =>
    cases hnew
    exact ⟨(hold rfl).owner, by simp [Job.setState], by simp [Job.setState, Job.freed]⟩
  | relegate p requeue =>
    have hp := hold rfl
    cases hnew
    split_ifs with hr
    · exact ⟨hp.owner, by simp [Job.relegated], by simp [Job.relegated, Job.freed]⟩
    · exact ⟨hp.owner, by simp [Job.relegated], by simp [Job.relegated, hp.allocated_of_ne hr]⟩
  | abnormal p =>
    cases hnew
    exact ⟨(hold rfl).owner, by simp [Job.setState], by simp [Job.setState, Job.freed]⟩
  | wall p w =>
    have hp := hold rfl
    cases hnew
    exact ⟨hp.owner, hp.state, hp.allocated⟩
  | start p =>
    cases hnew
    exact ⟨(hold rfl).owner, by simp [Job.started], by simp [Job.started]⟩
  | dispatch uid p q =>
    cases hnew
    exact ⟨(hold rfl).owner, by simp [Job.started], by simp [Job.started]⟩
  | asleep uid p q =>
    have hp := hold rfl
    have hst : p.state = .queued := hg.2.2.2.2.2.2.1
    cases hnew
    exact ⟨hp.owner, by simp [Job.setState], by
      simp [Job.setState, hp.allocated_of_ne (by simp [hst])]⟩
  | wake p =>
    have hp := hold rfl
    cases hnew
    exact ⟨hp.owner, by simp [Job.setState], by
      simp [Job.setState, hp.allocated_of_ne (by simp [hg.2])]⟩
  | lock p =>
    have hp := hold rfl
    cases hnew
    exact ⟨hp.owner, by simp [Job.setState], by
      simp [Job.setState, hp.allocated_of_ne (by simp [hg.2])]⟩
  | unlock p =>
    have hp := hold rfl
    cases hnew
    exact ⟨hp.owner, by simp [Job.setState], by
      simp [Job.setState, hp.allocated_of_ne (by simp [hg.2])]⟩
  | submit p ds n m q =>
    obtain ⟨-, -, -, hst, halloc, -, -, -, ⟨u, hu, howner, -⟩, -⟩ := hg
    cases hnew
    refine ⟨⟨u, hu, howner⟩, ?_, ?_⟩
    · obtain hst | hst := hst <;> simp [hst]
    · obtain hst | hst := hst <;> simp [hst, halloc]
  | reuse p₀ p ds m q =>
    obtain ⟨-, -, hst, -, halloc, -, ⟨u, hu, howner, -⟩, hstate, -⟩ := hg
    have hp := hold rfl
    cases hnew
    -- a job that waits for its client again is not in this queue
    have hlocked := locked_of_reuse hst hstate hp.state
    have hz := hp.allocated_of_ne (by simp [hst, hlocked])
    exact ⟨⟨u, hu, howner⟩, by simp [Job.setState, hlocked], by
      simp [Job.setState, hlocked, ← halloc, hz]⟩
  | gone p =>
    have hp := hold rfl
    cases hnew
    exact ⟨hp.owner, by simp [Job.gone], by simp [Job.gone, hp.allocated_of_ne hg.2.1]⟩
  | pid p n =>
    have hp := hold rfl
    cases hnew
    exact ⟨hp.owner, hp.state, hp.allocated⟩
  | reconnect p st socket =>
    obtain ⟨hold', hsame⟩ := new_reconnect hg hnew
    have hp := hold hold'
    rw [hsame hp.state.2]
    exact ⟨hp.owner, hp.state, hp.allocated⟩
  | _ => cases hnew

/-- **A move leaves the slots with the running jobs.** -/
theorem booked_apply (hids : v.Ids) (hb : v.Booked) (hg : a.Guard v) : (a.apply v).Booked := by
  refine forall_apply (plainFn_booked _) hids hg (fun p hp => ?_) fun p hp => ?_
  · exact (hb p hp).mono (nusers_le_apply hg)
  · exact (booked_new hb hg hp).mono (nusers_le_apply hg)

end Act

/-! ### Sums over the running jobs -/

/-- What a job adds to a sum over the running jobs of some users: a function of its slots. -/
def Job.runs (c : ℤ → ℤ) (sel : Option ℕ → Bool) (p : Job) : ℤ :=
  if p.state = .running ∧ sel p.user then c p.numSlots else 0

/-- A sum over the running jobs of some users. -/
def View.runs (v : View) (c : ℤ → ℤ) (sel : Option ℕ → Bool) : ℤ :=
  (v.activeJobs.map (Job.runs c sel)).sum

/-- All users. -/
def anyone (_ : Option ℕ) : Bool := true

/-- One user. -/
def only (u : ℕ) (o : Option ℕ) : Bool := o = some u

namespace Job

variable {c : ℤ → ℤ} {sel : Option ℕ → Bool} {p : Job}

theorem plainFn_runs : PlainFn (runs c sel) := fun _ => rfl

theorem runs_of_ne (h : p.state ≠ .running) : p.runs c sel = 0 := by
  rw [runs, if_neg fun hp => h hp.1]

theorem runs_started : p.started.runs c sel = if sel p.user then c p.numSlots else 0 := by
  simp [runs, started]

theorem runs_congr {p' : Job} (hstate : p'.state = p.state) (huser : p'.user = p.user)
    (hslots : p'.numSlots = p.numSlots) : p'.runs c sel = p.runs c sel := by
  rw [runs, runs, hstate, huser, hslots]

end Job

namespace Queue

theorem sum_filter_eq {l : List Job} {P : Job → Bool} {f : Job → ℤ} :
    ((l.filter P).map f).sum = (l.map fun p => if P p then f p else 0).sum := by
  induction l with
  | nil => rfl
  | cons p l ih =>
    by_cases hp : P p
    · simp [hp, ih]
    · simp [hp, ih]

theorem runningSlots_eq (l : List Job) :
    runningSlots l = (l.map (Job.runs id anyone)).sum := by
  rw [runningSlots, sum_filter_eq]
  congr 2
  funext p
  simp [Job.runs, anyone]

theorem runningSlots_own (l : List Job) (u : ℕ) :
    runningSlots (l.filter fun p => p.user = some u) = (l.map (Job.runs id (only u))).sum := by
  rw [runningSlots, List.filter_filter, sum_filter_eq]
  congr 2
  funext p
  simp [Job.runs, only]

theorem runningJobs_own (l : List Job) (u : ℕ) :
    (((l.filter fun p => p.user = some u).filter fun p => p.state = .running).length : ℤ) =
      (l.map (Job.runs (fun _ => 1) (only u))).sum := by
  have hlen : ∀ l : List Job, (l.length : ℤ) = (l.map fun _ => (1 : ℤ)).sum := by
    intro l
    simp
  rw [hlen, List.filter_filter, sum_filter_eq]
  congr 2
  funext p
  simp [Job.runs, only]

end Queue

namespace Act

variable {v : View} {a : Act} {c : ℤ → ℤ} {sel : Option ℕ → Bool}

/-- What a move adds to a counter of the running jobs. -/
def change (c : ℤ → ℤ) (a : Act) : ℤ :=
  (match a.takes with
    | some p => c p.numSlots
    | none => 0) -
  match a.frees with
    | some p => if p.numAllocated = 0 then 0 else c p.numSlots
    | none => 0

theorem slots_eq_change : a.slots = a.change id := rfl

theorem jobs_eq_change : a.jobs = a.change fun _ => 1 := rfl

/-- What `free_cores` counts off is what the job contributes. -/
theorem freed_eq_runs (sel : Option ℕ → Bool) {n : ℕ} {p : Job} (hb : p.Booked n) (hc : p.numSlots = 0 → c 0 = 0) :
    (if sel p.user then (if p.numAllocated = 0 then 0 else c p.numSlots) else 0) =
      p.runs c sel := by
  by_cases hr : p.state = .running
  · have hb' := hb.allocated
    rw [if_pos hr] at hb'
    rw [Job.runs, hb']
    by_cases hz : p.numSlots = 0
    · simp [hz, hc hz]
    · simp [hz, hr]
  · rw [Job.runs_of_ne hr, hb.allocated_of_ne hr]
    simp

/-- **The counters follow the running jobs**, unless a running job is deleted. -/
theorem change_eq (hb : v.Booked) (hc : ∀ p ∈ v.activeJobs, p.numSlots = 0 → c 0 = 0)
    (hg : a.Guard v) (hdel : ∀ p, a = delete p → p.state ≠ .running) :
    (a.new v).elim 0 (Job.runs c sel) - (a.old v).elim 0 (Job.runs c sel) =
      if sel a.owner then a.change c else 0 := by
  have hold : ∀ {p}, a.old v = some p → p.Booked v.nusers :=
    fun h => of_old (plainFn_booked _) hg hb h
  have hzero : ∀ {p}, a.old v = some p → p.numSlots = 0 → c 0 = 0 :=
    fun h => of_old (P := fun p => p.numSlots = 0 → c 0 = 0) (fun _ => rfl) hg hc h
  cases a with
  | pause p =>
    have hfree := freed_eq_runs (c := c) sel (hold rfl) (hzero rfl)
    have hnew : (p.freed.setState .pause).runs c sel = 0 := Job.runs_of_ne (by simp [Job.setState])
    simp only [new, old, owner, change, takes, frees, Option.elim_some, hnew, ← hfree]
    by_cases hs : sel p.user <;> simp [hs]
  | relegate p requeue =>
    have hfree := freed_eq_runs (c := c) sel (hold rfl) (hzero rfl)
    by_cases hr : p.state = .running
    · have hnew : p.freed.relegated.runs c sel = 0 := Job.runs_of_ne (by simp [Job.relegated])
      simp only [new, old, owner, change, takes, frees, hr, if_true, Option.elim_some, hnew,
        ← hfree]
      by_cases hs : sel p.user <;> simp [hs]
    · have hnew : p.relegated.runs c sel = 0 := Job.runs_of_ne (by simp [Job.relegated])
      simp [new, old, change, takes, frees, hr, hnew, Job.runs_of_ne hr]
  | abnormal p =>
    have hfree := freed_eq_runs (c := c) sel (hold rfl) (hzero rfl)
    have hnew : (p.freed.setState .abnormal).runs c sel = 0 :=
      Job.runs_of_ne (by simp [Job.setState])
    simp only [new, old, owner, change, takes, frees, Option.elim_some, hnew, ← hfree]
    by_cases hs : sel p.user <;> simp [hs]
  | finish r p p' max =>
    have hfree := freed_eq_runs (c := c) sel (hold rfl) (hzero rfl)
    simp only [new, old, owner, change, takes, frees, Option.elim_some, Option.elim_none, ← hfree]
    by_cases hs : sel p.user <;> simp [hs]
  | start p =>
    have hst : p.state ≠ .running := by simp [hg.2.1]
    simp [new, old, owner, change, takes, frees, Job.runs_started, Job.runs_of_ne hst]
  | dispatch uid p q =>
    have hst : p.state ≠ .running := by
      obtain h | h := hg.2.2.2.2.2.2.2.2
      · simp [h.1]
      · simp [h.1]
    have hu : p.user = some uid := hg.2.2.2.1
    simp [new, old, owner, change, takes, frees, Job.runs_started, Job.runs_of_ne hst, hu]
  | asleep uid p q =>
    have hst : p.state = .queued := hg.2.2.2.2.2.2.1
    have hold' : p.runs c sel = 0 := Job.runs_of_ne (by simp [hst])
    have hnew : (p.setState .pause).runs c sel = 0 := Job.runs_of_ne (by simp [Job.setState])
    simp [new, old, change, takes, frees, hold', hnew]
  | wake p =>
    have hold' : p.runs c sel = 0 := Job.runs_of_ne (by simp [hg.2])
    have hnew : (p.setState .queued).runs c sel = 0 := Job.runs_of_ne (by simp [Job.setState])
    simp [new, old, change, takes, frees, hold', hnew]
  | lock p =>
    have hold' : p.runs c sel = 0 := Job.runs_of_ne (by simp [hg.2])
    have hnew : (p.setState .locked).runs c sel = 0 := Job.runs_of_ne (by simp [Job.setState])
    simp [new, old, change, takes, frees, hold', hnew]
  | unlock p =>
    have hold' : p.runs c sel = 0 := Job.runs_of_ne (by simp [hg.2])
    have hnew : (p.setState .queued).runs c sel = 0 := Job.runs_of_ne (by simp [Job.setState])
    simp [new, old, change, takes, frees, hold', hnew]
  | submit p ds n m q =>
    have hnew : p.runs c sel = 0 := by
      refine Job.runs_of_ne ?_
      obtain hst | hst := hg.2.2.2.1 <;> simp [hst]
    simp [new, old, change, takes, frees, hnew]
  | reuse p₀ p ds m q =>
    have hstate := hg.2.2.2.2.2.2.2
    have hold' : p₀.runs c sel = 0 := by
      refine Job.runs_of_ne ?_
      rw [hg.2.2.1]
      obtain hst | hst | hst := hstate <;> simp [hst]
    have hnew : (p.setState (if p.state = .wait then .queued else p.state)).runs c sel = 0 := by
      refine Job.runs_of_ne ?_
      obtain hst | hst | hst := hstate <;> simp [hst, Job.setState]
    simp [new, old, change, takes, frees, hold', hnew]
  | gone p =>
    have hold' : p.runs c sel = 0 := Job.runs_of_ne hg.2.1
    have hnew : p.gone.runs c sel = 0 := Job.runs_of_ne (by simp [Job.gone])
    simp [new, old, change, takes, frees, hold', hnew]
  | drop p shelf =>
    -- a job that does not run holds no slots, so none are given back
    have hz := (hold rfl).allocated_of_ne hg.2.1
    cases shelf <;> simp [new, old, change, takes, frees, Job.runs_of_ne hg.2.1, hz]
  | delete p =>
    simp [new, old, change, takes, frees, Job.runs_of_ne (hdel p rfl)]
  | wall p w =>
    have hnew : (p.setWallTime w).runs c sel = p.runs c sel := Job.runs_congr rfl rfl rfl
    simp [new, old, change, takes, frees, hnew]
  | pid p n =>
    have hnew : (p.setPid n).runs c sel = p.runs c sel := Job.runs_congr rfl rfl rfl
    simp [new, old, change, takes, frees, hnew]
  | reconnect p st socket =>
    have hst := hg.2.2
    by_cases hsome : (v.findjob p.jobid).isSome
    · have hp : p.Booked v.nusers := hold (by simp [old, hsome])
      rw [if_neg hp.state.2] at hst
      have hnew : (p.reconnected st socket).runs c sel = p.runs c sel := Job.runs_congr hst rfl rfl
      simp [new, old, change, takes, frees, hsome, hnew]
    · simp [new, old, change, takes, frees, hsome]
  | _ => simp [new, old, change, takes, frees]

/-- A sum over the running jobs after a move. -/
theorem runs_apply (hids : v.Ids) (hb : v.Booked)
    (hc : ∀ p ∈ v.activeJobs, p.numSlots = 0 → c 0 = 0) (hg : a.Guard v)
    (hdel : ∀ p, a = delete p → p.state ≠ .running) :
    (a.apply v).runs c sel = v.runs c sel + if sel a.owner then a.change c else 0 := by
  rw [View.runs, View.runs, sum_apply Job.plainFn_runs hids hg, change_eq hb hc hg hdel]

end Act

end TaskSpooler
