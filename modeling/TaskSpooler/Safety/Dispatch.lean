import TaskSpooler.Sched.Progress
import TaskSpooler.Safety.Limits
import TaskSpooler.Server.Roster

/-!
# Admission and dispatch

`s_newjob` compares the slots of a request with `user->max_slots` only if that is positive.
`next_run_job` takes it as an upper bound, whatever its sign.

`user->queue` never is smaller than the number of queued jobs of the user (`View.Queued`), so the
scheduler does not skip a user who has one.  Hence a job that is alone in the queue and ready is
started exactly if it fits (`dispatches_iff`).  It fits in every state of a run in which users
without a positive limit ask for no more than its absolute value and the slots are counted right
(`admitted_job_dispatched`).  Root has the limit zero, so his jobs are accepted and never start
(`root_job_undispatchable`).
-/

namespace TaskSpooler

/-! ### Counting jobs -/

/-- `1` for a job of the user that does not run. -/
def Job.idles (u : ℕ) (p : Job) : ℤ := if p.user = some u ∧ p.state ≠ .running then 1 else 0

theorem Job.idles_of_user {u : ℕ} {p : Job} (hu : p.user ≠ some u) : p.idles u = 0 := by
  simp [idles, hu]

namespace Act

variable {v : View} {a : Act} {w : ℕ → Job → ℤ}

/-- The move changes `user->queue` by at least as much as the number `w` of the jobs of the user. -/
def Counts (w : ℕ → Job → ℤ) (v : View) (a : Act) : Prop :=
  ∀ u, (a.new v).elim 0 (w u) - (a.old v).elim 0 (w u) ≤ if a.owner = some u then a.queue else 0

/-- After a recount, `user->queue` is the number of the jobs of the user that do not run. -/
theorem sum_recount (hw : ∀ u p, w u p ≤ p.idles u) (u : ℕ) :
    ((apply v recount).activeJobs.map (w u)).sum ≤ ((apply v recount).users u).queue := by
  have hact : (apply v recount).activeJobs = v.activeJobs := by
    rw [recount_toQueue]
    rfl
  have hqueue : ((apply v recount).users u).queue =
      ((v.activeJobs.filter fun p => p.user = some u).filter fun p => p.state ≠ .running).length := by
    rw [recount_toQueue]
    rfl
  rw [hact, hqueue]
  induction v.activeJobs with
  | nil => simp
  | cons p l ih =>
    have hp := hw u p
    rw [List.map_cons, List.sum_cons]
    rw [Job.idles] at hp
    by_cases hu : p.user = some u
    · by_cases hst : p.state = .running
      · simp only [hu, hst, ne_eq, not_true_eq_false, and_false, if_false] at hp
        simp only [List.filter_cons, hu, decide_true, if_true, hst, ne_eq, not_true_eq_false,
          decide_false, Bool.false_eq_true, if_false] at ih ⊢
        omega
      · simp only [hu, hst, ne_eq, not_false_eq_true, and_self, if_true] at hp
        simp only [List.filter_cons, hu, decide_true, if_true, hst, ne_eq, not_false_eq_true,
          List.length_cons] at ih ⊢
        push_cast
        omega
    · simp only [hu, false_and, if_false] at hp
      simp only [List.filter_cons, hu, decide_false, Bool.false_eq_true, if_false] at ih ⊢
      omega

theorem counted_local {u : ℕ} (hplain : PlainFn (w u)) (hids : v.Ids) (hg : a.Guard v) (hl : a.Local)
    (hchange : (a.new v).elim 0 (w u) - (a.old v).elim 0 (w u) ≤ if a.owner = some u then a.queue else 0)
    (h : (v.activeJobs.map (w u)).sum ≤ (v.users u).queue) :
    ((a.apply v).activeJobs.map (w u)).sum ≤ ((a.apply v).users u).queue := by
  have hsum := sum_apply (w := w u) hplain hids hg
  rw [users_apply hl hg, hsum]
  split_ifs at hchange ⊢ with ho
  · simp only [User.bump]
    omega
  · omega

/-- **What `user->queue` counts stays counted.** -/
theorem counted_apply (hplain : ∀ u, PlainFn (w u)) (hw : ∀ u p, w u p ≤ p.idles u) (hids : v.Ids)
    (howner : ∀ p ∈ v.activeJobs, ∃ u < v.nusers, p.user = some u) (hg : a.Guard v)
    (hcounts : a.Counts w v) (h : ∀ u < v.nusers, (v.activeJobs.map (w u)).sum ≤ (v.users u).queue) :
    ∀ u < (a.apply v).nusers, ((a.apply v).activeJobs.map (w u)).sum ≤ ((a.apply v).users u).queue := by
  intro u hu
  by_cases hl : a.Local
  · rw [nusers_apply hl] at hu
    exact counted_local (hplain u) hids hg hl (hcounts u) (h u hu)
  · cases a with
    | recount => exact sum_recount hw u
    | users us n =>
      obtain ⟨-, -, hold, hnew⟩ := hg
      show (v.activeJobs.map (w u)).sum ≤ (us u).queue
      by_cases hu' : u < v.nusers
      · rw [(hold u hu').2.2.1]
        exact h u hu'
      · -- nobody has a job for a user who is new
        rw [(hnew u hu (by omega)).2.2]
        have hzero : ∀ p ∈ v.activeJobs, w u p ≤ 0 := fun p hp => by
          obtain ⟨u', hlt, hpu⟩ := howner p hp
          have hne : p.user ≠ some u := by
            rw [hpu, ne_eq, Option.some.injEq]
            omega
          exact (hw u p).trans (Job.idles_of_user hne).le
        refine (List.sum_le_sum hzero).trans ?_
        simp
    | _ => exact absurd trivial hl

end Act

/-! ### The jobs that wait -/

/-- `1` for a job of the user that is in the queue or waits for a place in it. -/
def Job.waits (u : ℕ) (p : Job) : ℤ :=
  if p.user = some u ∧ (p.state = .queued ∨ p.state = .holdingClient) then 1 else 0

theorem Job.waits_nonneg (u : ℕ) (p : Job) : 0 ≤ p.waits u := by
  unfold waits
  split_ifs <;> omega

theorem Job.waits_le_one (u : ℕ) (p : Job) : p.waits u ≤ 1 := by
  unfold waits
  split_ifs <;> omega

theorem Job.waits_of_user {u : ℕ} {p : Job} (hu : p.user ≠ some u) : p.waits u = 0 := by
  simp [waits, hu]

theorem Job.waits_of_ne {u : ℕ} {p : Job} (hq : p.state ≠ .queued) (hh : p.state ≠ .holdingClient) :
    p.waits u = 0 := by
  simp [waits, hq, hh]

theorem Job.waits_queued {u : ℕ} {p : Job} (hu : p.user = some u) (hq : p.state = .queued) :
    p.waits u = 1 := by
  simp [waits, hu, hq]

/-- The jobs of the user that wait. -/
def View.waiting (v : View) (u : ℕ) : ℤ := (v.activeJobs.map (Job.waits u)).sum

/-- Every job has an owner, and `user->queue` counts at least his jobs that wait. -/
structure View.Queued (v : View) : Prop where
  owner : ∀ p ∈ v.activeJobs, ∃ u < v.nusers, p.user = some u
  queue : ∀ u < v.nusers, v.waiting u ≤ (v.users u).queue

namespace Act

variable {v : View} {a : Act}

theorem owner_apply (hids : v.Ids) (hg : a.Guard v)
    (h : ∀ p ∈ v.activeJobs, ∃ u < v.nusers, p.user = some u) :
    ∀ p ∈ (a.apply v).activeJobs, ∃ u < (a.apply v).nusers, p.user = some u := by
  have hn := nusers_le_apply hg
  refine forall_fixed_apply (P := fun p => ∃ u < (a.apply v).nusers, p.user = some u)
    (fun _ => rfl) hids hg (fun p hp => ?_) ?_ ?_
  · obtain ⟨u, hu, hpu⟩ := h p hp
    exact ⟨u, by omega, hpu⟩
  · rintro p ds n m q rfl
    obtain ⟨-, -, -, -, -, -, -, -, ⟨u, hu, hpu, -⟩, -⟩ := hg
    exact ⟨u, by omega, hpu⟩
  · rintro old p ds m q rfl
    obtain ⟨-, -, -, -, -, -, ⟨u, hu, hpu, -⟩, -⟩ := hg
    exact ⟨u, by omega, hpu⟩

/-- A move that makes a job wait counts it. -/
theorem waits_change (hg : a.Guard v) : a.Counts Job.waits v := by
  intro u
  -- after most moves the job does not wait, and the counter stays
  have hz : ∀ (p : Job) (o : Option ℕ), 0 - p.waits u ≤ if o = some u then 0 else 0 := by
    intro p o
    have := p.waits_nonneg u
    split_ifs <;> omega
  cases a with
  | pause p =>
    have hnew : (p.freed.setState .pause).waits u = 0 :=
      Job.waits_of_ne (by simp [Job.setState]) (by simp [Job.setState])
    simp only [new, old, Option.elim_some, hnew, queue]
    exact hz p _
  | relegate p requeue =>
    have hnew : (if p.state = .running then p.freed.relegated else p.relegated).waits u = 0 := by
      split_ifs
      · exact Job.waits_of_ne (by simp [Job.relegated]) (by simp [Job.relegated])
      · exact Job.waits_of_ne (by simp [Job.relegated]) (by simp [Job.relegated])
    simp only [new, old, Option.elim_some, hnew, queue]
    exact hz p _
  | abnormal p =>
    have hnew : (p.freed.setState .abnormal).waits u = 0 :=
      Job.waits_of_ne (by simp [Job.setState]) (by simp [Job.setState])
    simp only [new, old, Option.elim_some, hnew, queue]
    exact hz p _
  | start p =>
    have hnew : p.started.waits u = 0 :=
      Job.waits_of_ne (by simp [Job.started]) (by simp [Job.started])
    simp only [new, old, Option.elim_some, hnew, queue]
    exact hz p _
  | gone p =>
    have hnew : p.gone.waits u = 0 := Job.waits_of_ne (by simp [Job.gone]) (by simp [Job.gone])
    simp only [new, old, Option.elim_some, hnew, queue]
    exact hz p _
  | finish r p p' max | drop p shelf | delete p =>
    simp only [new, old, Option.elim_some, Option.elim_none, queue]
    exact hz p _
  | wall p w | pid p n => simp [new, old, owner, Job.waits, Job.setWallTime, Job.setPid]
  | wake p => simp [new, old, owner, Job.waits, Job.setState, hg.2]
  | dispatch uid p q =>
    obtain ⟨-, -, -, huser, -, -, -, -, ⟨hst, -⟩ | ⟨hst, -⟩⟩ := hg
    · by_cases hu : uid = u
      · simp [new, old, owner, queue, Job.waits, Job.started, hst, huser, hu]
      · simp [new, old, owner, Job.waits, Job.started, hst, huser, hu]
    · simp [new, old, owner, queue, Job.waits, Job.started, hst]
  | asleep uid p q =>
    obtain ⟨-, -, -, huser, -, -, hst, -⟩ := hg
    by_cases hu : uid = u
    · simp [new, old, owner, queue, Job.waits, Job.setState, hst, huser, hu]
    · simp [new, old, owner, Job.waits, Job.setState, hst, huser, hu]
  | lock p =>
    by_cases hu : p.user = some u
    · simp [new, old, owner, queue, Job.waits, Job.setState, hg.2, hu]
    · simp [new, old, owner, Job.waits, Job.setState, hg.2, hu]
  | unlock p =>
    by_cases hu : p.user = some u
    · simp [new, old, owner, queue, Job.waits, Job.setState, hg.2, hu]
    · simp [new, old, owner, Job.waits, Job.setState, hg.2, hu]
  | submit p ds n m q =>
    by_cases hu : (submit p ds n m q).owner = some u
    · have := p.waits_le_one u
      rw [if_pos hu]
      simp only [new, old, queue, Option.elim_some, Option.elim_none]
      omega
    · rw [if_neg hu]
      simp only [new, old, Option.elim_some, Option.elim_none, Job.waits_of_user hu]
      omega
  | reuse old p ds m q =>
    have hnn := old.waits_nonneg u
    set p' := p.setState (if p.state = .wait then .queued else p.state) with hp'
    by_cases hu : (reuse old p ds m q).owner = some u
    · have hone := p'.waits_le_one u
      rw [if_pos hu]
      simp only [new, Act.old, queue, Option.elim_some, ← hp']
      -- a locked job stays locked, and is not counted again
      by_cases hlocked : p.state = .locked
      · have hzero : p'.waits u = 0 :=
          Job.waits_of_ne (by simp [hp', Job.setState, hlocked]) (by simp [hp', Job.setState, hlocked])
        rw [if_pos hlocked]
        omega
      · rw [if_neg hlocked]
        omega
    · have hzero : p'.waits u = 0 := Job.waits_of_user hu
      rw [if_neg hu]
      simp only [new, Act.old, Option.elim_some, ← hp']
      omega
  | reconnect p st socket =>
    obtain ⟨-, -, rfl⟩ := hg
    simp only [new, old, owner, queue]
    by_cases hf : (v.findjob p.jobid).isSome
    · by_cases hd : p.state = .delink
      · simp [hf, Job.waits, Job.reconnected, hd]
      · simp [hf, Job.waits, Job.reconnected, hd]
    · simp [hf]
  | _ => simp [new, old, owner]

end Act

theorem Job.waits_le_idles (u : ℕ) (p : Job) : p.waits u ≤ p.idles u := by
  rw [waits, idles]
  split_ifs with hw hi
  · exact le_rfl
  · obtain ⟨hu, hq | hh⟩ := hw
    · exact absurd ⟨hu, by simp [hq]⟩ hi
    · exact absurd ⟨hu, by simp [hh]⟩ hi
  · exact zero_le_one
  · exact le_rfl

/-- **Every move keeps the count of the jobs that wait.** -/
theorem View.Queued.apply {v : View} {a : Act} (hids : v.Ids) (h : v.Queued) (hg : a.Guard v) :
    (a.apply v).Queued :=
  ⟨Act.owner_apply hids hg h.owner, Act.counted_apply (fun _ _ => rfl) Job.waits_le_idles hids h.owner
    hg (Act.waits_change hg) h.queue⟩

theorem View.queued_recount {v : View} (hg : Act.recount.Guard v)
    (h : ∀ p ∈ v.activeJobs, ∀ u, p.user = some u → u < v.nusers) :
    (Act.recount.apply v).Queued := by
  refine ⟨?_, fun u _ => Act.sum_recount Job.waits_le_idles u⟩
  rw [Act.recount_toQueue]
  intro p hp
  obtain ⟨u, hu⟩ := Option.ne_none_iff_exists'.1 (hg p hp)
  exact ⟨u, h p hp u hu, hu⟩

/-! ### A job that is alone -/

namespace Spool

variable {e : Env} {s s' : Spool} {p : Job} {u : ℕ}

/-- `next_run_job` returns and has started the job in the queue as it is. -/
def Dispatches (e : Env) (s : Spool) (p : Job) : Prop :=
  ∃ s', s.nextRunJob e = .ok s' ∧ (.dispatch p s.toQueue :: s.events) <:+ s'.events

/-- The job is the only one and belongs to the user, who is not suspended.  It asks for a slot and
for no more than there are, and is in the queue with its client connected, its time come and its
dependencies over. -/
structure Alone (e : Env) (s : Spool) (p : Job) (u : ℕ) : Prop where
  activeJobs : s.activeJobs = [p]
  user : p.user = some u
  resumed : 0 ≤ (s.users u).maxSlots
  slots : 1 ≤ p.numSlots
  maxSlots : p.numSlots ≤ s.maxSlots
  queued : p.state = .queued
  client : 0 < p.clientSocket
  time : ¬(0 < p.scheduleTime ∧ e.now < p.scheduleTime)
  ready : s.depsReady p = true

instance : Decidable (s.Alone e p u) :=
  decidable_of_iff (s.activeJobs = [p] ∧ p.user = some u ∧ 0 ≤ (s.users u).maxSlots ∧
      1 ≤ p.numSlots ∧ p.numSlots ≤ s.maxSlots ∧ p.state = .queued ∧ 0 < p.clientSocket ∧
      ¬(0 < p.scheduleTime ∧ e.now < p.scheduleTime) ∧ s.depsReady p = true)
    ⟨fun ⟨h₁, h₂, h₃, h₄, h₅, h₆, h₇, h₈, h₉⟩ => ⟨h₁, h₂, h₃, h₄, h₅, h₆, h₇, h₈, h₉⟩,
      fun ⟨h₁, h₂, h₃, h₄, h₅, h₆, h₇, h₈, h₉⟩ => ⟨h₁, h₂, h₃, h₄, h₅, h₆, h₇, h₈, h₉⟩⟩

theorem events_suffix {v v' : View} (h : Moves (fun a _ => a.ofSchedule e) v v') :
    v.events <:+ v'.events := by
  refine h.invariant (I := fun w => v.events <:+ w.events) (List.suffix_refl _) fun hI ha hg => ?_
  obtain ⟨uid, p, q, rfl, -⟩ | ⟨uid, p, q, rfl, -⟩ | ⟨p, rfl⟩ := Act.ofSchedule_cases ha
  · exact hI.trans (List.suffix_cons _ _)
  · exact hI.trans (List.suffix_cons _ _)
  · exact hI

theorem events_dispatch (hp : s.findjob p.jobid = some p) (h : s.dispatch e u p = .ok s') :
    s'.events = .dispatch p s.toQueue :: s.events := by
  obtain hv | ⟨hv, -⟩ := dispatch_spec hp h
  · exact congrArg (fun v : View => v.events) hv
  · exact congrArg (fun v : View => v.events) hv

/-- **A job that can be started is the first one started, if it is the only one.** -/
theorem dispatches_of_startable (hids : s.view.Ids) (hone : s.activeJobs = [p])
    (hst : s.Startable e) : s.Dispatches e p := by
  obtain ⟨s', hs'⟩ := nextRunJob_ok (e := e) hids
  refine ⟨s', hs', ?_⟩
  rw [nextRunJob, nextRunLoop, if_neg (by simp [hone]), Except.bind_eq_ok] at hs'
  obtain ⟨⟨s₁, found⟩, hround, hs'⟩ := hs'
  obtain rfl := (round_found_iff hround).2 hst
  have hids₁ := (round_schedules hids hround).ids hids
  obtain ⟨uid, huid, hqueue, hroom, p', hmem, hel, s₂, h₂, l, hl, hrest⟩ :=
    round_first (fun i hi => List.mem_range.1 hi) hround
  obtain rfl : p' = p := by simpa [hone] using hmem
  have hm₂ := dispatch_moves hids huid hqueue hroom hmem hel h₂
  have hnusers : s₂.nusers = s.nusers := hm₂.nusers_eq fun _ _ _ h => h
  have hrest' := (round_moves (hm₂.ids hids) (by rwa [hnusers]) hrest).mono
    fun _ _ ha => Act.ofRound.ofSchedule ha
  have hwake := wakeAll_schedules (e := e) hids₁
  have hloop := nextRunLoop_moves (hwake.ids hids₁) hs'
  rw [← events_dispatch (findjob_of_mem hids hmem) h₂]
  exact (events_suffix hrest').trans (events_suffix (hwake.trans hloop))

theorem not_dispatches_of_not_startable (hone : s.activeJobs = [p]) (hst : ¬s.Startable e) :
    ¬s.Dispatches e p := by
  rintro ⟨s', hs', hsuf⟩
  rw [nextRunJob, nextRunLoop, if_neg (by simp [hone]),
    round_of_not_startable (fun i hi => List.mem_range.1 hi) hst] at hs'
  cases hs'
  have hlen := hsuf.length_le
  rw [List.length_cons] at hlen
  omega

/-- **A job that is alone is started exactly if it fits.** -/
theorem dispatches_iff (hids : s.view.Ids) (hq : s.view.Queued) (h : s.Alone e p u) :
    s.Dispatches e p ↔ s.fits u p := by
  obtain ⟨hone, huser, hres, hslots, hmax, hst, hclient, htime, hready⟩ := h
  have hready' : ∀ uid, s.eligible e uid p ↔ uid = u ∧ s.fits u p := by
    intro uid
    simp only [Queue.eligible, Queue.queuedReady, Queue.retryReady, huser, hst, hready, hclient,
      htime, decide_eq_true_eq, Option.some.injEq, reduceCtorEq]
    constructor
    · rintro ⟨rfl, ⟨-, -, -, -, hfits⟩ | ⟨hfalse, -⟩⟩
      · exact ⟨rfl, hfits⟩
      · exact hfalse.elim
    · rintro ⟨rfl, hfits⟩
      exact ⟨rfl, .inl ⟨trivial, trivial, not_false, trivial, hfits⟩⟩
  constructor
  · intro hdisp
    by_contra hfits
    refine not_dispatches_of_not_startable hone ?_ hdisp
    rintro ⟨-, uid, -, -, p', hp', hel⟩
    obtain rfl : p' = p := by simpa [hone] using hp'
    exact hfits ((hready' uid).1 hel).2
  · intro hfits
    have hmem : p ∈ s.activeJobs := by simp [hone]
    obtain ⟨u', hu', hpu⟩ := hq.owner p.strip (List.mem_map_of_mem hmem)
    obtain rfl : u' = u := Option.some.inj (hpu.symm.trans huser)
    have hwait : s.view.waiting u' = 1 := by
      have hact : s.view.activeJobs = [p.strip] := by
        show s.activeJobs.map Job.strip = _
        rw [hone]
        rfl
      rw [View.waiting, hact, List.map_singleton, List.sum_singleton]
      exact Job.waits_queued huser hst
    have hqueue : (s.users u').queue ≠ 0 := by
      have := hq.queue u' hu'
      rw [hwait] at this
      exact (Int.lt_of_lt_of_le Int.one_pos this).ne'
    have hroom := hfits
    simp only [Queue.fits, decide_eq_true_eq] at hroom
    exact dispatches_of_startable hids hone
      ⟨by omega, u', hu', hqueue, p, hmem, (hready' u').2 ⟨rfl, hfits⟩⟩

/-- A recount makes no new owners. -/
theorem user_lt_usage {v : View} {a : Act} {late : Job → Prop} (hids : v.Ids) (ha : a.ofUsage e late)
    (hg : a.Guard v) (h : ∀ p ∈ v.activeJobs, ∀ u, p.user = some u → u < v.nusers) :
    ∀ p ∈ (a.apply v).activeJobs, ∀ u, p.user = some u → u < (a.apply v).nusers := by
  have hn := Act.nusers_le_apply hg
  exact ha.forall_fixed_apply (fun _ => rfl) hids hg fun p hp u hu => (h p hp u hu).trans_le hn

theorem user_lt_reload {s₀ : Spool} : ∀ p ∈ (s₀.reload e).view.activeJobs, ∀ u, p.user = some u →
    u < (s₀.reload e).view.nusers := by
  have hrel : Reloaded e s₀ (s₀.reload e) := reload_reloaded
  intro p' hp' u hu
  obtain ⟨p, hp, rfl⟩ := List.mem_map.1 hp'
  obtain ⟨r, -, hfrom⟩ := hrel.restored p hp
  exact hfrom.owner u hu

/-- The first recount of a new process finds an owner for every job, or it fails. -/
theorem queued_of_usage {s₀ : Spool} {late : Job → Prop} {v : View}
    (h : Usage e late (s₀.reload e).view v) : v.Queued := by
  have hrel : Reloaded e s₀ (s₀.reload e) := reload_reloaded
  obtain ⟨v₁, h₁, hg, h₂⟩ := h
  obtain ⟨hids₁, howner₁⟩ := h₁.invariant
    (I := fun w => w.Ids ∧ ∀ p ∈ w.activeJobs, ∀ u, p.user = some u → u < w.nusers)
    ⟨hrel.ids, user_lt_reload⟩ fun hI ha hg =>
      ⟨Act.ids_apply hI.1 hg, user_lt_usage hI.1 (.inl ha) hg hI.2⟩
  exact (h₂.invariant (I := fun w => w.Ids ∧ w.Queued)
    ⟨Act.ids_apply hids₁ hg, View.queued_recount hg howner₁⟩
    fun hI _ hg => ⟨Act.ids_apply hI.1 hg, hI.2.apply hI.1 hg⟩).2

end Spool

/-! ### The steps of the server -/

namespace Server

variable {e : Env} {s s' s₀ : Server} {C : Config} {p : Job} {u : ℕ}

/-- The owners of the jobs that a new process has read are users. -/
theorem queued_restart (h : s.step e .restart = .ok s') : s'.view.Queued := by
  rw [step, Except.bind_eq_ok] at h
  obtain ⟨sp, hsp, h⟩ := h
  cases h
  exact Spool.queued_of_usage (Spool.serverMain_usage hsp)

theorem queued_step {l : Env × Input} (hs : s.Sound) (hv : s.view.Queued) (h : Step C s l s') :
    s'.view.Queued := by
  obtain ⟨e, i⟩ := l
  obtain ⟨-, hen, h⟩ := h
  by_cases hi : i = .restart
  · subst hi
    exact queued_restart h
  · have hcourse := step_course (K := fun _ => True) hs hen hi (fun _ _ => trivial) h
    exact (hcourse.toMoves.invariant (I := fun w => w.Ids ∧ w.Queued) ⟨hs.ids, hv⟩
      fun hI _ hg => ⟨Act.ids_apply hI.1 hg, hI.2.apply hI.1 hg⟩).2

theorem Fresh.queued (h : s.Fresh) : s.view.Queued := by
  have hact := h.view_activeJobs
  refine ⟨?_, fun u hu => ?_⟩
  · rw [hact]
    exact fun p hp => absurd hp List.not_mem_nil
  · rw [View.waiting, hact]
    exact (h.counters u hu).2.2.ge

/-- In every state of every run, the jobs have owners and those that wait are counted. -/
theorem Run.queued {ok : Env × Input → Server → Prop} (h₀ : s₀.Fresh) (h : Run (Step C) ok s₀ s) :
    s.Sound ∧ s.view.Queued :=
  h.invariant (I := fun s => s.Sound ∧ s.view.Queued) ⟨h₀.sound, h₀.queued⟩
    fun hI _ hst => ⟨hst.sound hI.1, queued_step hI.1 hI.2 hst⟩

end Server

/-! ### Jobs within the limit of their owner -/

/-- No job asks for more slots than the absolute value of the limit of its owner. -/
def View.Roomy (v : View) : Prop :=
  ∀ p ∈ v.activeJobs, ∀ u, p.user = some u → p.numSlots ≤ (v.users u).maxSlots.natAbs

/-- **Jobs stay within the limits**, if those of users without a positive limit start there. -/
theorem View.Roomy.apply {v : View} {a : Act} (hids : v.Ids) (hq : v.Queued) (h : v.Roomy)
    (hg : a.Guard v)
    (hnew : ∀ p u, (∃ ds n m q, a = .submit p ds n m q) ∨ (∃ old ds m q, a = .reuse old p ds m q) →
      p.user = some u → (v.users u).maxSlots ≤ 0 → p.numSlots ≤ (v.users u).maxSlots.natAbs) :
    (a.apply v).Roomy := by
  have hfits : ∀ p u, (∃ ds n m q, a = .submit p ds n m q) ∨
      (∃ old ds m q, a = .reuse old p ds m q) → u < v.nusers → p.user = some u →
      v.admits u p.numSlots → ∀ u', p.user = some u' →
      p.numSlots ≤ ((a.apply v).users u').maxSlots.natAbs := by
    intro p u hp hu hpu hadm u' hpu'
    obtain rfl : u = u' := Option.some.inj (hpu.symm.trans hpu')
    rw [Act.limit_apply hg hu]
    by_cases hpos : (v.users u).maxSlots ≤ 0
    · exact hnew p u hp hpu hpos
    · rw [Queue.admits] at hadm
      omega
  refine Act.forall_fixed_apply
    (P := fun p => ∀ u, p.user = some u → p.numSlots ≤ ((a.apply v).users u).maxSlots.natAbs)
    (fun _ => rfl) hids hg (fun p hp u hu => ?_) ?_ ?_
  · obtain ⟨u', hu', hpu⟩ := hq.owner p hp
    obtain rfl : u' = u := Option.some.inj (hpu.symm.trans hu)
    rw [Act.limit_apply hg hu']
    exact h p hp u' hu
  · rintro p ds n m q rfl
    obtain ⟨-, -, -, -, -, -, -, -, ⟨u, hu, hpu, hadm⟩, -⟩ := id hg
    exact hfits p u (.inl ⟨ds, n, m, q, rfl⟩) hu hpu hadm
  · rintro old p ds m q rfl
    obtain ⟨-, -, -, -, -, -, ⟨u, hu, hpu, hadm⟩, -⟩ := id hg
    exact hfits p u (.inr ⟨old, ds, m, q, rfl⟩) hu hpu hadm

namespace Server

variable {e : Env} {s s' s₀ : Server} {C : Config} {p : Job} {u : ℕ}

/-- The slots are counted right.  A user whose limit is not positive asks for no more slots than its
absolute value, and a restart finds only jobs within the limits of their owners. -/
def AdmissionAgrees (l : Env × Input) (s : Server) : Prop :=
  SlotsKept l s ∧
  match l.2 with
  | .message index (.newjob m) =>
    (s.users (s.clientCs index).user).maxSlots ≤ 0 →
      m.numSlots ≤ (s.users (s.clientCs index).user).maxSlots.natAbs
  | .restart => ∀ p ∈ (s.reload l.1).activeJobs, ∀ u, p.user = some u →
      p.numSlots ≤ ((s.reload l.1).users u).maxSlots.natAbs
  | _ => True

theorem roomy_restart
    (hok : ∀ p ∈ (s.reload e).activeJobs, ∀ u, p.user = some u →
      p.numSlots ≤ ((s.reload e).users u).maxSlots.natAbs)
    (h : s.step e .restart = .ok s') : s'.view.Roomy := by
  rw [step, Except.bind_eq_ok] at h
  obtain ⟨sp, hsp, h⟩ := h
  cases h
  have hrel : Spool.Reloaded e s.toSpool (s.reload e) := Spool.reload_reloaded
  have husage := Spool.serverMain_usage hsp
  -- nobody gets another limit, and there are no new jobs
  have hlimit : ∀ u, (sp.view.users u).maxSlots = ((s.reload e).users u).maxSlots :=
    fun u => User.maxSlots_of_who (husage.who u)
  obtain ⟨-, hend⟩ := husage.moves.invariant
    (I := fun w => w.Ids ∧ ∀ p ∈ w.activeJobs, ∀ u, p.user = some u →
      p.numSlots ≤ ((s.reload e).users u).maxSlots.natAbs)
    ⟨hrel.ids, fun p' hp' => by
      obtain ⟨p, hp, rfl⟩ := List.mem_map.1 hp'
      exact hok p hp⟩
    fun hI ha hg => ⟨Act.ids_apply hI.1 hg, ha.forall_fixed_apply (fun _ => rfl) hI.1 hg hI.2⟩
  intro p hp u hu
  rw [hlimit]
  exact hend p hp u hu

theorem roomy_step {l : Env × Input} (hs : s.Sound) (hq : s.view.Queued) (hv : s.view.Roomy)
    (hok : AdmissionAgrees l s) (h : Step C s l s') : s'.view.Roomy := by
  obtain ⟨e, i⟩ := l
  obtain ⟨-, hen, h⟩ := h
  obtain ⟨-, hok⟩ := hok
  by_cases hi : i = .restart
  · subst hi
    exact roomy_restart hok h
  · have hcourse := step_course (K := fun _ => True) hs hen hi (fun _ _ => trivial) h
    -- while a new job is handled, the limits are those that the request found
    refine (hcourse.invariant (I := fun w => w.Ids ∧ w.Queued ∧ w.Roomy ∧
      ∀ index m, i = .message index (.newjob m) → ∀ u, (w.users u).who = (s.users u).who)
      ⟨hs.ids, hq, hv, fun _ _ _ _ => rfl⟩ ?_ ?_).2.2.1
    · intro w a hI ha hg
      refine ⟨Act.ids_apply hI.1 hg, hI.2.1.apply hI.1 hg, hI.2.2.1.apply hI.1 hI.2.1 hg ?_, ?_⟩
      · rintro p u hnew hpu
        obtain ⟨index, m, rfl, huser, hslots⟩ : ∃ index m, i = .message index (.newjob m) ∧
            p.user = some (s.clientCs index).user ∧ p.numSlots = m.numSlots := by
          obtain ⟨ds, n, m, q, rfl⟩ | ⟨old, ds, m, q, rfl⟩ := hnew
          · obtain ⟨index, next, rfl, huser, -⟩ := ha.submit
            exact ⟨index, m, rfl, huser, hg.2.2.2.2.2.2.2.1⟩
          · obtain ⟨index, rfl, huser, -⟩ := ha.reuse
            exact ⟨index, m, rfl, huser, hg.2.2.2.2.2.1⟩
        obtain rfl : u = (s.clientCs index).user := Option.some.inj (hpu.symm.trans huser)
        have hlimit : (w.users (s.clientCs index).user).maxSlots =
            (s.users (s.clientCs index).user).maxSlots :=
          User.maxSlots_of_who (hI.2.2.2 index m rfl _)
        rw [hlimit, hslots]
        exact hok
      · rintro index m rfl u
        rw [Act.who_apply hg, hI.2.2.2 index m rfl u]
        rintro us n rfl
        obtain ⟨index, heq, -⟩ | ⟨index, jobid, u, heq, -⟩ | ⟨index, jobid, u, heq, -⟩ := ha.users
        · cases heq
        · cases heq
        · cases heq
    · intro w w' hI husage
      have hI' := husage.moves.invariant (I := fun w => w.Ids ∧ w.Queued ∧ w.Roomy)
        ⟨hI.1, hI.2.1, hI.2.2.1⟩ fun hI ha hg =>
          ⟨Act.ids_apply hI.1 hg, hI.2.1.apply hI.1 hg, hI.2.2.apply hI.1 hI.2.1 hg fun p u hnew => by
            obtain ⟨ds, n, m, q, heq⟩ | ⟨old, ds, m, q, heq⟩ := hnew
            · exact absurd heq (ha.ne_submit p ds n m q)
            · exact absurd heq (ha.ne_reuse old p ds m q)⟩
      exact ⟨hI'.1, hI'.2.1, hI'.2.2, fun index m hi u => (husage.who u).trans (hI.2.2.2 index m hi u)⟩

theorem Fresh.roomy (h : s.Fresh) : s.view.Roomy := by
  rw [View.Roomy, h.view_activeJobs]
  exact fun p hp => absurd hp List.not_mem_nil

theorem roomy_run (h₀ : s₀.Fresh) (h : Run (Step C) AdmissionAgrees s₀ s) : s.view.Roomy :=
  (h.invariant (I := fun s => (s.Sound ∧ s.view.Queued) ∧ s.view.Roomy)
    ⟨⟨h₀.sound, h₀.queued⟩, h₀.roomy⟩ fun hI hok hst =>
      ⟨⟨hst.sound hI.1.1, queued_step hI.1.1 hI.1.2 hst⟩, roomy_step hI.1.1 hI.1.2 hI.2 hok hst⟩).2

/-- **Admission agrees with dispatch.**  In every reachable state, a job that is alone and ready is
started exactly if it fits what `next_run_job` takes to be free.  It is started in every state of a
run in which the users without a positive limit stay within its absolute value and the slots are
counted right. -/
theorem admitted_job_dispatched {ok : Env × Input → Server → Prop} (h₀ : s₀.Fresh)
    (h : Run (Step C) ok s₀ s) (halone : s.Alone e p u) :
    (s.Dispatches e p ↔ p.numSlots ≤ s.maxSlots - s.busySlots ∧
      p.numSlots ≤ (s.users u).maxSlots - (s.users u).busy) ∧
    (Run (Step C) AdmissionAgrees s₀ s → s.Dispatches e p) := by
  obtain ⟨hs, hq⟩ := Run.queued h₀ h
  have hiff := Spool.dispatches_iff hs.ids hq halone
  simp only [Queue.fits, decide_eq_true_eq] at hiff
  refine ⟨hiff, fun hagree => hiff.2 ?_⟩
  obtain ⟨-, hexact⟩ := exact_run h₀ (hagree.mono fun _ _ hok => hok.1)
  have hroomy := roomy_run h₀ hagree
  have hmem : p.strip ∈ s.view.activeJobs :=
    List.mem_map_of_mem (by rw [halone.activeJobs]; exact List.mem_singleton_self p)
  obtain ⟨u', hu', hpu⟩ := hq.owner _ hmem
  obtain rfl : u' = u := Option.some.inj (hpu.symm.trans halone.user)
  -- nothing runs, so nothing is counted
  have hruns : ∀ sel, s.view.runs id sel = 0 := by
    intro sel
    rw [runs_view, halone.activeJobs, List.map_singleton, List.sum_singleton]
    exact Job.runs_of_ne (by simp [halone.queued])
  have htotal : s.busySlots = 0 := hexact.total.trans (hruns _)
  have hbusy : (s.users u').busy = 0 := (hexact.busy u' hu').trans (hruns _)
  have hlimit : p.numSlots ≤ (s.users u').maxSlots.natAbs := hroomy _ hmem u' hpu
  have hres := halone.resumed
  have hmax := halone.maxSlots
  rw [htotal, hbusy]
  omega

/-- The user who submits a job has a positive limit, and there is room for another id. -/
def limitedInput (l : Env × Input) (s : Server) : Prop :=
  (plainInput l s ∧ roomForId l s) ∧ (match l.2 with
    | .message index (.newjob _) => 0 < (s.users (s.clientCs index).user).maxSlots
    | _ => true) = true

instance : ∀ l s, Decidable (limitedInput l s) := fun l s =>
  inferInstanceAs (Decidable ((plainInput l s ∧ roomForId l s) ∧ _ = true))

theorem agrees_of_limited {l : Env × Input} (h : limitedInput l s) : AdmissionAgrees l s := by
  obtain ⟨e, i⟩ := l
  refine ⟨slotsKept_of_plain h.1.1 h.1.2, ?_⟩
  cases i with
  | message index m =>
    cases m with
    | newjob m =>
      intro hle
      exact absurd (of_decide_eq_true h.2) (by omega)
    | _ => trivial
  | restart => cases h.1.1
  | _ => trivial

/-- A job of the user 1000 is alone in the queue, and is started. -/
theorem limited_job_dispatched : ∃ (s : Server) (p : Job), s.Alone (world 3) p 1 ∧
    s.Dispatches (world 3) p := by
  obtain ⟨s, hr, hP⟩ := exists_run plainConfig limitedInput started
    (fun s => s.activeJobs.any fun p => s.Alone (world 3) p 1)
    [(world 1, .accept 5 1000), (world 2, .message 0 (.newjob {}))]
    (by simp [world]) (by decide +kernel)
  obtain ⟨p, -, hp⟩ := List.any_eq_true.1 hP
  have halone := of_decide_eq_true hp
  exact ⟨s, p, halone, (admitted_job_dispatched fresh_started hr halone).2
    (hr.mono fun l s h => agrees_of_limited h)⟩

/-- A job of root is accepted.  It is alone in the queue, and is not started. -/
theorem root_job_undispatchable : ¬∀ (C : Config) (s₀ s : Server) (e : Env) (p : Job) (u : ℕ),
    s₀.Fresh → Run (Step C) anyInput s₀ s → (∃ m q, Event.submit p m q ∈ s.events) →
    s.Alone e p u → s.Dispatches e p := by
  intro hall
  obtain ⟨s, hr, hP⟩ := exists_run plainConfig anyInput started
    (fun s => s.activeJobs.any fun p => s.Alone (world 3) p 0 ∧ s.fits 0 p = false ∧
      s.events.any fun ev => match ev with
        | .submit p' _ _ => p' = p
        | _ => false)
    [(world 1, .accept 5 0), (world 2, .message 0 (.newjob {}))]
    (by simp [world]) (by decide +kernel)
  obtain ⟨p, -, hp⟩ := List.any_eq_true.1 hP
  obtain ⟨halone, hfits, hany⟩ := of_decide_eq_true hp
  obtain ⟨ev, hev, hsub⟩ := List.any_eq_true.1 hany
  obtain ⟨hs, hq⟩ := Run.queued fresh_started hr
  have hsubmit : ∃ m q, Event.submit p m q ∈ s.events := by
    cases ev with
    | submit p' m q =>
      obtain rfl := of_decide_eq_true hsub
      exact ⟨m, q, hev⟩
    | _ => cases hsub
  have hdisp := hall _ _ _ _ p 0 fresh_started hr hsubmit halone
  rw [Spool.dispatches_iff hs.ids hq halone, hfits] at hdisp
  cases hdisp

end Server

end TaskSpooler
