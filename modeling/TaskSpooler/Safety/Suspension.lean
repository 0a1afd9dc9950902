import TaskSpooler.Safety.Accounting
import TaskSpooler.Server.Roster

/-!
# Suspended users

`s_suspend_user` makes the limit of a user negative and pauses his running jobs.

* `suspended_user_idle`: from then on no job of the user runs until he is resumed, if each of his
  running jobs had reported its pid.
* `dispatched_job_keeps_running`: a job that has been dispatched, but has no pid yet, goes on.
-/

namespace TaskSpooler

/-- A job that does not run holds no slots, and no job has less than none.  No job waits for its
client to come back. -/
structure Job.Tame (p : Job) : Prop where
  state : p.state ≠ .wait ∧ p.state ≠ .delink
  allocated : p.state ≠ .running → p.numAllocated = 0
  slots : 0 ≤ p.numSlots

/-- Every active job is tame. -/
def View.Tame (v : View) : Prop := ∀ p ∈ v.activeJobs, p.Tame

theorem plainFn_tame : PlainFn Job.Tame := fun _ =>
  propext ⟨fun h => ⟨h.state, h.allocated, h.slots⟩, fun h => ⟨h.state, h.allocated, h.slots⟩⟩

/-- The limit of the user is negative, and none of his jobs runs. -/
structure View.Stopped (u : ℕ) (v : View) : Prop where
  known : u < v.nusers
  limit : (v.users u).maxSlots < 0
  idle : ∀ p ∈ v.activeJobs, p.user = some u → p.state ≠ .running

namespace Act

variable {v : View} {a : Act} {u : ℕ}

/-- The job of a request asks for no less than zero slots. -/
def asksSlots : Act → Prop
  | submit p _ _ _ _ | reuse _ p _ _ _ => 0 ≤ p.numSlots
  | _ => True

theorem ofUsage.asksSlots {e : Env} {late : Job → Prop} (h : a.ofUsage e late) : a.asksSlots := by
  obtain h | rfl | h := h
  · cases a <;> trivial
  · trivial
  · cases a <;> first | trivial | exact h.1.elim

theorem tame_new {p : Job} (hv : v.Tame) (hg : a.Guard v) (ha : a.asksSlots)
    (hnew : a.new v = some p) : p.Tame := by
  have hold : ∀ {p}, a.old v = some p → p.Tame := fun h => of_old plainFn_tame hg hv h
  cases a with
  | pause p =>
    cases hnew
    exact ⟨by simp [Job.setState], by simp [Job.setState, Job.freed], (hold rfl).slots⟩
  | relegate p requeue =>
    have hp := hold rfl
    cases hnew
    split_ifs with hr
    · exact ⟨by simp [Job.relegated], by simp [Job.relegated, Job.freed], hp.slots⟩
    · exact ⟨by simp [Job.relegated], by simp [Job.relegated, hp.allocated hr], hp.slots⟩
  | abnormal p =>
    cases hnew
    exact ⟨by simp [Job.setState], by simp [Job.setState, Job.freed], (hold rfl).slots⟩
  | wall p w =>
    have hp := hold rfl
    cases hnew
    exact ⟨hp.state, hp.allocated, hp.slots⟩
  | start p =>
    cases hnew
    exact ⟨by simp [Job.started], by simp [Job.started], (hold rfl).slots⟩
  | dispatch uid p q =>
    cases hnew
    exact ⟨by simp [Job.started], by simp [Job.started], (hold rfl).slots⟩
  | asleep uid p q =>
    have hp := hold rfl
    have hst : p.state = .queued := hg.2.2.2.2.2.2.1
    cases hnew
    exact ⟨by simp [Job.setState], fun _ => hp.allocated (by simp [hst]), hp.slots⟩
  | wake p =>
    have hp := hold rfl
    cases hnew
    exact ⟨by simp [Job.setState], fun _ => hp.allocated (by simp [hg.2]), hp.slots⟩
  | lock p =>
    have hp := hold rfl
    cases hnew
    exact ⟨by simp [Job.setState], fun _ => hp.allocated (by simp [hg.2]), hp.slots⟩
  | unlock p =>
    have hp := hold rfl
    cases hnew
    exact ⟨by simp [Job.setState], fun _ => hp.allocated (by simp [hg.2]), hp.slots⟩
  | submit p ds n m q =>
    obtain ⟨-, -, -, hst, halloc, -⟩ := hg
    cases hnew
    refine ⟨?_, fun _ => halloc, ha⟩
    obtain hst | hst := hst <;> simp [hst]
  | reuse p₀ p ds m q =>
    obtain ⟨-, -, hst, -, halloc, -, -, hstate, -⟩ := hg
    have hp := hold rfl
    cases hnew
    have hlocked := locked_of_reuse hst hstate hp.state
    refine ⟨by simp [Job.setState, hlocked], fun _ => ?_, ha⟩
    exact halloc.symm.trans (hp.allocated (by simp [hst, hlocked]))
  | gone p =>
    have hp := hold rfl
    cases hnew
    exact ⟨by simp [Job.gone], fun _ => hp.allocated hg.2.1, hp.slots⟩
  | pid p n =>
    have hp := hold rfl
    cases hnew
    exact ⟨hp.state, hp.allocated, hp.slots⟩
  | reconnect p st socket =>
    obtain ⟨hold', hsame⟩ := new_reconnect hg hnew
    have hp := hold hold'
    rw [hsame hp.state.2]
    exact ⟨hp.state, hp.allocated, hp.slots⟩
  | _ => cases hnew

/-- **A move keeps the jobs tame.** -/
theorem tame_apply (hids : v.Ids) (hv : v.Tame) (hg : a.Guard v) (ha : a.asksSlots) :
    (a.apply v).Tame :=
  forall_apply plainFn_tame hids hg hv fun _ hnew => tame_new hv hg ha hnew

/-- The job that a move makes run. -/
def runs? : Act → Option Job
  | start p | dispatch _ p _ => some p
  | _ => none

/-- A job that runs after a move is one that the move makes run, or it ran before. -/
theorem running_new {p : Job} (hv : v.Tame) (hg : a.Guard v) (hnew : a.new v = some p)
    (hr : p.state = .running) :
    (∃ p₀, a.runs? = some p₀ ∧ p.user = p₀.user) ∨
      ∃ p₀, a.old v = some p₀ ∧ p₀.state = .running ∧ p.user = p₀.user ∧ (p.pid = 0 → p₀.pid = 0) := by
  cases a with
  | start p =>
    cases hnew
    exact .inl ⟨p, rfl, rfl⟩
  | dispatch uid p q =>
    cases hnew
    exact .inl ⟨p, rfl, rfl⟩
  | wall p w =>
    cases hnew
    exact .inr ⟨p, rfl, hr, rfl, id⟩
  | pid p n =>
    cases hnew
    exact .inr ⟨p, rfl, hr, rfl, fun hz => absurd hg.2.2 (not_lt.2 (le_of_eq hz))⟩
  | reconnect p st socket =>
    obtain ⟨hold, hsame⟩ := new_reconnect hg hnew
    obtain rfl := hsame (of_old plainFn_tame hg hv hold).state.2
    exact .inr ⟨p, hold, hr, rfl, id⟩
  | reuse p₀ p ds m q =>
    have hp : p₀.Tame := of_old (a := .reuse p₀ p ds m q) plainFn_tame hg hv rfl
    obtain ⟨-, -, hst, -, -, -, -, hstate, -⟩ := hg
    cases hnew
    simp [Job.setState, locked_of_reuse hst hstate hp.state] at hr
  | submit p ds n m q =>
    obtain ⟨-, -, -, hst, -⟩ := hg
    cases hnew
    obtain hst | hst := hst <;> simp [hst] at hr
  | relegate p requeue =>
    cases hnew
    split_ifs at hr <;> simp [Job.relegated] at hr
  | _ => first | (cases hnew; done) | (cases hnew; simp [Job.setState, Job.gone] at hr)

/-- A fact about the pids of the running jobs of a user is kept if the move starts none of his
jobs. -/
theorem running_apply {R : ℤ → Prop} (hR : ∀ x y : ℤ, (y = 0 → x = 0) → R x → R y) (hids : v.Ids)
    (hv : v.Tame) (hg : a.Guard v) (ha : ∀ p, a.runs? = some p → p.user ≠ some u)
    (h : ∀ p ∈ v.activeJobs, p.user = some u → p.state = .running → R p.pid) :
    ∀ p ∈ (a.apply v).activeJobs, p.user = some u → p.state = .running → R p.pid := by
  refine forall_apply (fun _ => rfl) hids hg h fun p hnew hu hr => ?_
  obtain ⟨p₀, hp₀, hsame⟩ | ⟨p₀, hold, hr₀, hsame, hpid⟩ := running_new hv hg hnew hr
  · exact absurd (hsame.symm.trans hu) (ha p₀ hp₀)
  · exact hR _ _ hpid (h p₀.strip (has_old hg hold).mem (hsame.symm.trans hu) hr₀)

end Act

/-! ### The moves and a suspended user -/

namespace View.Stopped

variable {v v' : View} {a : Act} {u : ℕ} {e : Env} {late : Job → Prop}

/-- A move that starts no job of the user and does not raise his limit. -/
theorem apply (h : v.Stopped u) (hids : v.Ids) (hv : v.Tame) (hg : a.Guard v)
    (hrun : ∀ p, a.runs? = some p → p.user ≠ some u)
    (husers : ∀ us n, a = .users us n → (us u).maxSlots < 0) : (a.apply v).Stopped u := by
  refine ⟨h.known.trans_le (Act.nusers_le_apply hg), ?_, ?_⟩
  · by_cases ha : ∀ us n, a ≠ .users us n
    · have hwho := congrArg User.maxSlots (Act.who_apply hg ha u)
      exact hwho.trans_lt h.limit
    · simp only [ne_eq, not_forall, not_not] at ha
      obtain ⟨us, n, rfl⟩ := ha
      exact husers us n rfl
  · exact Act.running_apply (R := fun _ => False) (fun _ _ _ hx => hx) hids hv hg hrun h.idle

/-- A user whose limit is negative gets no slots, as long as he is not found to use less than
none. -/
theorem not_dispatch {p : Job} {uid : ℕ} {q : Queue} (h : v.Stopped u) (hv : v.Tame)
    (hbusy : 0 ≤ (v.users u).busy) (hg : (Act.dispatch uid p q).Guard v) : p.user ≠ some u := by
  intro hu
  obtain ⟨-, hhas, -, hown, -, hfits, -⟩ := hg
  obtain rfl : uid = u := Option.some.inj (hown.symm.trans hu)
  have hslots : 0 ≤ p.numSlots := (hv p.strip hhas.mem).slots
  have hlimit := h.limit
  simp only [Queue.fits, decide_eq_true_eq] at hfits
  omega

theorem runs_eq_zero (h : v.Stopped u) : v.runs id (only u) = 0 := by
  refine List.sum_eq_zero fun x hx => ?_
  obtain ⟨p, hp, rfl⟩ := List.mem_map.1 hx
  refine if_neg fun hrun => ?_
  exact h.idle p hp (of_decide_eq_true hrun.2) hrun.1

/-- A job of the user holds no slots. -/
theorem freedSlots_eq_zero {p : Job} (h : v.Stopped u) (hv : v.Tame) (hp : v.Has p)
    (hu : p.user = some u) : Queue.freedSlots p = 0 := by
  have hz : p.numAllocated = 0 := (hv _ hp.mem).allocated (h.idle _ hp.mem hu)
  rw [Queue.freedSlots, if_pos hz]

theorem slots_eq_zero (h : v.Stopped u) (hv : v.Tame) (hg : a.Guard v)
    (hrun : ∀ p, a.runs? = some p → p.user ≠ some u) (howner : a.owner = some u) : a.slots = 0 := by
  cases a with
  | start p => exact absurd howner (hrun p rfl)
  | dispatch uid p q => exact absurd (hg.2.2.2.1.trans howner) (hrun p rfl)
  | pause p => simp [Act.slots, Act.takes, Act.frees, h.freedSlots_eq_zero hv hg.1 howner]
  | abnormal p => simp [Act.slots, Act.takes, Act.frees, h.freedSlots_eq_zero hv hg.1 howner]
  | finish r p p' max => simp [Act.slots, Act.takes, Act.frees, h.freedSlots_eq_zero hv hg.1 howner]
  | relegate p requeue =>
    have hne := h.idle _ hg.1.mem howner
    have hne : p.state ≠ .running := hne
    simp [Act.slots, Act.takes, Act.frees, hne]
  | drop p shelf =>
    have hz := h.freedSlots_eq_zero hv hg.1 howner
    cases shelf <;> simp [Act.slots, Act.takes, Act.frees, hz]
  | _ => rfl

/-- The slots of the user stay where they are: none of his jobs holds any. -/
theorem busy_apply (h : v.Stopped u) (hv : v.Tame) (hg : a.Guard v)
    (hrun : ∀ p, a.runs? = some p → p.user ≠ some u) (hbusy : 0 ≤ (v.users u).busy) :
    0 ≤ ((a.apply v).users u).busy := by
  by_cases hl : a.Local
  · rw [Act.users_apply hl hg]
    split_ifs with howner
    · have hz := h.slots_eq_zero hv hg hrun howner
      simpa [User.bump, hz] using hbusy
    · exact hbusy
  · cases a with
    | recount =>
      rw [(View.recount_counters v).2.1 u, h.runs_eq_zero]
    | users us n =>
      exact hbusy.trans_eq (hg.2.2.1 u h.known).1.symm
    | _ => exact absurd trivial hl

end View.Stopped

/-- Besides, the server does not count less than no slots for the user. -/
structure View.Halted (u : ℕ) (v : View) : Prop extends v.Stopped u where
  ids : v.Ids
  tame : v.Tame
  busy : 0 ≤ (v.users u).busy

namespace View.Halted

variable {v v' : View} {a : Act} {u : ℕ} {e : Env} {late : Job → Prop}

/-- **No move but a start of one of his jobs ends the suspension of a user.** -/
theorem apply (h : v.Halted u) (hg : a.Guard v) (hask : a.asksSlots)
    (hstart : ∀ p, a = .start p → p.user ≠ some u)
    (husers : ∀ us n, a = .users us n → (us u).maxSlots < 0) : (a.apply v).Halted u := by
  have hrun : ∀ p, a.runs? = some p → p.user ≠ some u := by
    intro p hp
    cases a with
    | start p₀ =>
      cases hp
      exact hstart p rfl
    | dispatch uid p₀ q =>
      cases hp
      exact h.not_dispatch h.tame h.busy hg
    | _ => cases hp
  exact ⟨h.toStopped.apply h.ids h.tame hg hrun husers, Act.ids_apply h.ids hg,
    Act.tame_apply h.ids h.tame hg hask, h.busy_apply h.tame hg hrun h.busy⟩

theorem usage_move (h : v.Halted u) (hg : a.Guard v) (ha : a.ofUsage e late) :
    (a.apply v).Halted u := by
  refine h.apply hg ha.asksSlots ?_ fun us n hus => absurd hus (ha.ne_users us n)
  rintro p rfl
  obtain ha | ha | ha := ha
  · exact ha.elim
  · cases ha
  · exact ha.1.elim

end View.Halted

/-- The recount finds that the user has no slots, and then none of his jobs is started. -/
theorem View.Stopped.usage {v v' : View} {u : ℕ} {e : Env} {late : Job → Prop} (h : v.Stopped u)
    (hids : v.Ids) (hv : v.Tame) (husage : Usage e late v v') : v'.Halted u := by
  obtain ⟨v₁, hsweep, hg, hrest⟩ := husage
  obtain ⟨h₁, hids₁, hv₁⟩ := hsweep.invariant (I := fun w => w.Stopped u ∧ w.Ids ∧ w.Tame)
    ⟨h, hids, hv⟩ fun {w a} hI ha hg => by
      have hus : ∀ us n, a ≠ .users us n := Act.ofUsage.ne_users (.inl ha)
      have hrun : ∀ p, a.runs? = some p → p.user ≠ some u := by
        intro p hp
        cases a <;> first | (cases hp; done) | exact ha.elim
      have hask : a.asksSlots := by
        cases a <;> trivial
      exact ⟨hI.1.apply hI.2.1 hI.2.2 hg hrun fun us n h => absurd h (hus us n),
        Act.ids_apply hI.2.1 hg, Act.tame_apply hI.2.1 hI.2.2 hg hask⟩
  have hcount : (Act.recount.apply v₁).Halted u := by
    refine ⟨h₁.apply hids₁ hv₁ hg ?_ ?_, Act.ids_apply hids₁ hg, Act.tame_apply hids₁ hv₁ hg trivial, ?_⟩
    · intro p hp
      cases hp
    · intro us n h
      cases h
    · rw [(View.recount_counters v₁).2.1 u, h₁.runs_eq_zero]
  exact hrest.invariant hcount fun hI ha hg => hI.usage_move hg (.inr (.inr ha))

/-- Every running job of the user has reported its pid. -/
def View.Reported (u : ℕ) (v : View) : Prop :=
  ∀ p ∈ v.activeJobs, p.user = some u → p.state = .running → p.pid ≠ 0

theorem View.Reported.apply {v : View} {a : Act} {u : ℕ} (h : v.Reported u) (hids : v.Ids)
    (hv : v.Tame) (hg : a.Guard v) (hrun : ∀ p, a.runs? = some p → p.user ≠ some u) :
    (a.apply v).Reported u :=
  Act.running_apply (R := (· ≠ 0)) (fun _ _ hxy hx hy => hx (hxy hy)) hids hv hg hrun h

/-! ### `s_suspend_user` -/

namespace Spool

variable {e : Env} {s s' s₀ : Spool} {socket : ℤ} {u : ℕ}

/-- After the loop of `s_suspend_user` has seen a job of the user, it runs only if it has no
pid. -/
theorem suspendJob_done {jobid : ℤ} {done : List ℤ} (hids : s.view.Ids)
    (h : ∀ p ∈ s.view.activeJobs, p.jobid ∈ done → p.user = some u → p.state = .running → p.pid = 0) :
    ∀ p ∈ (s.suspendJob e socket u jobid).view.activeJobs, p.jobid ∈ jobid :: done →
      p.user = some u → p.state = .running → p.pid = 0 := by
  intro p hp hid hu hr
  rw [suspendJob] at hp
  cases hfind : s.findjob jobid with
  | none =>
    simp only [hfind] at hp
    obtain ⟨x, hx, rfl⟩ := List.mem_map.1 hp
    have hne := Keyed.lookup_eq_none.1 hfind x hx
    exact h _ hp ((List.mem_cons.1 hid).resolve_left hne) hu hr
  | some p₀ =>
    simp only [hfind] at hp
    obtain rfl := findjob_jobid hfind
    -- in the other cases the job has not changed, and it is the one that was found
    have hsame : p ∈ s.view.activeJobs → (p₀.user = some u ∧ p₀.state = .running → p₀.pid = 0) →
        p.pid = 0 := by
      intro hp hp₀
      obtain hid | hid := List.mem_cons.1 hid
      · obtain rfl : p = p₀.strip := Keyed.eq_of_key hids.nodup hp (view_has hfind).mem hid
        exact hp₀ ⟨hu, hr⟩
      · exact h p hp hid hu hr
    split_ifs at hp with hown hpid
    · rw [view_pause] at hp
      obtain hid | hid := List.mem_cons.1 hid
      · obtain ⟨x, -, -, rfl⟩ | ⟨-, hne⟩ := Keyed.mem_modify.1 hp
        · cases hr
        · exact absurd hid hne
      · have hg : (Act.pause p₀).Guard s.view := ⟨view_has hfind, hpid, by simp [hown.2]⟩
        refine Act.forall_apply (P := fun p => p.jobid ∈ done → p.user = some u →
          p.state = .running → p.pid = 0) (fun _ => rfl) hids hg h ?_ p hp hid hu hr
        intro x hx _ _ hrun
        cases hx
        cases hrun
    · exact hsame hp fun _ => not_not.1 hpid
    · exact hsame hp fun h => absurd h hown

theorem suspendAll_done (socket : ℤ) {l d : List ℤ} (hids : s.view.Ids)
    (h : ∀ p ∈ s.view.activeJobs, p.jobid ∈ d → p.user = some u → p.state = .running → p.pid = 0) :
    ∀ p ∈ (l.foldl (fun s jobid => s.suspendJob e socket u jobid) s).view.activeJobs,
      p.jobid ∈ l ∨ p.jobid ∈ d → p.user = some u → p.state = .running → p.pid = 0 := by
  induction l generalizing s d with
  | nil => exact fun p hp hid => h p hp (hid.resolve_left List.not_mem_nil)
  | cons jobid l ih =>
    intro p hp hid
    have hmoves : Moves (fun a _ => True) s.view (s.suspendJob e socket u jobid).view :=
      suspendJob_moves fun _ _ _ _ => trivial
    refine ih (hmoves.ids hids) (suspendJob_done hids h) p hp ?_
    rw [List.mem_cons, or_assoc] at hid
    rw [List.mem_cons]
    tauto

/-- What the loop of `s_suspend_user` keeps. -/
theorem suspendAll_keeps (socket : ℤ) (l : List ℤ) (hids : s.view.Ids) (hv : s.view.Tame)
    (hrep : s.view.Reported u) : let v := (l.foldl (fun s jobid => s.suspendJob e socket u jobid) s).view
    v.Ids ∧ v.Tame ∧ v.Reported u ∧ v.nusers = s.nusers ∧
      (∀ i, (v.users i).who = (s.users i).who) ∧
      ∀ p ∈ v.activeJobs, p.jobid ∈ s.activeJobs.map Job.jobid := by
  have hmoves : Moves (fun a _ => ∃ p, a = .pause p) s.view
      (l.foldl (fun s jobid => s.suspendJob e socket u jobid) s).view :=
    suspendAll_moves socket (fun p _ _ _ => ⟨p, rfl⟩) l
  refine hmoves.invariant (I := fun w => w.Ids ∧ w.Tame ∧ w.Reported u ∧ w.nusers = s.nusers ∧
    (∀ i, (w.users i).who = (s.users i).who) ∧ ∀ p ∈ w.activeJobs, p.jobid ∈ s.activeJobs.map Job.jobid)
    ⟨hids, hv, hrep, rfl, fun _ => rfl, fun p hp => ?_⟩ fun {w a} hI ha hg => ?_
  · obtain ⟨x, hx, rfl⟩ := List.mem_map.1 hp
    exact List.mem_map.2 ⟨x, hx, rfl⟩
  · obtain ⟨hids, hv, hrep, hn, hwho, hmem⟩ := hI
    obtain ⟨p, rfl⟩ := ha
    refine ⟨Act.ids_apply hids hg, Act.tame_apply hids hv hg trivial, ?_,
      (Act.nusers_apply (a := .pause p) trivial).trans hn, fun i => ?_, fun x hx => ?_⟩
    · exact hrep.apply hids hv hg fun _ h => by cases h
    · exact (Act.who_apply hg (fun _ _ h => by cases h) i).trans (hwho i)
    · obtain hx | ⟨_, _, _, _, _, h, -⟩ := Act.mem_ids_apply hids hg (List.mem_map_of_mem hx)
      · obtain ⟨y, hy, hyx⟩ := List.mem_map.1 hx
        exact hyx ▸ hmem y hy
      · cases h

/-- **After `s_suspend_user` no job of the user runs**, if all of them had reported their pid. -/
theorem sSuspendUser_halts (hids : s.view.Ids) (hv : s.view.Tame) (hu : u < s.nusers)
    (hlimit : (s.users u).maxSlots ≠ 0) (hrep : s.view.Reported u)
    (h : s.sSuspendUser e socket u = .ok s') : s'.view.Halted u := by
  rw [sSuspendUser] at h
  set s₁ := s.modUser (some u) fun u => { u with maxSlots := -(u.maxSlots.natAbs : ℤ), locked := true }
    with hs₁
  have hmoves : Moves (fun _ _ => True) s.view s₁.view := modUser_moves _ hids trivial
    fun x => ⟨⟨rfl, rfl, rfl, rfl⟩, by rw [Int.natAbs_neg, Int.natAbs_natCast]⟩
  have hids₁ : s₁.view.Ids := hmoves.ids hids
  have hwho : s₁.users u = (s.users u).suspended := Function.update_self ..
  obtain ⟨hids₂, hv₂, hrep₂, hn₂, hwho₂, hmem₂⟩ :=
    suspendAll_keeps (e := e) socket (s₁.activeJobs.map Job.jobid) hids₁ hv hrep
  have hdone := suspendAll_done (e := e) socket (l := s₁.activeJobs.map Job.jobid) (u := u) hids₁
    (d := []) fun _ _ h => absurd h List.not_mem_nil
  set s₂ := (s₁.activeJobs.map Job.jobid).foldl (fun s jobid => s.suspendJob e socket u jobid) s₁
  have hstop : s₂.view.Stopped u := by
    refine ⟨hn₂ ▸ hu, ?_, fun p hp hpu hr => ?_⟩
    · have hmax := congrArg User.maxSlots (hwho₂ u)
      rw [hwho] at hmax
      have hmax : (s₂.users u).maxSlots = -((s.users u).maxSlots.natAbs : ℤ) := hmax
      rw [view_users]
      omega
    · exact hrep₂ p hp hpu hr (hdone p hp (.inl (hmem₂ p hp)) hpu hr)
  exact hstop.usage hids₂ hv₂ (sUpdateSlotsUsage_usage (s := s₂.sendLine socket _) hids₂ h)

/-- The moves of `s_suspend_user`, apart from the recount. -/
def ofSuspend (w : ℕ) (a : Act) (v : View) : Prop :=
  (∃ p, a = .pause p) ∨ a = .users (Function.update v.users w (v.users w).suspended) v.nusers

theorem sSuspendUser_ofSuspend {w : ℕ} (hids : s.view.Ids) (hlate : NoLater e s₀ s)
    (h : s.sSuspendUser e socket w = .ok s') :
    Course e (LaterOn e s₀) (ofSuspend w) s.view s'.view ∧ NoLater e s₀ s' :=
  sSuspendUser_course hids (fun _ => .inr rfl) (fun p _ _ _ => .inl ⟨p, rfl⟩) hlate h

theorem ofSuspend.runs {w : ℕ} {a : Act} {v : View} (h : ofSuspend w a v) :
    a.runs? = none ∧ a.asksSlots := by
  obtain ⟨p, rfl⟩ | rfl := h
  · exact ⟨rfl, trivial⟩
  · exact ⟨rfl, trivial⟩

theorem ofSuspend.maxSlots {w : ℕ} {a : Act} {v : View} (h : ofSuspend w a v) (hw : w ≠ u)
    {us : ℕ → User} {n : ℕ} (ha : a = .users us n) : us u = v.users u := by
  obtain ⟨p, rfl⟩ | rfl := h
  · cases ha
  · cases ha
    exact Function.update_of_ne hw.symm ..

/-- A suspended user stays so while another one is suspended. -/
theorem sSuspendUser_halted {w : ℕ} (hw : w ≠ u) (hu : s.view.Halted u)
    (h : s.sSuspendUser e socket w = .ok s') : s'.view.Halted u := by
  refine (sSuspendUser_ofSuspend hu.ids .refl h).1.invariant hu (fun {v a} hI ha hg => ?_)
    fun hI husage => husage.moves.invariant hI fun hI ha hg => hI.usage_move hg ha
  refine hI.apply hg ha.runs.2 ?_ fun us n hus => ?_
  · rintro p rfl
    exact absurd ha.runs.1 (by simp [Act.runs?])
  · rw [ha.maxSlots hw hus]
    exact hI.limit

/-- What `s_suspend_user` relies on. -/
structure Suspendable (u : ℕ) (v : View) : Prop where
  ids : v.Ids
  tame : v.Tame
  known : u < v.nusers
  limit : (v.users u).maxSlots ≠ 0
  reported : v.Reported u

theorem Suspendable.apply {v : View} {a : Act} (h : Suspendable u v) (hg : a.Guard v)
    (hask : a.asksSlots) (hrun : a.runs? = none)
    (husers : ∀ us n, a = .users us n → us u = v.users u) : Suspendable u (a.apply v) := by
  refine ⟨Act.ids_apply h.ids hg, Act.tame_apply h.ids h.tame hg hask,
    h.known.trans_le (Act.nusers_le_apply hg), ?_,
    h.reported.apply h.ids h.tame hg fun p hp => by rw [hrun] at hp; cases hp⟩
  by_cases ha : ∀ us n, a ≠ .users us n
  · have hwho := congrArg User.maxSlots (Act.who_apply hg ha u)
    exact fun hz => h.limit (hwho.symm.trans hz)
  · simp only [ne_eq, not_forall, not_not] at ha
    obtain ⟨us, n, rfl⟩ := ha
    show (us u).maxSlots ≠ 0
    rw [husers us n rfl]
    exact h.limit

/-- Without a timeout, no job is started while another user is suspended. -/
theorem sSuspendUser_suspendable {w : ℕ} (hw : w ≠ u) (hnone : ∀ p, ¬Late e s₀ p)
    (hlate : NoLater e s₀ s) (hu : Suspendable u s.view) (h : s.sSuspendUser e socket w = .ok s') :
    Suspendable u s'.view ∧ NoLater e s₀ s' := by
  obtain ⟨hcourse, hlate'⟩ := sSuspendUser_ofSuspend hu.ids hlate h
  refine ⟨hcourse.invariant hu (fun {v a} hI ha hg => ?_) fun hI husage => ?_, hlate'⟩
  · exact hI.apply hg ha.runs.2 ha.runs.1 fun us n hus => ha.maxSlots hw hus
  · refine husage.moves.invariant hI fun {v a} hI ha hg => ?_
    have hno : ∀ p, ¬LaterOn e s₀ p := fun p hp => hp.2.elim hnone
    refine hI.apply hg ha.asksSlots ?_ fun us n hus => absurd hus (ha.ne_users us n)
    obtain ha | rfl | ⟨-, p, hp⟩ := ha
    · cases a <;> first | rfl | exact ha.elim
    · rfl
    · exact absurd hp (hno p)

theorem foldlM_halted {l : List ℕ} (hnot : u ∉ l) (hu : s.view.Halted u)
    (h : l.foldlM (fun s u => s.sSuspendUser e socket u) s = .ok s') : s'.view.Halted u :=
  Except.foldlM_induction (R := fun s s' : Spool => s.view.Halted u → s'.view.Halted u)
    (fun _ h => h) (fun h h' hu => h' (h hu))
    (fun hw h hu => sSuspendUser_halted (fun heq => hnot (heq ▸ hw)) hu h) h hu

/-- **`s_suspend_user_all` stops every user**, if no job has run too long. -/
theorem foldlM_halts {l : List ℕ} (hnone : ∀ p, ¬Late e s₀ p) (hlate : NoLater e s₀ s)
    (hu : Suspendable u s.view) (hmem : u ∈ l) (hnd : l.Nodup)
    (h : l.foldlM (fun s u => s.sSuspendUser e socket u) s = .ok s') : s'.view.Halted u := by
  induction l generalizing s with
  | nil => exact absurd hmem List.not_mem_nil
  | cons w l ih =>
    rw [List.foldlM_cons, Except.bind_eq_ok] at h
    obtain ⟨s₁, h₁, h⟩ := h
    rw [List.nodup_cons] at hnd
    by_cases hw : w = u
    · subst hw
      exact foldlM_halted hnd.1
        (sSuspendUser_halts hu.ids hu.tame hu.known hu.limit hu.reported h₁) h
    · obtain ⟨hu₁, hlate₁⟩ := sSuspendUser_suspendable hw hnone hlate hu h₁
      exact ih hlate₁ hu₁ ((List.mem_cons.1 hmem).resolve_left (Ne.symm hw)) hnd.2 h

/-- **A user is suspended by a request that is about him.** -/
theorem suspendUser_halts {user : ℕ} {jobid : ℤ} (ht : s.Targets user jobid u)
    (hu : Suspendable u s.view) (hlate : s.target user jobid = .all → ∀ p, ¬Late e s p)
    (h : s.suspendUser e socket user jobid = .ok s') : s'.view.Halted u := by
  rw [suspendUser] at h
  cases htarget : s.target user jobid with
  | all =>
    simp only [htarget, Except.bind_eq_ok] at h
    obtain ⟨s₁, h₁, h⟩ := h
    cases h
    rw [view_sUserStatusAll]
    simp only [Targets, htarget] at ht
    refine foldlM_halts (hlate htarget) .refl hu ?_ (List.nodup_range' ..) h₁
    rw [List.mem_range'_1]
    omega
  | one w =>
    simp only [htarget, Except.bind_eq_ok] at h
    obtain ⟨s₁, h₁, h⟩ := h
    cases h
    simp only [Targets, htarget] at ht
    subst ht
    have hhalt := sSuspendUser_halts hu.ids hu.tame hu.known hu.limit hu.reported h₁
    exact hhalt
  | missing => simp only [htarget, reduceCtorEq] at h

end Spool

/-! ### Runs -/

namespace Server

variable {e : Env} {s s' s₀ s₁ s₂ : Server} {C : Config} {i : Input} {u index : ℕ} {jobid : ℤ}

/-- Every `NEWJOB`, and every row of the table that a new process reads, asks for no less than zero
slots, and there is room for another id. -/
def asksSlots (l : Env × Input) (s : Server) : Prop :=
  s.RoomForId l.2 ∧
  match l.2 with
  | .message _ (.newjob m) => 0 ≤ m.numSlots
  | .restart => ∀ r ∈ s.dbJobs.rows, 0 ≤ r.job.numSlots
  | _ => True

/-- Until the user is resumed: the messages are not from root, and the server is not started
again. -/
def whileSuspended (u : ℕ) (l : Env × Input) (s : Server) : Prop :=
  asksSlots l s ∧ ¬s.Resumes l.2 u ∧
    match l.2 with
    | .message index _ => (s.users (s.clientCs index).user).uid ≠ 0
    | .restart => False
    | _ => True

theorem Does.asksSlots {K : View → Prop} {a : Act} {v : View} (h : s.Does K e i a v)
    (hg : a.Guard v) (hok : asksSlots (e, i) s) : a.asksSlots := by
  cases a with
  | submit p ds n m q =>
    obtain ⟨index, -, rfl, -⟩ := h.submit
    exact hok.2.trans_eq hg.2.2.2.2.2.2.2.1.symm
  | reuse old p ds m q =>
    obtain ⟨index, rfl, -⟩ := h.reuse
    exact hok.2.trans_eq hg.2.2.2.2.2.1.symm
  | _ => trivial

/-- The jobs that a new process reads are tame. -/
theorem tame_reload {sp : Spool} (hok : ∀ r ∈ sp.dbJobs.rows, 0 ≤ r.job.numSlots) :
    (sp.reload e).view.Tame := by
  have hrel : Spool.Reloaded e sp (sp.reload e) := Spool.reload_reloaded
  intro p' hp'
  obtain ⟨p, hp, rfl⟩ := List.mem_map.1 hp'
  obtain ⟨r, hr, hfrom⟩ := hrel.restored p hp
  refine ⟨?_, fun _ => hfrom.numAllocated, (hok r hr).trans_eq hfrom.numSlots.symm⟩
  show p.state ≠ .wait ∧ p.state ≠ .delink
  obtain ⟨h, hst⟩ | ⟨-, -, -, hst⟩ := Spool.restoredState_some hfrom.state
  · obtain h | h | h := h <;> simp [hst, h]
  · rw [hst]
    split_ifs <;> simp

/-- A step keeps the jobs tame. -/
theorem tame_step {l : Env × Input} (hs : s.Sound) (hv : s.view.Tame) (hok : asksSlots l s)
    (h : Step C s l s') : s'.view.Tame := by
  obtain ⟨e, i⟩ := l
  obtain ⟨-, hen, h⟩ := h
  by_cases hi : i = .restart
  · subst hi
    dsimp only at h
    rw [step, Except.bind_eq_ok] at h
    obtain ⟨sp, hsp, h⟩ := h
    cases h
    exact ((Spool.serverMain_usage hsp).moves.invariant (I := fun w => w.Ids ∧ w.Tame)
      ⟨Spool.reload_reloaded.ids, tame_reload hok.2⟩ fun hI ha hg => ⟨Act.ids_apply hI.1 hg,
        Act.tame_apply hI.1 hI.2 hg ha.asksSlots⟩).2
  · have hcourse := step_course (K := fun _ => True) hs hen hi (fun _ _ => trivial) h
    refine (hcourse.toMoves.invariant (I := fun w => w.Ids ∧ w.Tame) ⟨hs.ids, hv⟩
      fun hI ha hg => ⟨Act.ids_apply hI.1 hg, Act.tame_apply hI.1 hI.2 hg ?_⟩).2
    obtain ha | ha := ha
    · exact ha.asksSlots hg hok
    · exact ha.asksSlots

theorem Fresh.tame (h : s.Fresh) : s.view.Tame := by
  intro p hp
  rw [h.view_activeJobs] at hp
  exact absurd hp List.not_mem_nil

theorem whileSuspended.ne_restart {l : Env × Input} (h : whileSuspended u l s) : l.2 ≠ .restart := by
  intro hl
  have h := h.2.2
  rw [hl] at h
  exact h

/-- **A suspended user stays so** until he is resumed, or root continues one of his jobs. -/
theorem halted_step (hs : s.Sound) (hu : s.view.Halted u) (hok : whileSuspended u (e, i) s)
    (hen : s.Enabled i) (h : s.step e i = .ok s') : s'.view.Halted u := by
  have hcourse := step_course (K := fun _ => True) hs hen hok.ne_restart (fun _ _ => trivial) h
  refine (hcourse.invariant (I := fun w => w.Halted u ∧ s.nusers ≤ w.nusers ∧
    ∀ k < s.nusers, (w.users k).uid = (s.users k).uid) ⟨hu, le_refl _, fun _ _ => rfl⟩ ?_ ?_).1
  · intro w a ⟨hI, hn, huid⟩ ha hg
    refine ⟨hI.apply hg (ha.asksSlots hg hok.1) ?_ ?_, hn.trans (Act.nusers_le_apply hg),
      fun k hk => ?_⟩
    · rintro p rfl hpu
      obtain ⟨index, rfl, hown, -, hfits⟩ | ⟨index, jobid, w', rfl, hpw, ht⟩ := ha.start
      · -- the owner is suspended, and his request is refused
        have huser : (s.clientCs index).user < s.nusers := hs.users index hen
        have hroot : (s.users (s.clientCs index).user).uid ≠ 0 := hok.2.2
        obtain hown | hown := hown
        · rw [Option.some.inj (hown.symm.trans hpu)] at hfits
          have hslots : 0 ≤ p.numSlots := (hI.tame _ hg.1.mem).slots
          have hbusy := hI.busy
          have hlimit := hI.limit
          omega
        · exact hroot ((huid _ huser).symm.trans hown)
      · obtain rfl : w' = u := Option.some.inj (hpw.symm.trans hpu)
        exact hok.2.1 ht
    · rintro us n rfl
      exact ha.who (P := fun x => x.maxSlots < 0) hg hI.known hI.limit
        (fun _ x hx => by simp only [User.suspended]; omega) fun hres => absurd hres hok.2.1
    · exact ha.who (P := fun x => x.uid = (s.users k).uid) hg (hk.trans_le hn) (huid k hk)
        (fun _ _ hx => hx) fun _ _ hx => hx
  · intro w w' ⟨hI, hn, huid⟩ husage
    refine ⟨husage.moves.invariant hI fun hI ha hg => hI.usage_move hg ha,
      hn.trans (Moves.nusers_le husage.moves), fun k hk => ?_⟩
    have hwho := congrArg User.uid (husage.who k)
    exact hwho.trans (huid k hk)

/-- The request suspends the user. -/
theorem suspend_step (hs : s.Sound) (hv : s.view.Tame)
    (ht : s.Targets (s.clientCs index).user jobid u) (hu : u < s.nusers)
    (hlimit : (s.users u).maxSlots ≠ 0) (hrep : s.view.Reported u)
    (hlate : s.target (s.clientCs index).user jobid = .all → ∀ p, ¬s.Late e p)
    (h : s.step e (.message index (.request (.suspendUser jobid))) = .ok s') : s'.view.Halted u := by
  rw [step, clientRead, handle, handleRequest, Except.bind_eq_ok] at h
  obtain ⟨s₁, h₁, h⟩ := h
  rw [onSpoolM, Except.map_eq_ok] at h₁
  obtain ⟨sp, hsp, rfl⟩ := h₁
  have hview : (s.toSpool.timeoutLock e).view = s.view := Spool.view_timeoutLock e
  have hq : (s.toSpool.timeoutLock e).toQueue = s.toQueue := toQueue_timeoutLock
  have hsus : Spool.Suspendable u (s.toSpool.timeoutLock e).view := by
    rw [hview]
    exact ⟨hs.ids, hv, hu, hlimit, hrep⟩
  have hhalt : sp.view.Halted u := by
    refine Spool.suspendUser_halts ?_ hsus ?_ hsp
    · show (s.toSpool.timeoutLock e).Targets (s.clientCs index).user jobid u
      unfold Spool.Targets Spool.target at ht ⊢
      rwa [hq]
    · intro hall p hp
      refine hlate ?_ p ⟨by rw [← hq]; exact hp.1, hp.2⟩
      rw [← hall]
      show _ = (s.toSpool.timeoutLock e).target (s.clientCs index).user jobid
      unfold Spool.target
      rw [hq]
  have hclose : (Request.suspendUser jobid).closes = true := rfl
  rw [if_pos hclose] at h
  refine (removeConnection_moves h).invariant (I := fun w => w.Halted u) hhalt fun hI ha hg => ?_
  obtain ⟨p, rfl, -⟩ := ha
  exact hI.apply hg trivial (fun _ h => by cases h) fun _ _ h => by cases h

theorem targets_lt (hs : s.Sound) (hen : (index : ℤ) < s.nconnections)
    (ht : s.Targets (s.clientCs index).user jobid u) : u < s.nusers := by
  unfold Spool.Targets Spool.target at ht
  split_ifs at ht with hroot hall
  · exact ht ▸ hs.users index hen
  · exact ht.2
  · cases hfind : s.findUserByUid (jobid % 2 ^ 32).toNat with
    | none =>
      simp only [hfind] at ht
    | some w =>
      simp only [hfind] at ht
      exact ht ▸ (Spool.findUserByUid_some hfind).1

/-- **A suspended user has nothing running**: from the moment on when he is suspended until he is
resumed, if each of his running jobs had reported its pid, and if, when root suspends all users at
once, no job had run too long. -/
theorem suspended_user_idle {e₁ : Env} (hs₀ : s₀.Fresh) (hr : Run (Step C) asksSlots s₀ s)
    (hst : Step C s (e₁, .message index (.request (.suspendUser jobid))) s₁)
    (ht : s.Targets (s.clientCs index).user jobid u) (hlimit : 0 < (s.users u).maxSlots)
    (hrep : ∀ p ∈ s.activeJobs, p.user = some u → p.state = .running → p.pid ≠ 0)
    (hlate : s.target (s.clientCs index).user jobid = .all →
      ∀ p ∈ s.activeJobs, Spool.timedOut e₁ p = false)
    (h : Run (Step C) (whileSuspended u) s₁ s₂) :
    ∀ p ∈ s₂.activeJobs, p.user = some u → p.state ≠ .running := by
  obtain ⟨hs, hv⟩ := hr.invariant (I := fun s => s.Sound ∧ s.view.Tame) ⟨hs₀.sound, hs₀.tame⟩
    fun hI hok hst => ⟨hst.sound hI.1, tame_step hI.1 hI.2 hok hst⟩
  have hrep' : s.view.Reported u := by
    intro p' hp'
    obtain ⟨p, hp, rfl⟩ := List.mem_map.1 hp'
    exact hrep p hp
  have hhalt := suspend_step hs hv ht (targets_lt hs hst.2.1 ht) hlimit.ne' hrep'
    (fun hall p hp => by simpa [hlate hall p hp.1] using hp.2) hst.2.2
  obtain ⟨-, hend⟩ := h.invariant (I := fun s => s.Sound ∧ s.view.Halted u)
    ⟨hst.sound hs, hhalt⟩ fun hI hok hst => ⟨hst.sound hI.1, halted_step hI.1 hI.2 hok hst.2.1 hst.2.2⟩
  exact fun p hp => hend.idle p.strip (List.mem_map_of_mem hp)

instance : ∀ l s, Decidable (asksSlots l s) := by
  intro l s
  unfold asksSlots
  refine @instDecidableAnd _ _ (s.decidableRoomForId l.2) ?_
  split <;> infer_instance

instance {sp : Spool} {user : ℕ} {jobid : ℤ} : Decidable (sp.Targets user jobid u) := by
  unfold Spool.Targets
  split <;> infer_instance

instance : Decidable (s.Resumes i u) := by
  unfold Resumes
  split <;> infer_instance

instance : ∀ l s, Decidable (whileSuspended u l s) := by
  intro l s
  unfold whileSuspended
  split <;> infer_instance

/-- The user 1000 suspends himself after his job has reported its pid. -/
theorem reported_job_paused : ∃ s₁ s₂ : Server, s₁.activeJobs.map Job.state = [.running] ∧
    s₂.activeJobs.map Job.user = [some 1] ∧
    ∀ p ∈ s₂.activeJobs, p.user = some 1 → p.state ≠ .running := by
  obtain ⟨s, s₁, hr, hst, hP⟩ := exists_run_step asksSlots started
    (fun s s₁ => s.Targets (s.clientCs 1).user 0 1 ∧ 0 < (s.users 1).maxSlots ∧
      (∀ p ∈ s.activeJobs, p.user = some 1 → p.state = .running → p.pid ≠ 0) ∧
      (∀ p ∈ s.activeJobs, Spool.timedOut (world 6) p = false) ∧
      s.activeJobs.map Job.state = [.running] ∧
      reaches (whileSuspended 1) (fun s => s.activeJobs.map Job.user = [some 1])
        [(world 7, .schedule)] s₁)
    (world 6, .message 1 (.request (.suspendUser 0)))
    [(world 1, .accept 5 1000), (world 2, .message 0 (.newjob {})), (world 3, .schedule),
      (world 4, .message 0 (.runjobOk none 100)), (world 5, .accept 6 1000)]
    (by simp [world]) (by decide +kernel)
  obtain ⟨ht, hlimit, hrep, hlate, hstate, hP⟩ := of_decide_eq_true hP
  obtain ⟨s₂, h, huser⟩ := exists_run plainConfig _ _ _ _ (by simp [world]) hP
  exact ⟨s, s₂, hstate, of_decide_eq_true huser,
    suspended_user_idle fresh_started hr hst ht hlimit hrep (fun _ => hlate) h⟩

/-- The user 1000 suspends himself between the dispatch of his job and the report of its pid.  The
job goes on. -/
theorem dispatched_job_keeps_running : ¬∀ (C : Config) (s₀ s s₁ s₂ : Server) (e₁ : Env)
    (index u : ℕ) (jobid : ℤ), s₀.Fresh → Run (Step C) asksSlots s₀ s →
    Step C s (e₁, .message index (.request (.suspendUser jobid))) s₁ →
    s.Targets (s.clientCs index).user jobid u → 0 < (s.users u).maxSlots →
    Run (Step C) (whileSuspended u) s₁ s₂ →
    ∀ p ∈ s₂.activeJobs, p.user = some u → p.state ≠ .running := by
  intro hall
  obtain ⟨s, s₁, hr, hst, hP⟩ := exists_run_step asksSlots started
    (fun s s₁ => s.Targets (s.clientCs 1).user 0 1 ∧ 0 < (s.users 1).maxSlots ∧
      reaches (whileSuspended 1)
        (fun s => ¬∀ p ∈ s.activeJobs, p.user = some 1 → p.state ≠ .running)
        [(world 6, .message 0 (.runjobOk none 100)), (world 7, .schedule)] s₁)
    (world 5, .message 1 (.request (.suspendUser 0)))
    [(world 1, .accept 5 1000), (world 2, .message 0 (.newjob {})), (world 3, .schedule),
      (world 4, .accept 6 1000)]
    (by simp [world]) (by decide +kernel)
  obtain ⟨ht, hlimit, hP⟩ := of_decide_eq_true hP
  obtain ⟨s₂, h, hruns⟩ := exists_run plainConfig _ _ _ _ (by simp [world]) hP
  exact of_decide_eq_true hruns (hall _ _ _ _ _ _ _ _ _ fresh_started hr hst ht hlimit h)

end Server

end TaskSpooler
