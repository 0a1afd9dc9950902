import TaskSpooler.Sched.Slots

/-!
# Slot accounting

`busy_slots`, `user->busy` and `user->jobs` are kept by hand.  Along every run in which each job
asks for a slot, no running job is deleted, no restart finds a running job and the sums fit into an
`int`, they are exactly the sums over the running jobs (`slot_accounting_exact`).

A job that is restored as running holds no slots, so its end does not give any back:
`restart_breaks_accounting` is a run after which the server counts a slot that nobody uses.
-/

namespace TaskSpooler

/-! ### The counters of a queue -/

/-- The counters agree with the running jobs. -/
structure View.Exact (v : View) : Prop where
  booked : v.Booked
  slots : ∀ p ∈ v.activeJobs, 0 < p.numSlots
  total : v.busySlots = v.runs id anyone
  busy : ∀ u < v.nusers, (v.users u).busy = v.runs id (only u)
  jobs : ∀ u < v.nusers, (v.users u).jobs = v.runs (fun _ => 1) (only u)
  valid : ∀ usage busy, Event.invalidSlots usage busy ∉ v.events

namespace View

variable {v : View} {a : Act}

/-- A job of a user that does not exist yet runs nowhere. -/
theorem runs_of_le (hb : v.Booked) {u : ℕ} (hu : v.nusers ≤ u) (c : ℤ → ℤ) :
    v.runs c (only u) = 0 := by
  refine List.sum_eq_zero fun x hx => ?_
  obtain ⟨p, hp, rfl⟩ := List.mem_map.1 hx
  obtain ⟨u', hu', hpu⟩ := (hb p hp).owner
  have hne : u' ≠ u := by omega
  simp [Job.runs, only, hpu, hne]

/-- The counters after a recount. -/
theorem recount_counters (v : View) :
    (Act.recount.apply v).busySlots = v.runs id anyone ∧
    (∀ u, ((Act.recount.apply v).users u).busy = v.runs id (only u)) ∧
    (∀ u, ((Act.recount.apply v).users u).jobs = v.runs (fun _ => 1) (only u)) ∧
    (Act.recount.apply v).activeJobs = v.activeJobs ∧ (Act.recount.apply v).nusers = v.nusers := by
  rw [Act.recount_toQueue]
  exact ⟨Queue.runningSlots_eq _, fun u => Queue.runningSlots_own _ u,
    fun u => Queue.runningJobs_own _ u, rfl, rfl⟩

theorem valid_apply (hv : v.busySlots = v.runs id anyone)
    (h : ∀ usage busy, Event.invalidSlots usage busy ∉ v.events) :
    ∀ usage busy, Event.invalidSlots usage busy ∉ (a.apply v).events := by
  intro usage busy
  cases a with
  | recount =>
    have hsame : (v.onQueue Queue.recount).busySlots = v.busySlots :=
      (Queue.runningSlots_eq _).trans hv.symm
    simp only [Act.apply, hsame, ne_eq, not_true_eq_false, if_false]
    exact h usage busy
  | dispatch uid p q | asleep uid p q | submit p ds n m q | reuse old p ds m q | finish r p p' max
  | gone p | goneFinished p | delete p =>
    exact fun hmem => h usage busy ((List.mem_cons.1 hmem).resolve_left (by simp))
  | _ => exact h usage busy

/-- **The counters stay exact**, if every new job asks for a slot and no running job is deleted. -/
theorem Exact.apply (hids : v.Ids) (h : v.Exact) (hg : a.Guard v)
    (hsubmit : ∀ p ds n m q, a = .submit p ds n m q → 0 < m.numSlots)
    (hreuse : ∀ old p ds m q, a = .reuse old p ds m q → 0 < m.numSlots)
    (hdel : ∀ p, a = .delete p → p.state ≠ .running) : (a.apply v).Exact := by
  have hbooked := Act.booked_apply hids h.booked hg
  have hslots : ∀ p ∈ (a.apply v).activeJobs, 0 < p.numSlots := by
    refine Act.forall_fixed_apply (fun _ => rfl) hids hg h.slots ?_ ?_
    · rintro p ds n m q rfl
      obtain ⟨-, -, -, -, -, -, -, hm, -, -⟩ := hg
      exact hm ▸ hsubmit p ds n m q rfl
    · rintro old p ds m q rfl
      obtain ⟨-, -, -, -, -, hm, -, -⟩ := hg
      exact hm ▸ hreuse old p ds m q rfl
  have hvalid := valid_apply (a := a) h.total h.valid
  have hruns : ∀ c sel, (a.apply v).runs c sel =
      v.runs c sel + if sel a.owner then a.change c else 0 := by
    intro c sel
    refine Act.runs_apply hids h.booked (fun p hp hz => ?_) hg hdel
    have := h.slots p hp
    omega
  by_cases hl : a.Local
  · have hn := Act.nusers_apply (v := v) hl
    refine ⟨hbooked, hslots, ?_, fun u hu => ?_, fun u hu => ?_, hvalid⟩
    · rw [Act.busySlots_apply hl, hruns, h.total]
      simp [anyone, Act.slots_eq_change]
    · rw [Act.users_apply hl hg, hruns, ← h.busy u (hn ▸ hu)]
      by_cases ho : a.owner = some u <;> simp [ho, only, User.bump, Act.slots_eq_change]
    · rw [Act.users_apply hl hg, hruns, ← h.jobs u (hn ▸ hu)]
      by_cases ho : a.owner = some u <;> simp [ho, only, User.bump, Act.jobs_eq_change]
  · cases a with
    | recount =>
      obtain ⟨htotal, hbusy, hjobs, hact, hn⟩ := recount_counters v
      have hsame : ∀ c sel, (Act.recount.apply v).runs c sel = v.runs c sel := by
        intro c sel
        rw [View.runs, View.runs, hact]
      exact ⟨hbooked, hslots, htotal.trans (hsame _ _).symm,
        fun u _ => (hbusy u).trans (hsame _ _).symm, fun u _ => (hjobs u).trans (hsame _ _).symm,
        hvalid⟩
    | users us n =>
      obtain ⟨hn, -, hold, hnew⟩ := hg
      refine ⟨hbooked, hslots, h.total, fun u hu => ?_, fun u hu => ?_, hvalid⟩
      · by_cases hu' : u < v.nusers
        · exact (hold u hu').1.trans (h.busy u hu')
        · exact (hnew u hu (by omega)).1.trans (runs_of_le h.booked (by omega) _).symm
      · by_cases hu' : u < v.nusers
        · exact (hold u hu').2.1.trans (h.jobs u hu')
        · exact (hnew u hu (by omega)).2.1.trans (runs_of_le h.booked (by omega) _).symm
    | _ => exact absurd trivial hl

end View

/-! ### Numbers that fit into an `int` -/

/-- The slots of a job, if it is one of those that are looked at. -/
def Job.load (P : Job → Bool) (sel : Option ℕ → Bool) (p : Job) : ℤ :=
  if P p ∧ sel p.user then p.numSlots else 0

namespace Server

variable {e : Env} {s s' s₀ : Server} {C : Config}

/-- The slots of some of the jobs of some users. -/
def load (s : Server) (P : Job → Bool) (sel : Option ℕ → Bool) : ℤ :=
  (s.activeJobs.map (Job.load P sel)).sum

/-- The users that `RESUME_USER` is about. -/
def targeted (s : Server) (user : ℕ) (jobid : ℤ) : Option ℕ → Bool
  | some u => match s.target user jobid with
    | .all => 1 ≤ u ∧ u < s.nusers
    | .one u' => u = u'
    | .missing => false
  | none => false

/-- The jobs that `RESUME_USER` starts. -/
def resumed (s : Server) (user : ℕ) (jobid : ℤ) (p : Job) : Bool :=
  p.state = .pause ∧ p.pid ≠ 0 ∧ s.targeted user jobid p.user

/-- The jobs that may run after `CONT` of a job: if some job has run too long, all of them. -/
def runsAfterCont (e : Env) (s : Server) (jobid : ℤ) (p : Job) : Bool :=
  s.activeJobs.any (Spool.timedOut e) ∨ p.state = .running ∨ p.jobid = jobid

/-- The slots that a request adds to the counters fit.  The counters are `int`s and nothing stops
them at their end; the model counts on there, so what is said about slots is said of runs in which
they fit.  `next_run_job` subtracts where `s_cont_job` adds, and `s_resume_user` does not test. -/
def SlotsFit (e : Env) (s : Server) (user : ℕ) : Request → Prop
  | .contJob jobid => s.load (s.runsAfterCont e jobid) anyone ≤ intMax
  | .resumeUser jobid =>
    s.busySlots + s.load (s.resumed user jobid) anyone ≤ intMax ∧
      ∀ u < s.nusers, (s.users u).busy + s.load (s.resumed user jobid) (only u) ≤ intMax
  | _ => True

/-- The ids and the slots of a step fit into an `int`. -/
def IntsFit (l : Env × Input) (s : Server) : Prop :=
  s.RoomForId l.2 ∧
    match l.2 with
    | .message index (.request r) => s.SlotsFit l.1 (s.clientCs index).user r
    | _ => True

theorem intsFit_of_plain {l : Env × Input} (h : plainInput l s) (hroom : roomForId l s) :
    IntsFit l s := by
  obtain ⟨e, i⟩ := l
  refine ⟨hroom, ?_⟩
  cases i with
  | message index m =>
    cases m with
    | request r => cases h
    | _ => trivial
  | _ => trivial

/-! ### The steps of the server -/

/-- A new job asks for a slot, a connection that carries a job makes no other request, a restart
finds no running job and none without slots, and the numbers fit into an `int`. -/
def SlotsKept (l : Env × Input) (s : Server) : Prop :=
  IntsFit l s ∧
  match l.2 with
  | .message _ (.newjob m) => 0 < m.numSlots
  | .message index (.request r) => r.closes → (s.clientCs index).hasjob = false
  | .message index (.killAll _ _) =>
    ∀ k : ℕ, index ≤ k → k < s.nconnections → (s.clientCs k).hasjob = false
  | .restart => ∀ r ∈ s.dbJobs.rows,
      0 < r.job.numSlots ∧ Spool.restoredState l.1 r.job ≠ some .running
  | _ => True

theorem exact_usage {late : Job → Prop} {v v' : View} (hids : v.Ids) (h : v.Exact)
    (hu : Usage e late v v') : v'.Exact := by
  refine (hu.moves.invariant (I := fun w => w.Ids ∧ w.Exact) ⟨hids, h⟩ fun {w a} hI ha hg => ?_).2
  refine ⟨Act.ids_apply hI.1 hg, hI.2.apply hI.1 hg
    (fun p ds n m q heq => absurd heq (ha.ne_submit p ds n m q))
    (fun p₀ p ds m q heq => absurd heq (ha.ne_reuse p₀ p ds m q)) ?_⟩
  · rintro p rfl
    obtain ha | ha | ha := ha
    · exact ha.elim
    · cases ha
    · exact ha.1.elim

/-- The moves of a step that keeps the slots. -/
theorem does_keeps_slots {K : View → Prop} {i : Input} {a : Act} {v : View}
    (hok : SlotsKept (e, i) s) (ha : s.Does K e i a v) :
    (∀ p ds n m q, a = .submit p ds n m q → 0 < m.numSlots) ∧
    (∀ old p ds m q, a = .reuse old p ds m q → 0 < m.numSlots) ∧
    ∀ p, a = .delete p → p.state ≠ .running := by
  obtain ⟨-, hok⟩ := hok
  refine ⟨?_, ?_, ?_⟩
  · rintro p ds n m q rfl
    obtain ⟨index, next, rfl, -⟩ := ha.submit
    exact hok
  · rintro old p ds m q rfl
    obtain ⟨index, rfl, -⟩ := ha.reuse
    exact hok
  · rintro p rfl
    obtain ⟨index, -, -, hne, -⟩ | ⟨-, hst, -⟩ | ⟨index, m, -, hst, -⟩ |
      ⟨index, r, rfl, hclose, hjob, -⟩ | ⟨index, format, jobid, k, rfl, hik, hk, hjob, -⟩ := ha.delete
    · exact hne
    · simp [hst]
    · simp [hst]
    · rw [hok hclose] at hjob
      cases hjob
    · rw [hok k hik hk] at hjob
      cases hjob

/-! ### A restart without running jobs -/

/-- Nothing runs, and nothing is counted as running. -/
structure Quiet (v : View) : Prop where
  jobs : ∀ p ∈ v.activeJobs, p.state ≠ .running ∧ p.state ≠ .wait ∧ p.state ≠ .delink ∧
    p.numAllocated = 0 ∧ 0 < p.numSlots ∧ ∀ u, p.user = some u → u < v.nusers
  busySlots : v.busySlots = 0
  valid : ∀ usage busy, Event.invalidSlots usage busy ∉ v.events

theorem Quiet.runs {v : View} (h : Quiet v) (c : ℤ → ℤ) (sel : Option ℕ → Bool) :
    v.runs c sel = 0 := by
  refine List.sum_eq_zero fun x hx => ?_
  obtain ⟨p, hp, rfl⟩ := List.mem_map.1 hx
  exact Job.runs_of_ne (h.jobs p hp).1

theorem Quiet.sweep {late : Job → Prop} {v v' : View} (hids : v.Ids) (h : Quiet v)
    (hm : Moves (fun a _ => a.ofSweep e late) v v') : Quiet v' := by
  refine (hm.invariant (I := fun w => w.Ids ∧ Quiet w) ⟨hids, h⟩ fun {w a} hI ha hg => ?_).2
  refine ⟨Act.ids_apply hI.1 hg, ?_⟩
  obtain ⟨hids, hw⟩ := hI
  cases a with
  | relegate p requeue =>
    exact absurd (hg.2.2 ha.1).1 (hw.jobs _ hg.1.mem).1
  | reorder l => exact ⟨fun p hp => hw.jobs p (List.Perm.subset hg hp), hw.busySlots, hw.valid⟩
  | forget l => exact ⟨hw.jobs, hw.busySlots, hw.valid⟩
  | finish r p p' max =>
    have hz : p.numAllocated = 0 := (hw.jobs _ hg.1.mem).2.2.2.1
    have hn := Act.nusers_apply (v := w) (a := .finish r p p' max) trivial
    refine ⟨?_, ?_, View.valid_apply (hw.busySlots.trans (hw.runs _ _).symm) hw.valid⟩
    · rw [hn]
      refine Act.forall_apply (fun _ => rfl) hids hg hw.jobs fun p hp => ?_
      cases hp
    · rw [Act.busySlots_apply (a := .finish r p p' max) trivial, hw.busySlots]
      simp [Act.slots, Act.takes, Act.frees, Queue.freedSlots, hz]
  | _ => exact ha.elim

theorem Quiet.exact_recount {v : View} (h : Quiet v) (hg : Act.recount.Guard v) :
    (Act.recount.apply v).Exact := by
  obtain ⟨htotal, hbusy, hjobs, hact, hn⟩ := View.recount_counters v
  have hsame : ∀ c sel, (Act.recount.apply v).runs c sel = v.runs c sel := by
    intro c sel
    rw [View.runs, View.runs, hact]
  refine ⟨fun p hp => ?_, fun p hp => ?_, htotal.trans (hsame _ _).symm,
    fun u _ => (hbusy u).trans (hsame _ _).symm, fun u _ => (hjobs u).trans (hsame _ _).symm,
    View.valid_apply (h.busySlots.trans (h.runs _ _).symm) h.valid⟩
  · rw [hact] at hp
    rw [hn]
    obtain ⟨hr, hw, hd, hz, -, howner⟩ := h.jobs p hp
    obtain ⟨u, hu⟩ := Option.ne_none_iff_exists'.1 (hg p hp)
    exact ⟨⟨u, howner u hu, hu⟩, ⟨hw, hd⟩, by rw [if_neg hr, hz]⟩
  · rw [hact] at hp
    exact (h.jobs p hp).2.2.2.2.1

theorem quiet_reload {sp : Spool}
    (hok : ∀ r ∈ sp.dbJobs.rows, 0 < r.job.numSlots ∧ Spool.restoredState e r.job ≠ some .running)
    (hev : ∀ usage busy, Event.invalidSlots usage busy ∉ sp.events) :
    Quiet (sp.reload e).view := by
  have hrel : Spool.Reloaded e sp (sp.reload e) := Spool.reload_reloaded
  refine ⟨fun p' hp' => ?_, hrel.busySlots, fun usage busy => ?_⟩
  · obtain ⟨p, hp, rfl⟩ := List.mem_map.1 hp'
    obtain ⟨r, hr, hfrom⟩ := hrel.restored p hp
    obtain ⟨hslots, hrun⟩ := hok r hr
    have hst := hfrom.state
    have hne : p.state ≠ .running := fun h => hrun (h ▸ hst)
    show p.state ≠ .running ∧ p.state ≠ .wait ∧ p.state ≠ .delink ∧ p.numAllocated = 0 ∧
      0 < p.numSlots ∧ ∀ u, p.user = some u → u < (sp.reload e).nusers
    refine ⟨hne, ?_, ?_, hfrom.numAllocated, by rw [hfrom.numSlots]; exact hslots, hfrom.owner⟩
    · obtain ⟨h, hst⟩ | ⟨-, -, -, hst⟩ := Spool.restoredState_some hst
      · obtain h | h | h := h <;> simp [hst, h]
      · rw [hst]
        split_ifs <;> simp
    · obtain ⟨h, hst⟩ | ⟨-, -, -, hst⟩ := Spool.restoredState_some hst
      · obtain h | h | h := h <;> simp [hst, h]
      · rw [hst]
        split_ifs <;> simp
  · show Event.invalidSlots usage busy ∉ (sp.reload e).events
    rw [hrel.events]
    exact hev usage busy

theorem exact_restart {sp sp' : Spool}
    (hok : ∀ r ∈ sp.dbJobs.rows, 0 < r.job.numSlots ∧ Spool.restoredState e r.job ≠ some .running)
    (hev : ∀ usage busy, Event.invalidSlots usage busy ∉ sp.events)
    (h : sp.serverMain e = .ok sp') : sp'.view.Exact := by
  have hquiet := quiet_reload hok hev
  obtain ⟨v₁, h₁, hg, h₂⟩ := Spool.serverMain_usage h
  have hexact := (hquiet.sweep Spool.reload_reloaded.ids h₁).exact_recount hg
  -- a job that is not running cannot have run too long
  have hend : sp'.view = Act.recount.apply v₁ := by
    refine h₂.invariant (I := fun w => w = Act.recount.apply v₁) rfl fun _ ha _ => ?_
    obtain ⟨-, p, hp, hlate⟩ := ha
    rw [Spool.timedOut, decide_eq_true_eq] at hlate
    exact absurd hlate.1 (hquiet.jobs p.strip (List.mem_map_of_mem hp)).1
  rw [hend]
  exact hexact

/-- **A step that keeps the slots keeps the counters exact.** -/
theorem exact_step {l : Env × Input} (hs : s.Sound) (hv : s.view.Exact) (hok : SlotsKept l s)
    (h : Step C s l s') : s'.view.Exact := by
  obtain ⟨e, i⟩ := l
  obtain ⟨-, hen, h⟩ := h
  by_cases hi : i = .restart
  · subst hi
    dsimp only at h
    rw [step, Except.bind_eq_ok] at h
    obtain ⟨sp, hsp, h⟩ := h
    cases h
    exact exact_restart hok.2 hv.valid hsp
  · have hcourse := step_course (K := fun _ => True) hs hen hi (fun _ _ => trivial) h
    refine (hcourse.invariant (I := fun w => w.Ids ∧ w.Exact) ⟨hs.ids, hv⟩
      (fun {w a} hI ha hg => ?_) fun {w w'} hI hu => ?_).2
    · obtain ⟨h₁, h₂, h₃⟩ := does_keeps_slots hok ha
      exact ⟨Act.ids_apply hI.1 hg, hI.2.apply hI.1 hg h₁ h₂ h₃⟩
    · exact ⟨hu.ids hI.1, exact_usage hI.1 hI.2 hu⟩

theorem Fresh.exact (h : s.Fresh) : s.view.Exact := by
  have hact := h.view_activeJobs
  have hzero : ∀ c sel, s.view.runs c sel = 0 := by
    intro c sel
    rw [View.runs, hact]
    rfl
  refine ⟨?_, ?_, h.busySlots.trans (hzero _ _).symm,
    fun u hu => (h.counters u hu).1.trans (hzero _ _).symm,
    fun u hu => (h.counters u hu).2.1.trans (hzero _ _).symm, ?_⟩
  · rw [View.Booked, hact]
    exact fun p hp => absurd hp List.not_mem_nil
  · rw [hact]
    exact fun p hp => absurd hp List.not_mem_nil
  · intro usage busy
    show _ ∉ s.events
    rw [h.events]
    exact List.not_mem_nil

theorem exact_run (h₀ : s₀.Fresh) (h : Run (Step C) SlotsKept s₀ s) : s.Sound ∧ s.view.Exact :=
  h.invariant (I := fun s => s.Sound ∧ s.view.Exact) ⟨h₀.sound, h₀.exact⟩
    fun hI hok hst => ⟨hst.sound hI.1, exact_step hI.1 hI.2 hok hst⟩

/-! ### The counters of the server -/

/-- The counters of the server are the sums over its running jobs, no recount has found them wrong,
and the end of a running job lowers `busy_slots` by its slots. -/
structure Accounted (s : Server) : Prop where
  busySlots : s.busySlots = Queue.runningSlots s.activeJobs
  busy : ∀ u < s.nusers,
    (s.users u).busy = Queue.runningSlots (s.activeJobs.filter fun p => p.user = some u)
  jobs : ∀ u < s.nusers, (s.users u).jobs =
    (s.activeJobs.filter fun p => p.user = some u).countP fun p => p.state = .running
  valid : ∀ usage busy, Event.invalidSlots usage busy ∉ s.events
  finish : ∀ e r p sp, p ∈ s.activeJobs → p.state = .running → s.jobFinished e r p.jobid = .ok sp →
    sp.busySlots = s.busySlots - p.numSlots

theorem runs_view {sp : Spool} (c : ℤ → ℤ) (sel : Option ℕ → Bool) :
    sp.view.runs c sel = (sp.activeJobs.map (Job.runs c sel)).sum := by
  show ((sp.activeJobs.map Job.strip).map (Job.runs c sel)).sum = _
  rw [List.map_map]
  rfl

theorem accounted_of_exact (hs : s.Sound) (h : s.view.Exact) : s.Accounted := by
  refine ⟨?_, fun u hu => ?_, fun u hu => ?_, h.valid, fun e r p sp hp hrun hfin => ?_⟩
  · rw [Queue.runningSlots_eq, ← runs_view]
    exact h.total
  · rw [Queue.runningSlots_own, ← runs_view]
    exact h.busy u hu
  · rw [List.countP_eq_length_filter, Queue.runningJobs_own, ← runs_view]
    exact h.jobs u hu
  · obtain ⟨p₁, p', hp₁, -, hg, hv⟩ := Spool.jobFinished_spec hfin
    obtain rfl : p = p₁ := Option.some.inj ((Spool.findjob_of_mem hs.ids hp).symm.trans hp₁)
    have hbooked := (h.booked _ (List.mem_map_of_mem hp)).allocated
    have hpos : 0 < p.strip.numSlots := h.slots _ (List.mem_map_of_mem hp)
    change 0 < p.numSlots at hpos
    have halloc : p.numAllocated = p.numSlots := by
      rw [if_pos (show p.strip.state = .running from hrun)] at hbooked
      exact hbooked
    have hbusy : sp.view.busySlots = _ := congrArg (fun v : View => v.busySlots) hv
    rw [Act.busySlots_apply (a := .finish r p p' e.maxFinished) trivial] at hbusy
    refine hbusy.trans ?_
    have hne : p.numAllocated ≠ 0 := by omega
    simp [Act.slots, Act.takes, Act.frees, Queue.freedSlots, hne, sub_eq_add_neg]

/-- **Slot accounting is exact** in every state of a run that keeps the slots. -/
theorem slot_accounting_exact (h₀ : s₀.Fresh) (h : Run (Step C) SlotsKept s₀ s) : s.Accounted :=
  accounted_of_exact (exact_run h₀ h).1 (exact_run h₀ h).2

theorem slotsKept_of_plain {l : Env × Input} (h : plainInput l s) (hroom : roomForId l s) :
    SlotsKept l s := by
  refine ⟨intsFit_of_plain h hroom, ?_⟩
  obtain ⟨e, i⟩ := l
  cases i with
  | message index m =>
    cases m with
    | newjob m => exact (of_decide_eq_true h).2.1
    | runjobOk ofilename pid => trivial
    | endjob r => trivial
    | _ => cases h
  | accept socket uid => trivial
  | schedule => trivial
  | _ => cases h

/-- A job of one slot runs, and one slot is counted. -/
theorem one_slot_accounted : ∃ s : Server, s.busySlots = 1 ∧ s.Accounted := by
  obtain ⟨s, hr, hbusy⟩ := exists_run plainConfig (fun l s => plainInput l s ∧ roomForId l s) started
    (fun s => s.busySlots = 1)
    [(world 1, .accept 5 1000), (world 2, .message 0 (.newjob {})), (world 3, .schedule)]
    (by simp [world]) (by decide +kernel)
  exact ⟨s, of_decide_eq_true hbusy,
    slot_accounting_exact fresh_started (hr.mono fun l s h => slotsKept_of_plain h.1 h.2)⟩

/-- No job asks for a negative number of slots. -/
def SlotsNonneg (l : Env × Input) (_ : Server) : Prop :=
  (match l.2 with
    | .message _ (.newjob m) => 0 ≤ m.numSlots
    | _ => true) = true

instance : ∀ l s, Decidable (SlotsNonneg l s) := fun _ _ => inferInstanceAs (Decidable (_ = true))

/-- A job runs, the server is started again and takes the job over, and the job ends: its slot stays
in `busy_slots`. -/
theorem restart_breaks_accounting :
    ¬∀ (C : Config) (s₀ s : Server), s₀.Fresh → Run (Step C) SlotsNonneg s₀ s → s.Accounted := by
  intro hall
  obtain ⟨s, hr, hs⟩ := exists_run plainConfig SlotsNonneg started
    (fun s => s.busySlots = 1 ∧ s.activeJobs.length = 0)
    [(world 1, .accept 5 1000), (world 2, .message 0 (.newjob {})), (world 3, .schedule),
      (world 4, .message 0 (.runjobOk none 100)), (world 5, .restart), (world 6, .accept 5 1000),
      (world 7, .message 0 (.reconnect 1000 100)),
      (world 8, .message 0 (.endjob { realSec := 3 }))]
    (by simp [world]) (by decide +kernel)
  have hacc := (hall _ _ _ fresh_started hr).busySlots
  obtain ⟨hbusy, hnone⟩ := of_decide_eq_true hs
  rw [List.length_eq_zero_iff.1 hnone, hbusy] at hacc
  cases hacc

end Server

end TaskSpooler
