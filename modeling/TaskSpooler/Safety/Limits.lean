import TaskSpooler.Safety.Accounting
import TaskSpooler.Server.Roster

/-!
# Slot limits

The running jobs never use more slots than there are, and no user more than his limit, as long as
nobody is given slots without a test and the sums fit into an `int` (`slot_limits_respected`).  Two requests do that: `RESUME_USER`
starts the paused jobs of a user whatever has been started in the meantime, and when root continues
a job, the limit of root is tested and not that of the owner.  `resume_exceeds_limits` is a run with
three slots in use where there are two.
-/

namespace TaskSpooler

/-! ### Limits of a queue -/

/-- The counters are upper bounds, and the running jobs are within the limits. -/
structure View.Within (v : View) : Prop where
  booked : v.Booked
  slots : ∀ p ∈ v.activeJobs, 0 ≤ p.numSlots
  total : v.runs id anyone ≤ v.busySlots
  busy : ∀ u < v.nusers, v.runs id (only u) ≤ (v.users u).busy
  maxSlots : v.runs id anyone ≤ v.maxSlots
  limit : ∀ u < v.nusers, (v.users u).maxSlots ≠ 0 →
    v.runs id (only u) ≤ (v.users u).maxSlots.natAbs

namespace Act

variable {v : View} {a : Act} {sel : Option ℕ → Bool}

theorem runs_nonneg {p : Job} (h : 0 ≤ p.numSlots) : 0 ≤ p.runs id sel := by
  rw [Job.runs]
  split_ifs
  · exact h
  · exact le_refl 0

/-- A sum of slots grows at most by what a move adds to the counter. -/
theorem runs_apply_le (hids : v.Ids) (hb : v.Booked) (hslots : ∀ p ∈ v.activeJobs, 0 ≤ p.numSlots)
    (hg : a.Guard v) :
    (a.apply v).runs id sel ≤ v.runs id sel + if sel a.owner then a.slots else 0 := by
  by_cases hdel : ∃ p, a = delete p
  · obtain ⟨p, rfl⟩ := hdel
    rw [View.runs, View.runs, sum_apply Job.plainFn_runs hids hg]
    have hp : 0 ≤ p.runs id sel := runs_nonneg
      (of_old (P := fun p => 0 ≤ p.numSlots) (fun _ => rfl) hg hslots (p := p) rfl)
    simp only [new, old, Option.elim_none, Option.elim_some, slots, takes, frees]
    split_ifs <;> omega
  · rw [runs_apply hids hb (fun _ _ _ => rfl) hg fun p h => absurd ⟨p, h⟩ hdel, slots_eq_change]

theorem runs_anyone_apply_le (hids : v.Ids) (hb : v.Booked)
    (hslots : ∀ p ∈ v.activeJobs, 0 ≤ p.numSlots) (hg : a.Guard v) :
    (a.apply v).runs id anyone ≤ v.runs id anyone + a.slots :=
  runs_apply_le hids hb hslots hg

theorem runs_only_apply_le (hids : v.Ids) (hb : v.Booked)
    (hslots : ∀ p ∈ v.activeJobs, 0 ≤ p.numSlots) (hg : a.Guard v) (u : ℕ) :
    (a.apply v).runs id (only u) ≤
      v.runs id (only u) + if a.owner = some u then a.slots else 0 := by
  have h : (a.apply v).runs id (only u) ≤ v.runs id (only u) + _ := runs_apply_le hids hb hslots hg
  simpa only [only, decide_eq_true_eq] using h

theorem slots_nonpos (hslots : ∀ p ∈ v.activeJobs, 0 ≤ p.numSlots) (hg : a.Guard v)
    (htakes : a.takes = none) : a.slots ≤ 0 := by
  cases hf : a.frees with
  | none => exact (slots_of_none htakes hf).le
  | some p =>
    have hold : a.old v = some p := by
      cases a <;> simp only [frees, reduceCtorEq, Option.some.injEq] at hf
      case pause | abnormal | finish => exact congrArg some hf
      all_goals
        split_ifs at hf
        exact hf
    have hp : 0 ≤ p.numSlots := of_old (P := fun p => 0 ≤ p.numSlots) (fun _ => rfl) hg hslots hold
    rw [slots_of_frees hf, Queue.freedSlots]
    split_ifs <;> omega

/-- A move that takes slots takes them for the owner of its job. -/
theorem owner_of_takes {p : Job} (hg : a.Guard v) (h : a.takes = some p) : a.owner = p.user := by
  cases a with
  | start x =>
    cases h
    rfl
  | dispatch uid x q =>
    cases h
    exact hg.2.2.2.1.symm
  | _ => cases h

/-- The limits of the users survive every move. -/
theorem limit_apply (hg : a.Guard v) {u : ℕ} (hu : u < v.nusers) :
    ((a.apply v).users u).maxSlots.natAbs = (v.users u).maxSlots.natAbs := by
  by_cases hl : a.Local
  · rw [users_apply hl hg]
    split_ifs <;> rfl
  · cases a with
    | recount =>
      rw [recount_toQueue]
      rfl
    | users us n => exact (hg.2.2.1 u hu).2.2.2
    | _ => exact absurd trivial hl

theorem maxSlots_apply : (a.apply v).maxSlots = match a with
    | maxSlots n => n
    | _ => v.maxSlots :=
  congrArg (fun l => l.2.1) limits_apply

end Act

namespace View.Within

variable {v : View} {a : Act}

/-- There is room for the slots of a job. -/
def Room (v : View) (p : Job) : Prop :=
  v.runs id anyone + p.numSlots ≤ v.maxSlots ∧
    ∀ u < v.nusers, p.user = some u → (v.users u).maxSlots ≠ 0 →
      v.runs id (only u) + p.numSlots ≤ (v.users u).maxSlots.natAbs

/-- `next_run_job` starts a job only where there is room. -/
theorem room_of_dispatch {uid : ℕ} {p : Job} {q : Queue} (h : v.Within)
    (hg : (Act.dispatch uid p q).Guard v) : Room v p := by
  obtain ⟨-, -, -, hpu, huid, hfits, -⟩ := hg
  simp only [Queue.fits, decide_eq_true_eq] at hfits
  obtain ⟨htotal, huser⟩ := hfits
  refine ⟨?_, fun u hu hown hlim => ?_⟩
  · have hruns := h.total
    omega
  · obtain rfl := Option.some.inj (hpu.symm.trans hown)
    have hruns := h.busy uid hu
    omega

/-- The running jobs alone stay within the limits, whatever the counters say. -/
theorem runs_apply (hids : v.Ids) (h : v.Within) (hg : a.Guard v)
    (hroom : ∀ p, a.takes = some p → Room v p) :
    (a.apply v).runs id anyone ≤ v.maxSlots ∧
      ∀ u < v.nusers, (v.users u).maxSlots ≠ 0 →
        (a.apply v).runs id (only u) ≤ (v.users u).maxSlots.natAbs := by
  have hall := Act.runs_anyone_apply_le hids h.booked h.slots hg
  have hone := Act.runs_only_apply_le hids h.booked h.slots hg
  have hmax := h.maxSlots
  cases htakes : a.takes with
  | none =>
    have hneg := Act.slots_nonpos h.slots hg htakes
    refine ⟨by omega, fun u hu hlim => (hone u).trans ?_⟩
    have hu := h.limit u hu hlim
    split_ifs <;> omega
  | some p =>
    obtain ⟨htotal, huser⟩ := hroom p htakes
    have hslots := Act.slots_of_takes htakes
    refine ⟨by omega, fun u hu hlim => (hone u).trans ?_⟩
    rw [Act.owner_of_takes hg htakes, hslots]
    split_ifs with hown
    · exact huser u hu hown hlim
    · exact (add_zero _).trans_le (h.limit u hu hlim)

/-- No job of a user that has just been added runs. -/
theorem runs_new_apply (hids : v.Ids) (h : v.Within) (hg : a.Guard v) {u : ℕ}
    (hold : v.nusers ≤ u) (hu : u < (a.apply v).nusers) : (a.apply v).runs id (only u) ≤ 0 := by
  have hone := Act.runs_only_apply_le hids h.booked h.slots hg u
  have hno : a.owner ≠ some u := by
    intro ho
    have hn : (a.apply v).nusers = _ := congrArg (fun l => l.1) Act.limits_apply
    cases a with
    | users us n => cases ho
    | _ => exact absurd (hu.trans_eq hn) (Nat.not_lt.2 hold)
  rw [if_neg hno, runs_of_le h.booked hold] at hone
  omega

/-- The counters stay above the running jobs. -/
theorem counters_apply (hids : v.Ids) (h : v.Within) (hg : a.Guard v) :
    (a.apply v).runs id anyone ≤ (a.apply v).busySlots ∧
      ∀ u < (a.apply v).nusers, (a.apply v).runs id (only u) ≤ ((a.apply v).users u).busy := by
  by_cases hl : a.Local
  · refine ⟨?_, fun u hu => ?_⟩
    · have hall := Act.runs_anyone_apply_le hids h.booked h.slots hg
      have htotal := h.total
      rw [Act.busySlots_apply hl]
      omega
    · have hone := Act.runs_only_apply_le hids h.booked h.slots hg u
      have hbusy := h.busy u (Act.nusers_apply (v := v) hl ▸ hu)
      rw [Act.users_apply hl hg]
      split_ifs at hone ⊢
      · simp only [User.bump]
        omega
      · omega
  · cases a with
    | recount =>
      obtain ⟨htotal, hbusy, -, hact, -⟩ := recount_counters v
      have hsame : ∀ c sel, (Act.recount.apply v).runs c sel = v.runs c sel := by
        intro c sel
        rw [View.runs, View.runs, hact]
      refine ⟨?_, fun u hu => ?_⟩
      · rw [hsame, htotal]
      · rw [hsame, hbusy]
    | users us n =>
      obtain ⟨hn, -, hold, hnew⟩ := hg
      refine ⟨h.total, fun u hu => ?_⟩
      by_cases hu' : u < v.nusers
      · exact (h.busy u hu').trans_eq (hold u hu').1.symm
      · have hzero : v.runs id (only u) = 0 := runs_of_le h.booked (by omega) _
        exact hzero.trans_le (hnew u hu (by omega)).1.symm.le
    | _ => exact absurd trivial hl

/-- **The limits are kept** by a move, if a job is started only where there is room for it. -/
theorem apply (hids : v.Ids) (h : v.Within) (hg : a.Guard v)
    (hsubmit : ∀ p ds n m q, a = .submit p ds n m q → 0 ≤ m.numSlots)
    (hreuse : ∀ old p ds m q, a = .reuse old p ds m q → 0 ≤ m.numSlots)
    (hmax : ∀ n, a = .maxSlots n → v.maxSlots ≤ n)
    (hstart : ∀ p, a = .start p → v.runs id anyone + p.numSlots ≤ v.maxSlots ∧
      ∀ u < v.nusers, p.user = some u → (v.users u).maxSlots ≠ 0 →
        v.runs id (only u) + p.numSlots ≤ (v.users u).maxSlots.natAbs) : (a.apply v).Within := by
  have hslots : ∀ p ∈ (a.apply v).activeJobs, 0 ≤ p.numSlots := by
    refine Act.forall_fixed_apply (fun _ => rfl) hids hg h.slots ?_ ?_
    · rintro p ds n m q rfl
      obtain ⟨-, -, -, -, -, -, -, hm, -, -⟩ := hg
      exact hm ▸ hsubmit p ds n m q rfl
    · rintro old p ds m q rfl
      obtain ⟨-, -, -, -, -, hm, -, -⟩ := hg
      exact hm ▸ hreuse old p ds m q rfl
  have hmaxle : v.maxSlots ≤ (a.apply v).maxSlots := by
    rw [Act.maxSlots_apply]
    cases a with
    | maxSlots n => exact hmax n rfl
    | _ => exact le_refl _
  have hroom : ∀ p, a.takes = some p → Room v p := by
    intro p htakes
    cases a with
    | start x =>
      cases htakes
      exact hstart p rfl
    | dispatch uid x q =>
      cases htakes
      exact h.room_of_dispatch hg
    | _ => cases htakes
  obtain ⟨htotal, hbusy⟩ := h.counters_apply hids hg
  obtain ⟨hall, hone⟩ := h.runs_apply hids hg hroom
  refine ⟨Act.booked_apply hids h.booked hg, hslots, htotal, hbusy, hall.trans hmaxle,
    fun u hu hlim => ?_⟩
  by_cases hold : u < v.nusers
  · have habs := Act.limit_apply hg hold
    rw [habs]
    exact hone u hold (by omega)
  · exact (h.runs_new_apply hids hg (Nat.not_lt.1 hold) hu).trans (by omega)

end View.Within

/-! ### What may be running after a step -/

/-- The slots of some of the jobs of some users in a view. -/
def View.load (v : View) (P : Job → Bool) (sel : Option ℕ → Bool) : ℤ :=
  (v.activeJobs.map (Job.load P sel)).sum

section Load

variable {v : View} {a : Act} {P : Job → Bool} {sel : Option ℕ → Bool} {p : Job}

theorem Job.load_nonneg (h : 0 ≤ p.numSlots) : 0 ≤ p.load P sel := by
  rw [Job.load]
  split_ifs
  · exact h
  · exact le_refl 0

/-- A job that may run and does not run yet has its slots reserved. -/
theorem View.runs_add_le_load (hrun : ∀ p : Job, p.state = .running → P p)
    (hslots : ∀ p ∈ v.activeJobs, 0 ≤ p.numSlots) (hp : v.Has p) (hP : P p.strip)
    (hsel : sel p.user) (hst : p.state ≠ .running) :
    v.runs id sel + p.numSlots ≤ v.load P sel := by
  have hsum := sum_map_add_le (l := v.activeJobs) (f := Job.runs id sel) (g := Job.load P sel)
    (a := p.strip) (fun x hx => ?_) hp.mem
  · have hr : p.strip.runs id sel = 0 := Job.runs_of_ne hst
    have hl : p.strip.load P sel = p.numSlots := by
      rw [Job.load, if_pos ⟨hP, hsel⟩]
      rfl
    rw [hr, hl, sub_zero] at hsum
    exact hsum
  · by_cases hx' : x.state = .running
    · simp [Job.runs, Job.load, hx', hrun x hx']
    · rw [Job.runs_of_ne hx']
      exact Job.load_nonneg (hslots x hx)

theorem Act.load_apply_le (hP : PlainFn P) (hids : v.Ids) (hg : a.Guard v)
    (hle : (a.new v).elim 0 (Job.load P sel) ≤ (a.old v).elim 0 (Job.load P sel)) :
    (a.apply v).load P sel ≤ v.load P sel := by
  have hw : PlainFn (Job.load P sel) := fun p => by
    simp only [Job.load, hP p]
    rfl
  rw [View.load, View.load, sum_apply hw hids hg]
  omega

/-- A job that keeps its place among those looked at keeps its share. -/
theorem Act.load_new_le {p' : Job} (hfix : p'.fixed = p.fixed) (hPP : P p' → P p)
    (hslots : 0 ≤ p.numSlots) : p'.load P sel ≤ p.load P sel := by
  have huser := congrArg Job.user hfix
  have hnum := congrArg Job.numSlots hfix
  change p'.user = p.user at huser
  change p'.numSlots = p.numSlots at hnum
  simp only [Job.load, huser, hnum]
  split_ifs with h₁ h₂ h₂
  · exact le_refl _
  · exact absurd ⟨hPP h₁.1, h₁.2⟩ h₂
  · exact hslots
  · exact le_refl _

/-- The slots of the jobs looked at do not grow by a move that adds none to them. -/
theorem Act.load_le (hP : PlainFn P) (hids : v.Ids) (hg : a.Guard v)
    (hslots : ∀ p ∈ v.activeJobs, 0 ≤ p.numSlots)
    (hsubmit : ∀ p ds n m q, a ≠ submit p ds n m q) (hreuse : ∀ old p ds m q, a ≠ reuse old p ds m q)
    (hkeep : ∀ p p', a.old v = some p → a.new v = some p' → P p' → P p) :
    (a.apply v).load P sel ≤ v.load P sel := by
  refine load_apply_le hP hids hg ?_
  cases hold : a.old v with
  | none =>
    cases hnew : a.new v with
    | none => exact le_refl _
    | some p' =>
      obtain ⟨ds, n, m, q, rfl⟩ := new_of_old_none hold hnew
      exact absurd rfl (hsubmit p' ds n m q)
  | some p =>
    have hp : 0 ≤ p.numSlots :=
      of_old (P := fun p => 0 ≤ p.numSlots) (fun _ => rfl) hg hslots hold
    cases hnew : a.new v with
    | none => exact Job.load_nonneg hp
    | some p' => exact load_new_le (fixed_new hold hnew hreuse) (hkeep p p' hold hnew) hp

end Load

namespace Server

variable {e : Env} {s s' s₀ : Server} {C : Config} {K : View → Prop}

theorem targeted_of_targets {user u : ℕ} {jobid : ℤ} (h : s.Targets user jobid u) :
    s.targeted user jobid (some u) := by
  unfold Spool.Targets at h
  unfold targeted
  split at h <;> simp_all

/-- The jobs that run after `RESUME_USER`. -/
def runsAfterResume (s : Server) (user : ℕ) (jobid : ℤ) (p : Job) : Bool :=
  p.state = .running ∨ s.resumed user jobid p

/-- The limit of a suspended user is negative, and `next_run_job` subtracts his counter from it. -/
def LimitsFit (s : Server) (i : Input) : Prop :=
  ∀ u < s.nusers, (s.users u).maxSlots < 0 ∨ s.Suspends i u →
    (s.users u).maxSlots.natAbs + (s.users u).busy ≤ intMax

/-- The number of slots is never lowered, no job asks for a negative number of them, the two requests
that start jobs without a test of the owner's limit find room for them, and the numbers fit into an
`int`. -/
def LimitsKept (l : Env × Input) (s : Server) : Prop :=
  (IntsFit l s ∧ s.LimitsFit l.2) ∧
  match l.2 with
  | .message _ (.newjob m) => 0 ≤ m.numSlots
  | .message index (.request (.setMaxSlots n)) => (s.clientCs index).user = 0 → s.maxSlots ≤ n
  | .message index (.request .refreshUsers) => (s.clientCs index).user = 0 →
      s.maxSlots ≤ Spool.slotsAfter l.1.userFile s.maxSlots
  | .message index (.request (.resumeUser jobid)) =>
    let P := s.runsAfterResume (s.clientCs index).user jobid
    s.load P anyone ≤ s.maxSlots ∧
      ∀ u < s.nusers, (s.users u).maxSlots ≠ 0 → s.load P (only u) ≤ (s.users u).maxSlots.natAbs
  | .message index (.request (.contJob jobid)) =>
    ∀ u < s.nusers, u ≠ (s.clientCs index).user → (s.findjob jobid).any (fun p => p.user = some u) →
      (s.users u).maxSlots ≠ 0 →
      s.load (s.runsAfterCont l.1 jobid) (only u) ≤ (s.users u).maxSlots.natAbs
  | .restart => False
  | _ => True

theorem load_view {P : Job → Bool} {sel : Option ℕ → Bool} (hP : PlainFn P) :
    s.view.load P sel = s.load P sel := by
  show ((s.activeJobs.map Job.strip).map (Job.load P sel)).sum = _
  rw [List.map_map]
  refine congrArg List.sum (List.map_congr_left fun p _ => ?_)
  have hstrip : P p.strip = P p := by
    rw [← hP p.strip, ← hP p]
    rfl
  simp only [Function.comp_apply, Job.load, hstrip]
  rfl

theorem within_usage_move {late : Job → Prop} {w : View} {a : Act} (hids : w.Ids) (h : w.Within)
    (ha : a.ofUsage e late) (hg : a.Guard w) : (a.apply w).Within := by
  refine h.apply hids hg ?_ ?_ ?_ ?_
  all_goals
    intros
    subst_vars
    obtain ha | ha | ha := ha
    · exact ha.elim
    · cases ha
    · exact ha.1.elim

/-! ### The requests that start jobs -/

/-- The two bounds of `LimitsKept` for `RESUME_USER`. -/
def ResumeRoom (P : Job → Bool) (w : View) : Prop :=
  w.load P anyone ≤ w.maxSlots ∧
    ∀ u < w.nusers, (w.users u).maxSlots ≠ 0 → w.load P (only u) ≤ (w.users u).maxSlots.natAbs

theorem load_of_le {v : View} {P : Job → Bool} (hb : v.Booked) {u : ℕ} (hu : v.nusers ≤ u) :
    v.load P (only u) = 0 := by
  refine List.sum_eq_zero fun x hx => ?_
  obtain ⟨p, hp, rfl⟩ := List.mem_map.1 hx
  obtain ⟨u', hu', hpu⟩ := (hb p hp).owner
  have hne : u' ≠ u := by omega
  simp [Job.load, only, hpu, hne]

theorem ResumeRoom.apply {P : Job → Bool} {w : View} {a : Act} (hb : w.Booked) (h : ResumeRoom P w)
    (hg : a.Guard w) (hmax : ∀ n, a ≠ .maxSlots n)
    (hle : ∀ sel, (a.apply w).load P sel ≤ w.load P sel) : ResumeRoom P (a.apply w) := by
  have hm : (a.apply w).maxSlots = w.maxSlots := by
    rw [Act.maxSlots_apply]
    cases a with
    | maxSlots n => exact absurd rfl (hmax n)
    | _ => rfl
  refine ⟨(hle _).trans (h.1.trans_eq hm.symm), fun u hu hlim => ?_⟩
  by_cases hu' : u < w.nusers
  · have habs := Act.limit_apply hg hu'
    rw [habs]
    exact (hle _).trans (h.2 u hu' (by omega))
  · have hzero := load_of_le (P := P) hb (u := u) (by omega)
    exact (hle _).trans (hzero.trans_le (by omega))

theorem plainFn_runsAfterResume {user : ℕ} {jobid : ℤ} :
    PlainFn (s.runsAfterResume user jobid) := fun _ => rfl

theorem plainFn_runsAfterCont {jobid : ℤ} : PlainFn (s.runsAfterCont e jobid) := fun _ => rfl

/-- `RESUME_USER` keeps the limits, if there is room for all the jobs it starts. -/
theorem resume_within {index : ℕ} {jobid : ℤ} {a : Act} {w : View} (hids : w.Ids) (h : w.Within)
    (hroom : ResumeRoom (s.runsAfterResume (s.clientCs index).user jobid) w)
    (hg : a.Guard w)
    (ha : s.Does K e (.message index (.request (.resumeUser jobid))) a w) :
    (a.apply w).Within ∧
      ResumeRoom (s.runsAfterResume (s.clientCs index).user jobid) (a.apply w) := by
  have hsubmit : ∀ p ds n m q, a ≠ .submit p ds n m q := by
    rintro p ds n m q rfl
    obtain ⟨_, _, h, -⟩ := ha.submit
    cases h
  have hreuse : ∀ old p ds m q, a ≠ .reuse old p ds m q := by
    rintro old p ds m q rfl
    obtain ⟨_, h, -⟩ := ha.reuse
    cases h
  have hmax : ∀ n, a ≠ .maxSlots n := by
    rintro n rfl
    obtain ⟨_, -, h | ⟨h, -⟩⟩ := ha.maxSlots <;> cases h
  have hstart : ∀ p, a = .start p →
      p.state = .pause ∧ s.runsAfterResume (s.clientCs index).user jobid p.strip := by
    rintro p rfl
    obtain ⟨_, h, -⟩ | ⟨_, _, u, h, hu, ht⟩ := ha.start
    · cases h
    · cases h
      refine ⟨hg.2.1, ?_⟩
      simp only [runsAfterResume, resumed, decide_eq_true_eq]
      exact .inr ⟨hg.2.1, hg.2.2, by
        rw [show p.strip.user = some u from hu]
        exact targeted_of_targets ht⟩
  refine ⟨h.apply hids hg (fun p ds n m q h => absurd h (hsubmit p ds n m q))
    (fun old p ds m q h => absurd h (hreuse old p ds m q)) (fun n h => absurd h (hmax n)) ?_, ?_⟩
  · rintro p rfl
    obtain ⟨hst, hP⟩ := hstart p rfl
    have hne : p.state ≠ .running := by simp [hst]
    have hrun : ∀ p : Job, p.state = .running → s.runsAfterResume (s.clientCs index).user jobid p :=
      fun p hp => by simp [runsAfterResume, hp]
    refine ⟨?_, fun u hu hpu hlim => ?_⟩
    · exact (View.runs_add_le_load hrun h.slots hg.1 hP rfl hne).trans hroom.1
    · exact (View.runs_add_le_load hrun h.slots hg.1 hP (by simp [only, hpu]) hne).trans
        (hroom.2 u hu hlim)
  · refine hroom.apply h.booked hg hmax fun sel => ?_
    refine Act.load_le plainFn_runsAfterResume hids hg h.slots hsubmit hreuse
      fun p p' hold hnew hP => ?_
    -- only a start changes a job, and the job was counted before
    cases a with
    | start p₀ =>
      cases hold
      exact (hstart p rfl).2
    | delete p₀ => cases hnew
    | _ =>
      obtain ha | ⟨-, p₁, h, -⟩ := ha
      · first | exact ha.elim | cases hnew
      · cases h

/-- The bound of `LimitsKept` for `CONT`: about the owner of the job, if he is not the one who
asks. -/
def ContRoom (s : Server) (user : ℕ) (jobid : ℤ) (P : Job → Bool) (w : View) : Prop :=
  (∀ p ∈ w.activeJobs, p.jobid = jobid → (s.findjob jobid).any fun x => x.user = p.user) ∧
  ∀ u < w.nusers, u ≠ user → (s.findjob jobid).any (fun p => p.user = some u) →
    (w.users u).maxSlots ≠ 0 → w.load P (only u) ≤ (w.users u).maxSlots.natAbs

theorem ContRoom.apply {user : ℕ} {jobid : ℤ} {P : Job → Bool} {w : View} {a : Act} (hids : w.Ids)
    (hb : w.Booked) (h : ContRoom s user jobid P w) (hg : a.Guard w)
    (hsubmit : ∀ p ds n m q, a ≠ .submit p ds n m q)
    (hreuse : ∀ old p ds m q, a ≠ .reuse old p ds m q)
    (hle : ∀ sel, (a.apply w).load P sel ≤ w.load P sel) :
    ContRoom s user jobid P (a.apply w) := by
  refine ⟨Act.forall_fixed_apply (fun _ => rfl) hids hg h.1
    (fun p ds n m q h => absurd h (hsubmit p ds n m q))
    (fun old p ds m q h => absurd h (hreuse old p ds m q)), fun u hu hne hown hlim => ?_⟩
  by_cases hu' : u < w.nusers
  · have habs := Act.limit_apply hg hu'
    rw [habs]
    exact (hle _).trans (h.2 u hu' hne hown (by omega))
  · have hzero := load_of_le (P := P) hb (u := u) (by omega)
    exact (hle _).trans (hzero.trans_le (by omega))

theorem cont_within {index : ℕ} {jobid : ℤ} {a : Act} {w : View} (hids : w.Ids) (h : w.Within)
    (hroom : ContRoom s (s.clientCs index).user jobid (s.runsAfterCont e jobid) w)
    (hg : a.Guard w)
    (ha : s.Does K e (.message index (.request (.contJob jobid))) a w) :
    (a.apply w).Within ∧
      ContRoom s (s.clientCs index).user jobid (s.runsAfterCont e jobid) (a.apply w) := by
  have hsubmit : ∀ p ds n m q, a ≠ .submit p ds n m q := by
    rintro p ds n m q rfl
    obtain ⟨_, _, h, -⟩ := ha.submit
    cases h
  have hreuse : ∀ old p ds m q, a ≠ .reuse old p ds m q := by
    rintro old p ds m q rfl
    obtain ⟨_, h, -⟩ := ha.reuse
    cases h
  have hmax : ∀ n, a ≠ .maxSlots n := by
    rintro n rfl
    obtain ⟨_, -, h | ⟨h, -⟩⟩ := ha.maxSlots <;> cases h
  have hcont : ∀ {p : Job}, p.jobid = jobid → s.runsAfterCont e jobid p := by
    intro p hp
    simp [runsAfterCont, hp]
  refine ⟨h.apply hids hg (fun p ds n m q h => absurd h (hsubmit p ds n m q))
    (fun old p ds m q h => absurd h (hreuse old p ds m q)) (fun n h => absurd h (hmax n)) ?_, ?_⟩
  · rintro p rfl
    obtain ⟨_, hi, howner, hmaxs, hlims⟩ | ⟨_, _, _, h, -⟩ := ha.start
    · cases hi
      have hne : p.state ≠ .running := by simp [hg.2.1]
      refine ⟨?_, fun u hu hpu hlim => ?_⟩
      · have := h.total
        omega
      · -- the owner's limit was tested with the job counted, the others' jobs do not change
        by_cases hself : u = (s.clientCs index).user
        · subst hself
          have := h.busy _ hu
          omega
        · have hown := hroom.1 _ hg.1.mem rfl
          refine (View.runs_add_le_load (P := s.runsAfterCont e p.jobid) (fun p hp => ?_) h.slots
            hg.1 (hcont rfl) (by simp [only, hpu]) hne).trans (hroom.2 u hu hself ?_ hlim)
          · simp [runsAfterCont, hp]
          · rw [show p.strip.user = some u from hpu] at hown
            exact hown
    · cases h
  · refine hroom.apply hids h.booked hg hsubmit hreuse fun sel => ?_
    refine Act.load_le plainFn_runsAfterCont hids hg h.slots hsubmit hreuse
      fun p p' hold hnew hP => ?_
    cases a with
    | unlock p₀ | wall p₀ w₀ | start p₀ =>
      cases hold
      obtain ha | ⟨-, p₁, h, -⟩ := ha
      · exact hcont ha.1
      · cases h
    | delete p₀ => cases hnew
    | _ =>
      obtain ha | ⟨-, p₁, h, -⟩ := ha
      · exact ha.elim
      · cases h

/-- What a recount does to the slots of the jobs that may run. -/
theorem load_usage_le {late : Job → Prop} {P : Job → Bool} (sel : Option ℕ → Bool) {a : Act}
    {w : View} (hP : PlainFn P) (hids : w.Ids) (hslots : ∀ p ∈ w.activeJobs, 0 ≤ p.numSlots)
    (hlate : ∀ p, late p → ∀ x, P x) (ha : a.ofUsage e late) (hg : a.Guard w) :
    (∀ p ds n m q, a ≠ .submit p ds n m q) ∧ (∀ old p ds m q, a ≠ .reuse old p ds m q) ∧
    (∀ n, a ≠ .maxSlots n) ∧ (a.apply w).load P sel ≤ w.load P sel := by
  have hsubmit : ∀ p ds n m q, a ≠ .submit p ds n m q := by
    rintro p ds n m q rfl
    obtain ha | ha | ha := ha
    · exact ha.elim
    · cases ha
    · exact ha.1.elim
  have hreuse : ∀ old p ds m q, a ≠ .reuse old p ds m q := by
    rintro old p ds m q rfl
    obtain ha | ha | ha := ha
    · exact ha.elim
    · cases ha
    · exact ha.1.elim
  have hmax : ∀ n, a ≠ .maxSlots n := by
    rintro n rfl
    obtain ha | ha | ha := ha
    · exact ha.elim
    · cases ha
    · exact ha.1.elim
  refine ⟨hsubmit, hreuse, hmax, ?_⟩
  refine Act.load_le hP hids hg hslots hsubmit hreuse fun p p' _ hnew _ => ?_
  obtain ha | rfl | ⟨-, p₀, hp₀⟩ := ha
  · obtain ⟨p₀, rfl, hp₀⟩ | ⟨r, p₀, p₁, max, rfl, -⟩ | ⟨l, rfl⟩ | ⟨l, rfl⟩ := Act.ofSweep_cases ha
    · exact hlate p₀ hp₀ p
    · cases hnew
    · cases hnew
    · cases hnew
  · cases hnew
  · exact hlate p₀ hp₀ p

/-! ### Runs -/

/-- The steps that start no jobs apart from those that are scheduled. -/
theorem other_within {i : Input} {a : Act} {w : View} (hok : LimitsKept (e, i) s)
    (hcont : ∀ index jobid, i ≠ .message index (.request (.contJob jobid)))
    (hres : ∀ index jobid, i ≠ .message index (.request (.resumeUser jobid)))
    (hids : w.Ids) (h : w.Within) (hmax : ∀ n w', s.Does K e i (.maxSlots n) w' → w.maxSlots ≤ n)
    (hg : a.Guard w) (ha : s.Does K e i a w) : (a.apply w).Within := by
  refine h.apply hids hg ?_ ?_ ?_ ?_
  · rintro p ds n m q rfl
    obtain ⟨index, next, rfl, -⟩ := ha.submit
    exact hok.2
  · rintro old p ds m q rfl
    obtain ⟨index, rfl, -⟩ := ha.reuse
    exact hok.2
  · rintro n rfl
    exact hmax n w ha
  · rintro p rfl
    obtain ⟨index, rfl, -⟩ | ⟨index, jobid, u, rfl, -⟩ := ha.start
    · exact absurd rfl (hcont index p.jobid)
    · exact absurd rfl (hres index jobid)

/-- A step changes the number of slots to one value at most. -/
theorem does_maxSlots_unique {i : Input} {n n' : ℤ} {w w' : View}
    (h : s.Does K e i (.maxSlots n) w) (h' : s.Does K e i (.maxSlots n') w') : n = n' := by
  obtain ⟨index, -, rfl | ⟨rfl, rfl⟩⟩ := h.maxSlots
  · obtain ⟨index', -, h | ⟨h, -⟩⟩ := h'.maxSlots
    · cases h
      rfl
    · cases h
  · obtain ⟨index', -, h | ⟨-, rfl⟩⟩ := h'.maxSlots
    · cases h
    · rfl

/-- A step with `CONT`. -/
theorem within_cont_step {index : ℕ} {jobid : ℤ} (hs : s.Sound) (hv : s.view.Within)
    (hok : LimitsKept (e, .message index (.request (.contJob jobid))) s)
    (hen : s.Enabled (.message index (.request (.contJob jobid))))
    (h : s.step e (.message index (.request (.contJob jobid))) = .ok s') : s'.view.Within := by
  have hcourse := step_course (K := fun _ => True) hs hen (by simp) (fun _ _ => trivial) h
  refine (hcourse.toMoves.invariant (I := fun w => w.Ids ∧ w.Within ∧
    ContRoom s (s.clientCs index).user jobid (s.runsAfterCont e jobid) w)
    ⟨hs.ids, hv, ?_, ?_⟩ fun {w a} hI ha hg => ?_).2.1
  · intro p' hp' hid
    obtain ⟨p, hp, rfl⟩ := List.mem_map.1 hp'
    have hfind := Spool.findjob_of_mem hs.ids hp
    rw [show p.jobid = jobid from hid] at hfind
    rw [hfind]
    simp [Job.strip]
  · intro u hu hne hown hlim
    rw [load_view plainFn_runsAfterCont]
    exact hok.2 u hu hne hown hlim
  · obtain ⟨hids, hw, hroom⟩ := hI
    obtain ha | ha := ha
    · exact ⟨Act.ids_apply hids hg, cont_within hids hw hroom hg ha⟩
    · -- a job of the recount: if one has run too long, there is room for all of them
      have hany : ∀ p, s.Late e p → ∀ x, s.runsAfterCont e jobid x := by
        intro p hp x
        have hany : s.activeJobs.any (Spool.timedOut e) = true :=
          List.any_eq_true.2 ⟨p, hp.1, hp.2⟩
        simp [runsAfterCont, hany]
      have hload := fun sel => load_usage_le sel plainFn_runsAfterCont hids hw.slots
        hany ha hg
      exact ⟨Act.ids_apply hids hg, within_usage_move hids hw ha hg,
        hroom.apply hids hw.booked hg (hload anyone).1 (hload anyone).2.1
          fun sel => (hload sel).2.2.2⟩

/-- A step with `RESUME_USER`. -/
theorem within_resume_step {index : ℕ} {jobid : ℤ} (hs : s.Sound) (hv : s.view.Within)
    (hok : LimitsKept (e, .message index (.request (.resumeUser jobid))) s)
    (hen : s.Enabled (.message index (.request (.resumeUser jobid))))
    (h : s.step e (.message index (.request (.resumeUser jobid))) = .ok s') : s'.view.Within := by
  have hcourse := step_course (K := fun _ => True) hs hen (by simp) (fun _ _ => trivial) h
  refine (hcourse.toMoves.invariant (I := fun w => w.Ids ∧ w.Within ∧
    ResumeRoom (s.runsAfterResume (s.clientCs index).user jobid) w)
    ⟨hs.ids, hv, ?_, ?_⟩ fun {w a} hI ha hg => ?_).2.1
  · rw [load_view plainFn_runsAfterResume]
    exact hok.2.1
  · intro u hu hlim
    rw [load_view plainFn_runsAfterResume]
    exact hok.2.2 u hu hlim
  · obtain ⟨hids, hw, hroom⟩ := hI
    obtain ha | ha := ha
    · exact ⟨Act.ids_apply hids hg, resume_within hids hw hroom hg ha⟩
    · have hload := fun sel => load_usage_le sel
        (P := s.runsAfterResume (s.clientCs index).user jobid) plainFn_runsAfterResume hids
        hw.slots (fun p hp x => hp.elim) ha hg
      exact ⟨Act.ids_apply hids hg, within_usage_move hids hw ha hg,
        hroom.apply hw.booked hg (hload anyone).2.2.1 fun sel => (hload sel).2.2.2⟩

/-- Any other step: what is left to watch is `max_slots`. -/
theorem within_other_step {i : Input} (hs : s.Sound) (hv : s.view.Within) (hok : LimitsKept (e, i) s)
    (hcont : ∀ index jobid, i ≠ .message index (.request (.contJob jobid)))
    (hres : ∀ index jobid, i ≠ .message index (.request (.resumeUser jobid)))
    (hi : i ≠ .restart) (hen : s.Enabled i) (h : s.step e i = .ok s') : s'.view.Within := by
  have hcourse := step_course (K := fun _ => True) hs hen hi (fun _ _ => trivial) h
  have hfirst : ∀ n w', s.Does (fun _ => True) e i (.maxSlots n) w' → s.maxSlots ≤ n := by
    intro n w' ha
    obtain ⟨index, hu, rfl | ⟨rfl, rfl⟩⟩ := ha.maxSlots
    · exact hok.2 hu
    · exact hok.2 hu
  refine (hcourse.toMoves.invariant (I := fun w => w.Ids ∧ w.Within ∧
    ∀ n w', s.Does (fun _ => True) e i (.maxSlots n) w' → w.maxSlots ≤ n)
    ⟨hs.ids, hv, hfirst⟩ fun {w a} hI ha hg => ?_).2.1
  obtain ⟨hids, hw, hmax⟩ := hI
  refine ⟨Act.ids_apply hids hg, ?_, fun n w' hn => ?_⟩
  · obtain ha | ha := ha
    · exact other_within hok hcont hres hids hw hmax hg ha
    · exact within_usage_move hids hw ha hg
  · rw [Act.maxSlots_apply]
    cases a with
    | maxSlots n₀ =>
      -- a step sets `max_slots` to one number only
      obtain ha | ha := ha
      · exact (does_maxSlots_unique ha hn).le
      · obtain ha | ha | ha := ha
        · exact ha.elim
        · cases ha
        · exact ha.1.elim
    | _ => exact hmax n w' hn

theorem within_step {l : Env × Input} (hs : s.Sound) (hv : s.view.Within) (hok : LimitsKept l s)
    (h : Step C s l s') : s'.view.Within := by
  obtain ⟨e, i⟩ := l
  obtain ⟨-, hen, h⟩ := h
  by_cases hcont : ∃ index jobid, i = .message index (.request (.contJob jobid))
  · obtain ⟨index, jobid, rfl⟩ := hcont
    exact within_cont_step hs hv hok hen h
  · by_cases hres : ∃ index jobid, i = .message index (.request (.resumeUser jobid))
    · obtain ⟨index, jobid, rfl⟩ := hres
      exact within_resume_step hs hv hok hen h
    · have hi : i ≠ .restart := by
        rintro rfl
        exact hok.2
      exact within_other_step hs hv hok (fun index jobid heq => hcont ⟨index, jobid, heq⟩)
        (fun index jobid heq => hres ⟨index, jobid, heq⟩) hi hen h

theorem Fresh.within (h : s.Fresh) : s.view.Within := by
  have hact := h.view_activeJobs
  have hzero : ∀ c sel, s.view.runs c sel = 0 := by
    intro c sel
    rw [View.runs, hact]
    rfl
  refine ⟨?_, ?_, (hzero _ _).trans_le h.busySlots.symm.le,
    fun u hu => (hzero _ _).trans_le (h.counters u hu).1.symm.le,
    (hzero _ _).trans_le h.maxSlots.le, fun u _ _ => (hzero _ _).trans_le (by omega)⟩
  · rw [View.Booked, hact]
    exact fun p hp => absurd hp List.not_mem_nil
  · rw [hact]
    exact fun p hp => absurd hp List.not_mem_nil

/-- The running jobs are within the limits of the server and of the users; a suspended user has the
negative of his limit in `max_slots`. -/
def InLimits (s : Server) : Prop :=
  Queue.runningSlots s.activeJobs ≤ s.maxSlots ∧
  ∀ u < s.nusers, (s.users u).maxSlots ≠ 0 →
    Queue.runningSlots (s.activeJobs.filter fun p => p.user = some u) ≤
      (s.users u).maxSlots.natAbs

/-- **Slot limits are never exceeded** in a run that keeps the limits. -/
theorem slot_limits_respected (h₀ : s₀.Fresh) (h : Run (Step C) LimitsKept s₀ s) : s.InLimits := by
  have hI := h.invariant (I := fun s => s.Sound ∧ s.view.Within) ⟨h₀.sound, h₀.within⟩
    fun hI hok hst => ⟨hst.sound hI.1, within_step hI.1 hI.2 hok hst⟩
  refine ⟨?_, fun u hu hlim => ?_⟩
  · rw [Queue.runningSlots_eq, ← runs_view]
    exact hI.2.maxSlots
  · rw [Queue.runningSlots_own, ← runs_view]
    exact hI.2.limit u hu hlim

/-- There is room for another id, and no limit is too large. -/
def roomForInts (l : Env × Input) (s : Server) : Prop :=
  roomForId l s ∧ ∀ u < s.nusers, (s.users u).maxSlots.natAbs + (s.users u).busy ≤ intMax

instance : ∀ l s, Decidable (roomForInts l s) := fun l s =>
  inferInstanceAs (Decidable (roomForId l s ∧ ∀ u < s.nusers, _ ≤ _))

theorem limitsKept_of_plain {l : Env × Input} (h : plainInput l s) (hroom : roomForInts l s) :
    LimitsKept l s := by
  refine ⟨⟨intsFit_of_plain h hroom.1, fun u hu _ => hroom.2 u hu⟩, ?_⟩
  obtain ⟨e, i⟩ := l
  cases i with
  | message index m =>
    cases m with
    | newjob m => exact (of_decide_eq_true h).2.1.le
    | runjobOk ofilename pid => trivial
    | endjob r => trivial
    | _ => cases h
  | accept socket uid => trivial
  | schedule => trivial
  | _ => cases h

/-- Two jobs of one slot run on two slots. -/
theorem two_jobs_in_limits : ∃ s : Server, Queue.runningSlots s.activeJobs = 2 ∧ s.InLimits := by
  obtain ⟨s, hr, hrun⟩ := exists_run plainConfig (fun l s => plainInput l s ∧ roomForInts l s) started
    (fun s => Queue.runningSlots s.activeJobs = 2)
    [(world 1, .accept 5 1000), (world 2, .message 0 (.newjob {})),
      (world 3, .accept 6 1000), (world 4, .message 1 (.newjob {})), (world 5, .schedule)]
    (by simp [world]) (by decide +kernel)
  exact ⟨s, of_decide_eq_true hrun,
    slot_limits_respected fresh_started (hr.mono fun l s h => limitsKept_of_plain h.1 h.2)⟩

/-- The number of slots is never lowered, no job asks for a negative number of them, and the server
is not restarted. -/
def NeverLowered (l : Env × Input) (s : Server) : Prop :=
  (match l.2 with
    | .message _ (.newjob m) => 0 ≤ m.numSlots
    | .message _ (.request (.setMaxSlots n)) => s.maxSlots ≤ n
    | .message _ (.request .refreshUsers) => s.maxSlots ≤ Spool.slotsAfter l.1.userFile s.maxSlots
    | .restart => false
    | _ => true) = true

instance : ∀ l s, Decidable (NeverLowered l s) := fun _ _ => inferInstanceAs (Decidable (_ = true))

/-- A job on two slots is held, another one takes the slots, and `RESUME_USER` starts the first one
again. -/
theorem resume_exceeds_limits :
    ¬∀ (C : Config) (s₀ s : Server), s₀.Fresh → Run (Step C) NeverLowered s₀ s → s.InLimits := by
  intro hall
  obtain ⟨s, hr, hs⟩ := exists_run plainConfig NeverLowered started
    (fun s => Queue.runningSlots s.activeJobs = 4 ∧ s.maxSlots = 2)
    [(world 1, .accept 5 1000), (world 2, .message 0 (.newjob { numSlots := 2 })),
      (world 3, .schedule), (world 4, .message 0 (.runjobOk none 100)), (world 5, .accept 6 1000),
      (world 6, .message 1 (.request (.holdJob 1000))), (world 7, .accept 6 1000),
      (world 8, .message 1 (.newjob { numSlots := 2 })), (world 9, .schedule),
      (world 10, .accept 7 1000), (world 11, .message 2 (.request (.resumeUser 0)))]
    (by simp [world]) (by decide +kernel)
  have hlim := (hall _ _ _ fresh_started hr).1
  obtain ⟨hrun, hmax⟩ := of_decide_eq_true hs
  omega

end Server

end TaskSpooler
