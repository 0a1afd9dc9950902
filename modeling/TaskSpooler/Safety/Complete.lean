import TaskSpooler.Safety.Dispatch
import TaskSpooler.Sched.States

/-!
# What the scheduler leaves behind

`next_run_job` skips a user whose counter `user->queue` is zero.  It misses no job as long as the
counter is never smaller than the number of the jobs of the user that wait, in the queue or for
another turn after a timeout (`View.Attended`).  Every recount establishes this and every move
keeps it, with one exception: `s_requeue_job` puts a started job back to wait and does not count it.

Hence in a run without such a requeue the scheduler returns and leaves no job that could be started
(`scheduler_complete`).  A requeued job can be left behind (`requeued_job_left`).
-/

namespace TaskSpooler

/-! ### Jobs that wait for another turn -/

namespace Job

variable {u : ℕ} {p : Job}

/-- `1` for a job of the user that waits for another turn.  A job that was given up does so as soon
as it is paused. -/
def retries (u : ℕ) (p : Job) : ℤ :=
  if p.user = some u ∧ p.wallTime < 0 ∧ (p.state = .pause ∨ p.state = .abnormal) then 1 else 0

/-- `1` for a job of the user that `next_run_job` may have to start. -/
def awaits (u : ℕ) (p : Job) : ℤ := p.waits u + p.retries u

theorem retries_nonneg (u : ℕ) (p : Job) : 0 ≤ p.retries u := by
  unfold retries
  split_ifs <;> omega

theorem retries_of_ne (hp : p.state ≠ .pause) (ha : p.state ≠ .abnormal) : p.retries u = 0 := by
  simp [retries, hp, ha]

theorem retries_of_nonneg (hw : 0 ≤ p.wallTime) : p.retries u = 0 := by
  simp [retries, not_lt.2 hw]

theorem awaits_nonneg (u : ℕ) (p : Job) : 0 ≤ p.awaits u :=
  add_nonneg (p.waits_nonneg u) (p.retries_nonneg u)

theorem awaits_le_idles (u : ℕ) (p : Job) : p.awaits u ≤ p.idles u := by
  have hwait := p.waits_le_idles u
  by_cases hr : p.user = some u ∧ p.wallTime < 0 ∧ (p.state = .pause ∨ p.state = .abnormal)
  · obtain ⟨hu, -, hst⟩ := hr
    have hzero : p.waits u = 0 := by
      obtain hst | hst := hst <;> exact waits_of_ne (by simp [hst]) (by simp [hst])
    have hidle : p.idles u = 1 := by
      obtain hst | hst := hst <;> simp [idles, hu, hst]
    rw [awaits, hzero, hidle, retries]
    split_ifs <;> omega
  · rw [awaits, retries, if_neg hr]
    omega

end Job

/-- Every job has a process only if it was started, and runs with a wall time that is not
negative. -/
structure View.Timed (v : View) : Prop where
  proper : v.Proper
  running : ∀ p ∈ v.activeJobs, p.state = .running → 0 ≤ p.wallTime

/-- `user->queue` counts at least the jobs of the user that do not run. -/
def View.Counted (v : View) : Prop :=
  ∀ u < v.nusers, (v.activeJobs.map (Job.idles u)).sum ≤ (v.users u).queue

/-- `user->queue` counts at least the jobs of the user that `next_run_job` may have to start. -/
structure View.Attended (v : View) : Prop extends v.Timed where
  owner : ∀ p ∈ v.activeJobs, ∃ u < v.nusers, p.user = some u
  queue : ∀ u < v.nusers, (v.activeJobs.map (Job.awaits u)).sum ≤ (v.users u).queue

namespace Act

variable {v : View} {a : Act} {p : Job}

/-- The move makes no wall time negative. -/
def Lasting (a : Act) : Prop := ∀ p w, a = .wall p w → 0 ≤ w ∨ p.wallTime < 0

theorem timed_new (ht : v.Timed) (hg : a.Guard v)
    (hwall : ∀ p w, a = .wall p w → p.state = .running → 0 ≤ w ∨ p.wallTime < 0)
    (hnew : a.new v = some p) : p.state = .running → 0 ≤ p.wallTime := by
  have hold : ∀ {p}, a.old v = some p → p.state = .running → 0 ≤ p.wallTime :=
    fun h => of_old (P := fun p => p.state = .running → 0 ≤ p.wallTime) (fun _ => rfl) hg ht.running h
  intro hst
  cases a with
  | wall p w =>
    cases hnew
    exact (hwall p w rfl hst).resolve_right (not_lt.2 (hold rfl hst))
  | start p =>
    cases hnew
    exact Int.natCast_nonneg _
  | dispatch uid p q =>
    cases hnew
    exact Int.natCast_nonneg _
  | pid p n =>
    cases hnew
    exact hold (p := p) rfl hst
  | relegate p requeue =>
    cases hnew
    split_ifs at hst <;> cases hst
  | submit p ds n m q =>
    cases hnew
    obtain h | h := hg.2.2.2.1 <;> rw [h] at hst <;> cases hst
  | reuse old p ds m q =>
    cases hnew
    obtain ⟨-, -, -, -, -, -, -, hstate, -⟩ := hg
    simp only [Job.setState] at hst
    obtain h | h | h := hstate <;> simp [h] at hst
  | reconnect p st socket =>
    simp only [new] at hnew
    split_ifs at hnew with hsome
    cases hnew
    have hproper : p.Proper :=
      of_old (v := v) (a := .reconnect p st socket) plainFn_proper hg ht.proper (by simp [old, hsome])
    have hsame := hg.2.2
    rw [if_neg hproper.state.2] at hsame
    exact hold (p := p) (by simp [old, hsome]) (hsame ▸ hst)
  | pause p | abnormal p | asleep uid p q | wake p | lock p | unlock p | gone p =>
    cases hnew
    cases hst
  | _ => cases hnew

theorem timed_apply (hids : v.Ids) (ht : v.Timed) (hg : a.Guard v)
    (hwall : ∀ p w, a = .wall p w → p.state = .running → 0 ≤ w ∨ p.wallTime < 0) :
    (a.apply v).Timed where
  proper := proper_apply hids ht.proper hg
  running := forall_apply (P := fun p => p.state = .running → 0 ≤ p.wallTime) (fun _ => rfl) hids hg
    ht.running fun _ => timed_new ht hg hwall

/-- Only a timeout or a requeue makes a job wait for another turn. -/
theorem retries_change (ht : v.Timed) (hg : a.Guard v) (hrel : ∀ p requeue, a ≠ .relegate p requeue)
    (hlast : a.Lasting) (u : ℕ) :
    (a.new v).elim 0 (Job.retries u) - (a.old v).elim 0 (Job.retries u) ≤ 0 := by
  have hz : ∀ p : Job, 0 - p.retries u ≤ 0 := fun p => by
    have := p.retries_nonneg u
    omega
  have hrun : ∀ p, a.old v = some p → p.state = .running → 0 ≤ p.wallTime := fun p h =>
    of_old (P := fun p => p.state = .running → 0 ≤ p.wallTime) (fun _ => rfl) hg ht.running h
  have hproper : ∀ p, a.old v = some p → p.Proper := fun p h => of_old plainFn_proper hg ht.proper h
  cases a with
  | pause p =>
    simp only [new, old, Option.elim_some]
    obtain hst | hst | hst := (hproper p rfl).started hg.2.1
    · have hnew : (p.freed.setState .pause).retries u = 0 :=
        Job.retries_of_nonneg (hrun p rfl hst)
      rw [hnew]
      exact hz p
    · exact absurd hst hg.2.2.2.2
    · have hsame : (p.freed.setState .pause).retries u = p.retries u := by
        simp [Job.retries, Job.setState, Job.freed, hst]
      rw [hsame, sub_self]
  | relegate p requeue => exact absurd rfl (hrel p requeue)
  | abnormal p =>
    have hnew : (p.freed.setState .abnormal).retries u = 0 :=
      Job.retries_of_nonneg (hrun p rfl hg.2.1)
    simp only [new, old, Option.elim_some, hnew]
    exact hz p
  | wall p w =>
    simp only [new, old, Option.elim_some]
    obtain hw | hw := hlast p w rfl
    · rw [Job.retries_of_nonneg (p := p.setWallTime w) hw]
      exact hz p
    · have hle : (p.setWallTime w).retries u ≤ p.retries u := by
        rw [Job.retries, Job.retries]
        split_ifs with hnew hold
        · exact le_rfl
        · exact absurd ⟨hnew.1, hw, hnew.2.2⟩ hold
        · exact zero_le_one
        · exact le_rfl
      omega
  | asleep uid p q =>
    -- a queued job has no process that could be asleep
    obtain ⟨-, -, -, -, -, -, hst, -, hpid⟩ := hg
    exact absurd ((hproper p rfl).pid_eq (by simp [Job.Started, hst])) hpid.ne'
  | start p | dispatch uid p q | wake p | lock p | unlock p | gone p =>
    simp only [new, old, Option.elim_some]
    rw [Job.retries_of_ne (by simp [Job.started, Job.setState, Job.gone])
      (by simp [Job.started, Job.setState, Job.gone])]
    exact hz p
  | submit p ds n m q =>
    have hst := hg.2.2.2.1
    simp only [new, old, Option.elim_some, Option.elim_none]
    rw [Job.retries_of_ne (by obtain h | h := hst <;> simp [h]) (by obtain h | h := hst <;> simp [h])]
    exact le_refl _
  | reuse p₀ p ds m q =>
    obtain ⟨-, -, -, -, -, -, -, hstate, -⟩ := hg
    simp only [new, old, Option.elim_some]
    rw [Job.retries_of_ne (by obtain h | h | h := hstate <;> simp [Job.setState, h])
      (by obtain h | h | h := hstate <;> simp [Job.setState, h])]
    exact hz p₀
  | pid p n => simp [new, old, Job.retries, Job.setPid]
  | reconnect p st socket =>
    simp only [new, old]
    by_cases hf : (v.findjob p.jobid).isSome
    · have hst := hg.2.2
      rw [if_neg (hproper p (by simp [old, hf])).state.2] at hst
      simp [hf, Job.retries, Job.reconnected, hst]
    · simp [hf]
  | finish r p p' max | drop p shelf | delete p =>
    simp only [new, old, Option.elim_some, Option.elim_none]
    exact hz p
  | _ => simp [new, old]

theorem awaits_change (ht : v.Timed) (hg : a.Guard v) (hrel : ∀ p requeue, a ≠ .relegate p requeue)
    (hlast : a.Lasting) : a.Counts Job.awaits v := by
  intro u
  have hwait := waits_change hg u
  have hretry := retries_change ht hg hrel hlast u
  have hsum : ∀ o : Option Job,
      o.elim 0 (Job.awaits u) = o.elim 0 (Job.waits u) + o.elim 0 (Job.retries u) := by
    intro o
    cases o with
    | none => rfl
    | some p => rfl
  rw [hsum, hsum]
  omega

end Act

/-- **A move keeps the count**, if it neither relegates a job nor makes a wall time negative. -/
theorem View.Attended.apply {v : View} {a : Act} (hids : v.Ids) (h : v.Attended) (hg : a.Guard v)
    (hrel : ∀ p requeue, a ≠ .relegate p requeue) (hlast : a.Lasting) : (a.apply v).Attended where
  toTimed := Act.timed_apply hids h.toTimed hg fun p w heq _ => hlast p w heq
  owner := Act.owner_apply hids hg h.owner
  queue := Act.counted_apply (fun _ _ => rfl) Job.awaits_le_idles hids h.owner hg
    (Act.awaits_change h.toTimed hg hrel hlast) h.queue

theorem View.Counted.attended {v : View} (h : v.Counted) (ht : v.Timed)
    (howner : ∀ p ∈ v.activeJobs, ∃ u < v.nusers, p.user = some u) : v.Attended where
  toTimed := ht
  owner := howner
  queue := fun u hu => (List.sum_le_sum fun p _ => p.awaits_le_idles u).trans (h u hu)

/-! ### Recounts -/

/-- The scheduler takes the jobs that it starts from the count. -/
theorem Act.idles_change {e : Env} {v : View} {a : Act} (ht : v.Timed) (ha : a.ofSchedule e)
    (hg : a.Guard v) : a.Counts Job.idles v := by
  intro u
  obtain ⟨uid, p, q, rfl, -⟩ | ⟨uid, p, q, rfl, -⟩ | ⟨p, rfl⟩ := ofSchedule_cases ha
  · obtain ⟨-, -, -, huser, -, -, -, -, ⟨hst, -⟩ | ⟨hst, -⟩⟩ := hg
    · by_cases hu : uid = u
      · simp [new, old, owner, queue, Job.idles, Job.started, hst, huser, hu]
      · simp [new, old, owner, Job.idles, Job.started, hst, huser, hu]
    · by_cases hu : uid = u
      · simp [new, old, owner, queue, Job.idles, Job.started, hst, huser, hu]
      · simp [new, old, owner, Job.idles, Job.started, hst, huser, hu]
  · have hproper : p.Proper := of_old (v := v) (a := .asleep uid p q) plainFn_proper hg ht.proper rfl
    obtain ⟨-, -, -, -, -, -, hst, -, hpid⟩ := hg
    exact absurd (hproper.pid_eq (by simp [Job.Started, hst])) hpid.ne'
  · simp [new, old, owner, Job.idles, Job.setState, hg.2]

theorem Act.ofSchedule.lasting {e : Env} {a : Act} (ha : a.ofSchedule e) : a.Lasting := by
  rintro p w rfl
  exact ha.elim

theorem Act.ofSchedule.ne_relegate {e : Env} {a : Act} (ha : a.ofSchedule e) (p : Job)
    (requeue : Bool) : a ≠ .relegate p requeue := by
  rintro rfl
  exact ha

/-- **A recount counts every job that does not run.** -/
theorem View.Timed.usage {e : Env} {late : Job → Prop} {v v' : View} (hids : v.Ids) (ht : v.Timed)
    (howner : ∀ p ∈ v.activeJobs, ∀ u, p.user = some u → u < v.nusers) (h : Usage e late v v') :
    v'.Timed ∧ (∀ p ∈ v'.activeJobs, ∃ u < v'.nusers, p.user = some u) ∧ v'.Counted := by
  obtain ⟨v₁, h₁, hg, h₂⟩ := h
  obtain ⟨hids₁, ht₁, howner₁⟩ := h₁.invariant
    (I := fun w => w.Ids ∧ w.Timed ∧ ∀ p ∈ w.activeJobs, ∀ u, p.user = some u → u < w.nusers)
    ⟨hids, ht, howner⟩ fun {w a} hI ha hg => by
      have hwall : ∀ p n, a = .wall p n → p.state = .running → 0 ≤ n ∨ p.wallTime < 0 := by
        rintro p n rfl
        exact ha.elim
      exact ⟨Act.ids_apply hI.1 hg, Act.timed_apply hI.1 hI.2.1 hg hwall,
        Spool.user_lt_usage hI.1 (.inl ha) hg hI.2.2⟩
  have hcount := View.queued_recount hg howner₁
  refine (h₂.invariant (I := fun w => w.Ids ∧ w.Timed ∧
    (∀ p ∈ w.activeJobs, ∃ u < w.nusers, p.user = some u) ∧ w.Counted)
    ⟨Act.ids_apply hids₁ hg, ?_, hcount.owner, fun u _ => Act.sum_recount (fun _ _ => le_rfl) u⟩
    fun {w a} hI ha hg => ?_).2
  · exact Act.timed_apply hids₁ ht₁ hg fun p n heq => by cases heq
  · obtain ⟨hids, ht, howner, hcount⟩ := hI
    exact ⟨Act.ids_apply hids hg, Act.timed_apply hids ht hg fun p n heq _ => ha.1.lasting p n heq,
      Act.owner_apply hids hg howner, Act.counted_apply (fun _ _ => rfl) (fun _ _ => le_rfl) hids
        howner hg (Act.idles_change ht ha.1 hg) hcount⟩

theorem View.Attended.usage {e : Env} {late : Job → Prop} {v v' : View} (hids : v.Ids)
    (h : v.Attended) (hu : Usage e late v v') : v'.Attended ∧ v'.Counted := by
  obtain ⟨ht, howner, hcount⟩ := h.toTimed.usage hids (fun p hp u hu => by
    obtain ⟨u', hlt, hu'⟩ := h.owner p hp
    obtain rfl := Option.some.inj (hu'.symm.trans hu)
    exact hlt) hu
  exact ⟨hcount.attended ht howner, hcount⟩

/-- After a recount a wall time may be made negative. -/
theorem View.Counted.wall {v : View} {p : Job} {w : ℤ} (hids : v.Ids) (h : v.Attended)
    (hcount : v.Counted) (hg : (Act.wall p w).Guard v) (hrun : p.state ≠ .running) :
    ((Act.wall p w).apply v).Attended := by
  have hsame : (Act.wall p w).Counts Job.idles v := fun u => by
    simp [Act.new, Act.old, Act.owner, Job.idles, Job.setWallTime]
  have hcount' : ((Act.wall p w).apply v).Counted :=
    Act.counted_apply (fun _ _ => rfl) (fun _ _ => le_rfl) hids h.owner hg hsame hcount
  refine hcount'.attended (Act.timed_apply hids h.toTimed hg ?_) (Act.owner_apply hids hg h.owner)
  rintro p' w' heq hst
  cases heq
  exact absurd hst hrun

/-! ### A requeue -/

/-- What the job adds to the jobs of the user that `next_run_job` may have to start, once the job
with this id is requeued. -/
def Job.awaitsWith (jobid : ℤ) (u : ℕ) (p : Job) : ℤ :=
  (if p.jobid = jobid then p.relegated else p).awaits u

theorem Job.awaits_relegated {u : ℕ} {p : Job} :
    p.relegated.awaits u = if p.user = some u then 1 else 0 := by
  have hneg : p.relegated.wallTime < 0 := by
    show -(p.wallTime.natAbs : ℤ) - 86400 < 0
    omega
  rw [awaits, waits_of_ne (by simp [relegated]) (by simp [relegated]), retries]
  simp only [hneg, true_and, zero_add]
  simp [relegated]

theorem Job.awaitsWith_plain (jobid : ℤ) (u : ℕ) : PlainFn (Job.awaitsWith jobid u) := by
  intro p
  show (if p.jobid = jobid then p.plain.relegated else p.plain).awaits u = _
  rw [awaitsWith]
  split_ifs
  · rfl
  · rfl

theorem Job.awaits_le_awaitsWith (jobid : ℤ) (u : ℕ) (p : Job) :
    p.awaits u ≤ p.awaitsWith jobid u := by
  rw [awaitsWith]
  split_ifs
  · refine (p.awaits_le_idles u).trans ?_
    rw [awaits_relegated, idles]
    by_cases hu : p.user = some u
    · rw [if_pos hu]
      split_ifs <;> omega
    · rw [if_neg hu, if_neg fun h => hu h.1]
  · exact le_rfl

/-- `user->queue` counts the jobs of the user that wait, the one with this id among them. -/
structure View.AttendedWith (jobid : ℤ) (v : View) : Prop extends v.Timed where
  owner : ∀ p ∈ v.activeJobs, ∃ u < v.nusers, p.user = some u
  queue : ∀ u < v.nusers, (v.activeJobs.map (Job.awaitsWith jobid u)).sum ≤ (v.users u).queue

theorem View.AttendedWith.attended {jobid : ℤ} {v : View} (h : v.AttendedWith jobid) :
    v.Attended where
  toTimed := h.toTimed
  owner := h.owner
  queue := fun u hu =>
    (List.sum_le_sum fun p _ => p.awaits_le_awaitsWith jobid u).trans (h.queue u hu)

theorem View.AttendedWith.apply {v : View} {a : Act} {p : Job} (hids : v.Ids)
    (h : v.AttendedWith p.jobid) (hg : a.Guard v) (ha : a = .relegate p true ∨ ∃ l, a = .reorder l) :
    (a.apply v).AttendedWith p.jobid := by
  have hl : a.Local := by
    obtain rfl | ⟨l, rfl⟩ := ha
    · trivial
    · trivial
  have hsame : ∀ u, (a.new v).elim 0 (Job.awaitsWith p.jobid u) -
      (a.old v).elim 0 (Job.awaitsWith p.jobid u) ≤ if a.owner = some u then a.queue else 0 := by
    intro u
    obtain rfl | ⟨l, rfl⟩ := ha
    · have hnew : (if p.state = .running then p.freed.relegated else p.relegated).awaitsWith p.jobid u =
          p.awaitsWith p.jobid u := by
        have hid : (if p.state = .running then p.freed.relegated else p.relegated).jobid = p.jobid := by
          split_ifs <;> rfl
        have huser : (if p.state = .running then p.freed.relegated else p.relegated).user = p.user := by
          split_ifs <;> rfl
        rw [Job.awaitsWith, Job.awaitsWith, if_pos hid, if_pos rfl, Job.awaits_relegated,
          Job.awaits_relegated, huser]
      simp [Act.new, Act.old, Act.queue, hnew]
    · simp [Act.new, Act.old, Act.queue]
  refine ⟨Act.timed_apply hids h.toTimed hg ?_, Act.owner_apply hids hg h.owner, fun u hu => ?_⟩
  · rintro p' w rfl
    obtain heq | ⟨l, heq⟩ := ha
    · cases heq
    · cases heq
  · rw [Act.nusers_apply hl] at hu
    exact Act.counted_local (Job.awaitsWith_plain p.jobid u) hids hg hl (hsame u) (h.queue u hu)

namespace Spool

variable {e : Env} {s s' : Spool} {p : Job} {jobid : ℤ} {user : ℕ}

/-- If the request puts a job back to wait, `user->queue` is large enough to count it. -/
def RequeueCounted (s : Spool) (user : ℕ) (jobid : ℤ) : Prop :=
  ∀ p, s.findjob jobid = some p → s.ownerOrRoot user p → (p.state = .running ∨ p.state = .pause) →
    ∀ u, p.user = some u → (s.activeJobs.map (Job.awaitsWith jobid u)).sum ≤ (s.users u).queue

theorem attendedWith_of_counted (hids : s.view.Ids) (h : s.view.Attended)
    (hp : s.findjob jobid = some p)
    (hcount : ∀ u, p.user = some u →
      (s.activeJobs.map (Job.awaitsWith jobid u)).sum ≤ (s.users u).queue) :
    s.view.AttendedWith jobid where
  toTimed := h.toTimed
  owner := h.owner
  queue := fun u hu => by
    by_cases huser : p.user = some u
    · have hstrip : s.view.activeJobs.map (Job.awaitsWith jobid u) =
          s.activeJobs.map (Job.awaitsWith jobid u) := by
        show (s.activeJobs.map Job.strip).map _ = _
        rw [List.map_map]
        exact List.map_congr_left fun x _ =>
          ((Job.awaitsWith_plain jobid u x.strip).symm.trans (Job.awaitsWith_plain jobid u x))
      rw [hstrip]
      exact hcount u huser
    · -- the others do not have this job
      refine (List.sum_le_sum fun x hx => ?_).trans (h.queue u hu)
      rw [Job.awaitsWith]
      split_ifs with hid
      · have hfind : s.view.findjob x.jobid = some x := Keyed.lookup_of_mem hids.nodup hx
        rw [hid, view_findjob, hp, Option.map_some, Option.some.injEq] at hfind
        have hother : x.user ≠ some u := hfind ▸ huser
        rw [Job.awaits_relegated, if_neg hother]
        exact Job.awaits_nonneg _ _
      · exact le_rfl

/-- **`s_requeue_job` keeps the count**, if the count has room for the job. -/
theorem sRequeueJob_attended (e : Env) (socket : ℤ) (hids : s.view.Ids) (h : s.view.Attended)
    (hcount : s.RequeueCounted user jobid) :
    (s.sRequeueJob e socket jobid user).view.Attended := by
  obtain hv | ⟨p, hp, howner, hstate, hmoves⟩ := sRequeueJob_cases e s socket jobid user hids
  · rw [hv]
    exact h
  · obtain rfl := findjob_jobid hp
    have hwith := attendedWith_of_counted hids h hp (hcount p hp howner hstate)
    refine (hmoves.invariant (I := fun w => w.Ids ∧ w.AttendedWith p.jobid) ⟨hids, hwith⟩
      fun hI ha hg => ⟨Act.ids_apply hI.1 hg, hI.2.apply hI.1 hg ?_⟩).2.attended
    exact ha.imp And.left id

end Spool

/-! ### The steps of the server -/

namespace Server

variable {e : Env} {s s' s₀ : Server} {C : Config}

/-- A requeued job is counted, and there is room for another id.  A restart finds no process of a job
that was not started, and no negative wall time of one that will run. -/
def KeepsCount (l : Env × Input) (s : Server) : Prop :=
  s.RoomForId l.2 ∧
  match l.2 with
  | .message index (.request (.requeueJob jobid)) =>
    s.RequeueCounted (s.clientCs index).user jobid
  | .restart => ∀ r ∈ s.dbJobs.rows, 0 ≤ r.job.pid ∧
      (r.job.state = .queued ∨ r.job.state = .locked → r.job.pid = 0) ∧
      (r.job.state = .running → r.job.info.pauseTime ≤ 0 → 0 ≤ r.job.wallTime)
  | _ => True

theorem attended_restart (hok : KeepsCount (e, .restart) s) (h : s.step e .restart = .ok s') :
    s'.view.Attended := by
  rw [step, Except.bind_eq_ok] at h
  obtain ⟨sp, hsp, h⟩ := h
  cases h
  have hrel : Spool.Reloaded e s.toSpool (s.reload e) := Spool.reload_reloaded
  have hrow : ∀ p ∈ (s.reload e).view.activeJobs,
      p.Proper ∧ (p.state = .running → 0 ≤ p.wallTime) := by
    intro p' hp'
    obtain ⟨p, hp, rfl⟩ := List.mem_map.1 hp'
    show p.strip.Proper ∧ (p.state = .running → 0 ≤ p.wallTime)
    obtain ⟨r, hr, hfrom⟩ := hrel.restored p hp
    obtain ⟨hpid, hfree, hwall⟩ := hok.2 r hr
    have hpid' : 0 ≤ p.strip.pid := hpid.trans_eq hfrom.pid.symm
    have hzero : r.job.state = .queued ∨ r.job.state = .locked → p.strip.pid = 0 :=
      fun h => hfrom.pid.trans (hfree h)
    obtain ⟨hst, heq⟩ | ⟨hst, -, -, heq⟩ := Spool.restoredState_some hfrom.state
    · obtain hj | hj | hj := hst
      · have hp : p.state = .queued := heq.trans hj
        exact ⟨Job.proper_of_pid (by simp [Job.strip, hp]) (hzero (.inl hj)), by simp [hp]⟩
      · have hp : p.state = .locked := heq.trans hj
        exact ⟨Job.proper_of_pid (by simp [Job.strip, hp]) (hzero (.inr hj)), by simp [hp]⟩
      · have hp : p.state = .pause := heq.trans hj
        exact ⟨Job.proper_of_pause hp hpid', by simp [hp]⟩
    · split_ifs at heq with hpause
      · exact ⟨Job.proper_of_pause heq hpid', by simp [heq]⟩
      · refine ⟨Job.proper_of_running heq hpid', fun _ => ?_⟩
        rw [hfrom.wallTime]
        exact hwall hst (by omega)
  have ht : (s.reload e).view.Timed := ⟨fun p hp => (hrow p hp).1, fun p hp => (hrow p hp).2⟩
  obtain ⟨ht', howner, hcount⟩ := ht.usage hrel.ids Spool.user_lt_reload (Spool.serverMain_usage hsp)
  exact hcount.attended ht' howner

/-- `REQUEUE_JOB`, and then the connection is closed. -/
theorem attended_requeue {index : ℕ} {jobid : ℤ} (hs : s.Sound) (hv : s.view.Attended)
    (hok : s.RequeueCounted (s.clientCs index).user jobid)
    (h : s.step e (.message index (.request (.requeueJob jobid))) = .ok s') : s'.view.Attended := by
  have hview : (s.toSpool.timeoutLock e).view = s.view := Spool.view_timeoutLock e
  have hids : (s.toSpool.timeoutLock e).view.Ids := hview ▸ hs.ids
  have hok' : (s.toSpool.timeoutLock e).RequeueCounted (s.clientCs index).user jobid := by
    have hq : (s.toSpool.timeoutLock e).toQueue = s.toQueue := toQueue_timeoutLock
    rw [Spool.RequeueCounted] at hok ⊢
    simp only [Spool.ownerOrRoot, hq] at hok ⊢
    exact hok
  rw [step, clientRead, handle, handleRequest, Except.bind_eq_ok] at h
  obtain ⟨s₁, h₁, h⟩ := h
  rw [onSpoolM, Except.map_eq_ok] at h₁
  obtain ⟨sp, hsp, rfl⟩ := h₁
  cases hsp
  have hatt := Spool.sRequeueJob_attended e (s.clientCs index).socket hids (hview ▸ hv) hok'
  have hids' := (Spool.sRequeueJob_moves (K := fun _ => True) (e := e) (s.clientCs index).socket jobid
    (s.clientCs index).user hids).ids hids
  have hclose : (Request.requeueJob jobid).closes = true := rfl
  rw [if_pos hclose] at h
  refine ((removeConnection_moves h).invariant (I := fun w => w.Ids ∧ w.Attended) ⟨hids', hatt⟩
    fun {w a} hI ha hg => ?_).2
  obtain ⟨p, rfl, -⟩ := ha
  exact ⟨Act.ids_apply hI.1 hg, hI.2.apply hI.1 hg (fun p' b heq => by cases heq)
    fun p' w' heq => by cases heq⟩

theorem attended_step {l : Env × Input} (hs : s.Sound) (hv : s.view.Attended) (hok : KeepsCount l s)
    (h : Step C s l s') : s'.view.Attended := by
  obtain ⟨e, i⟩ := l
  obtain ⟨-, hen, h⟩ := h
  by_cases hi : i = .restart
  · subst hi
    exact attended_restart hok h
  by_cases hrel : ∃ index jobid, i = .message index (.request (.requeueJob jobid))
  · obtain ⟨index, jobid, rfl⟩ := hrel
    exact attended_requeue hs hv hok.2 h
  · have hcourse := step_course (K := View.Counted) hs hen hi
      (fun v husage => (hv.usage hs.ids husage).2) h
    refine (hcourse.invariant (I := fun w => w.Ids ∧ w.Attended) ⟨hs.ids, hv⟩ ?_ ?_).2
    · intro w a hI ha hg
      refine ⟨Act.ids_apply hI.1 hg, ?_⟩
      by_cases hwall : ∃ p n, a = .wall p n ∧ w.Counted ∧ p.state ≠ .running
      · obtain ⟨p, n, rfl, hcount, hrun⟩ := hwall
        exact hcount.wall hI.1 hI.2 hg hrun
      · refine hI.2.apply hI.1 hg ?_ ?_
        · rintro p b rfl
          obtain ⟨index, hmsg⟩ := ha.relegate
          exact hrel ⟨index, p.jobid, hmsg⟩
        · rintro p n rfl
          obtain hn | hp | hcount := ha.wall
          · exact .inl hn
          · exact .inr hp
          · exact absurd ⟨p, n, rfl, hcount⟩ hwall
    · intro w w' hI husage
      exact ⟨husage.ids hI.1, (hI.2.usage hI.1 husage).1⟩

theorem Fresh.attended (h : s.Fresh) : s.view.Attended := by
  have hnone : ∀ p, p ∉ s.view.activeJobs := by
    rw [h.view_activeJobs]
    exact fun p => List.not_mem_nil
  refine ⟨⟨fun p hp => absurd hp (hnone p), fun p hp => absurd hp (hnone p)⟩,
    fun p hp => absurd hp (hnone p), fun u hu => ?_⟩
  rw [h.view_activeJobs]
  exact (h.counters u hu).2.2.ge

theorem attended_run (h₀ : s₀.Fresh) (h : Run (Step C) KeepsCount s₀ s) :
    s.Sound ∧ s.view.Attended :=
  h.invariant (I := fun s => s.Sound ∧ s.view.Attended) ⟨h₀.sound, h₀.attended⟩
    fun hI hok hst => ⟨hst.sound hI.1, attended_step hI.1 hI.2 hok hst⟩

end Server

theorem Job.awaits_of_eligible {e : Env} {q : Queue} {u : ℕ} {p : Job} (h : q.eligible e u p) :
    p.user = some u ∧ p.awaits u = 1 := by
  simp only [Queue.eligible, decide_eq_true_eq] at h
  obtain ⟨huser, hready⟩ := h
  refine ⟨huser, ?_⟩
  obtain hq | hr := hready
  · simp only [Queue.queuedReady, decide_eq_true_eq] at hq
    rw [awaits, waits_queued huser hq.1, retries_of_ne (by simp [hq.1]) (by simp [hq.1]), add_zero]
  · simp only [Queue.retryReady, decide_eq_true_eq] at hr
    rw [awaits, waits_of_ne (by simp [hr.1]) (by simp [hr.1]), retries,
      if_pos ⟨huser, hr.2.1, .inl hr.1⟩, zero_add]

/-- Nobody is skipped who has a job that can be started. -/
theorem View.Attended.startable {e : Env} {s : Spool} {p : Job} {u : ℕ} (h : s.view.Attended)
    (hroom : 0 < s.maxSlots - s.busySlots) (hp : p ∈ s.activeJobs) (hel : s.eligible e u p) :
    s.Startable e := by
  obtain ⟨huser, hone⟩ := Job.awaits_of_eligible hel
  have hmem : p.strip ∈ s.view.activeJobs := List.mem_map_of_mem hp
  obtain ⟨u', hlt, hu'⟩ := h.owner _ hmem
  obtain rfl : u' = u := Option.some.inj (hu'.symm.trans huser)
  refine ⟨hroom, u', hlt, ?_, p, hp, hel⟩
  have hle : p.strip.awaits u' ≤ (s.view.activeJobs.map (Job.awaits u')).sum := by
    refine List.single_le_sum (fun x hx => ?_) _ (List.mem_map_of_mem hmem)
    obtain ⟨p', -, rfl⟩ := List.mem_map.1 hx
    exact p'.awaits_nonneg u'
  have hqueue : (s.view.activeJobs.map (Job.awaits u')).sum ≤ (s.users u').queue := h.queue u' hlt
  have hself : p.strip.awaits u' = 1 := hone
  omega

namespace Server

variable {e : Env} {s s' s₀ : Server} {C : Config}

/-- **The scheduler is complete.**  In a run in which every requeued job is counted, `next_run_job`
returns in every state, and if a slot is free then, no job is left that could be started. -/
theorem scheduler_complete (e : Env) (h₀ : s₀.Fresh) (h : Run (Step C) KeepsCount s₀ s) :
    ∃ s', s.nextRunJob e = .ok s' ∧ (0 < s'.maxSlots - s'.busySlots →
      ∀ p ∈ s'.activeJobs, ∀ u, ¬s'.eligible e u p) := by
  obtain ⟨hs, hv⟩ := attended_run h₀ h
  obtain ⟨s', hs'⟩ := Spool.nextRunJob_ok (e := e) hs.ids
  refine ⟨s', hs', fun hroom p hp u hel => ?_⟩
  have hend : s'.view.Attended := by
    refine ((Spool.nextRunJob_moves hs.ids hs').invariant (I := fun w => w.Ids ∧ w.Attended)
      ⟨hs.ids, hv⟩ fun hI ha hg => ⟨Act.ids_apply hI.1 hg, ?_⟩).2
    exact hI.2.apply hI.1 hg ha.ne_relegate ha.lasting
  exact Spool.nextRunLoop_settled hs' (hend.startable hroom hp hel)

theorem keepsCount_of_plain {l : Env × Input} (h : plainInput l s) (hroom : roomForId l s) :
    KeepsCount l s := by
  refine ⟨hroom, ?_⟩
  obtain ⟨e, i⟩ := l
  cases i with
  | message index m =>
    cases m with
    | request r => cases h
    | _ => trivial
  | restart => cases h
  | _ => trivial

/-- The server has a job in the queue. -/
theorem scheduler_complete_queued : ∃ s : Server, s.activeJobs ≠ [] ∧
    ∃ s', s.nextRunJob (world 3) = .ok s' ∧ (0 < s'.maxSlots - s'.busySlots →
      ∀ p ∈ s'.activeJobs, ∀ u, ¬s'.eligible (world 3) u p) := by
  obtain ⟨s, hr, hP⟩ := exists_run plainConfig (fun l s => plainInput l s ∧ roomForId l s) started
    (fun s => decide (s.activeJobs ≠ []))
    [(world 1, .accept 5 1000), (world 2, .message 0 (.newjob {}))]
    (by simp [world]) (by decide +kernel)
  exact ⟨s, of_decide_eq_true hP, scheduler_complete (world 3) fresh_started
    (hr.mono fun l s h => keepsCount_of_plain h.1 h.2)⟩

/-- The user 1000 requeues his only job while it runs.  The scheduler does not start it again. -/
theorem requeued_job_left : ¬∀ (C : Config) (s₀ s : Server) (e : Env), s₀.Fresh →
    Run (Step C) anyInput s₀ s → ∃ s', s.nextRunJob e = .ok s' ∧
      (0 < s'.maxSlots - s'.busySlots → ∀ p ∈ s'.activeJobs, ∀ u, ¬s'.eligible e u p) := by
  intro hall
  obtain ⟨s, hr, hP⟩ := exists_run plainConfig anyInput started
    (fun s => match s.nextRunJob (world 7) with
      | .ok s' => decide (0 < s'.maxSlots - s'.busySlots) &&
          s'.activeJobs.any (s'.eligible (world 7) 1)
      | .error _ => false)
    [(world 1, .accept 5 1000), (world 2, .message 0 (.newjob {})), (world 3, .schedule),
      (world 4, .message 0 (.runjobOk none 100)), (world 5, .accept 6 1000),
      (world 6, .message 1 (.request (.requeueJob 1000)))]
    (by simp [world]) (by decide +kernel)
  obtain ⟨s', hs', hleft⟩ := hall _ _ _ (world 7) fresh_started hr
  rw [hs', Bool.and_eq_true, decide_eq_true_eq] at hP
  obtain ⟨p, hp, hel⟩ := List.any_eq_true.1 hP.2
  exact hleft hP.1 p hp 1 hel

end Server

end TaskSpooler
