import TaskSpooler.Safety.Admission
import TaskSpooler.Sched.States
import TaskSpooler.Server.Causes

/-!
# Dependencies are respected

`next_run_job` takes a dependency for settled if it is neither `QUEUED` nor `RUNNING`.  A job that
is paused, locked, held or given up by the health check is neither, so a job that depends on it
starts too early (`paused_dependency_ignored`).  If no waiting job depends on such a job when
`next_run_job` runs, then every job starts after its dependencies are over
(`dependencies_respected`).
-/

namespace TaskSpooler

/-- The job is not over, and still `next_run_job` does not wait for it; a held client apart. -/
def Job.Stuck (p : Job) : Prop :=
  p.state ≠ .queued ∧ p.state ≠ .running ∧ p.state ≠ .holdingClient ∧ ¬p.Over

/-- The job waits for its start, or will do so. -/
def Job.Waits (p : Job) : Prop := p.state = .queued ∨ p.state = .holdingClient

/-- The jobs that are stuck have an id in `B`, and no waiting job depends on one of these. -/
structure Job.Clear (B : ℤ → Prop) (p : Job) : Prop where
  stuck : p.Stuck → B p.jobid
  deps : p.Waits → ∀ d ∈ p.dependOn, ¬B d

/-- The held jobs have an id in `H`, and no queued job depends on one of these. -/
structure Job.Apart (H : ℤ → Prop) (p : Job) : Prop where
  held : p.state = .holdingClient → H p.jobid
  deps : p.state = .queued → ∀ d ∈ p.dependOn, ¬H d

/-- The dependencies of a job are over, or there is no such job. -/
def Queue.DepsOver (q : Queue) (p : Job) : Prop := ∀ d ∈ p.dependOn, ∀ x, q.getJob d = some x → x.Over

/-- Every queued job that was started found its dependencies over. -/
def Respected (events : List Event) : Prop :=
  ∀ p q, Event.dispatch p q ∈ events → p.state = .queued → q.DepsOver p

/-- The move does not start a job before its dependencies are over. -/
def Act.InTime : Act → Prop
  | dispatch _ p q => p.state = .queued → q.DepsOver p
  | asleep _ _ _ => False
  | _ => True

theorem plainFn_clear (B : ℤ → Prop) : PlainFn (Job.Clear B) := fun _ =>
  propext ⟨fun h => ⟨h.stuck, h.deps⟩, fun h => ⟨h.stuck, h.deps⟩⟩

theorem plainFn_apart (H : ℤ → Prop) : PlainFn (Job.Apart H) := fun _ =>
  propext ⟨fun h => ⟨h.held, h.deps⟩, fun h => ⟨h.held, h.deps⟩⟩

namespace View

variable {v v' : View} {a : Act} {B H : ℤ → Prop} {e : Env}

/-- Every active job is clear. -/
def Clear (B : ℤ → Prop) (v : View) : Prop := ∀ p ∈ v.activeJobs, p.Clear B

/-- Every active job is apart from the held ones. -/
def Apart (H : ℤ → Prop) (v : View) : Prop := ∀ p ∈ v.activeJobs, p.Apart H

/-! ### A dispatch -/

/-- **A dispatched job finds its dependencies over.** -/
theorem depsOver_of_ready {p : Job} {q : Queue} (hq : q.strip = v.toQueue) (hset : v.Settled)
    (hc : v.Clear B) (ha : v.Apart H) (hp : v.Has p) (hst : p.state = .queued)
    (hready : v.depsReady p) : q.DepsOver p := by
  intro d hd x hx
  have hget : v.getJob d = some x.strip := by
    rw [← hq, Queue.strip_getJob, hx, Option.map_some]
  have hxready : x.state ≠ .queued ∧ x.state ≠ .running := by
    have := List.all_eq_true.1 hready d hd
    simp only [hget, decide_eq_true_eq] at this
    exact this
  have hpc : p.strip.Clear B := hc _ hp.mem
  have hpa : p.strip.Apart H := ha _ hp.mem
  rw [Queue.getJob, Option.or_eq_some_iff] at hget
  obtain hact | ⟨-, hfin⟩ := hget
  · have hmem := Keyed.mem_of_lookup hact
    have hid : x.strip.jobid = d := Keyed.key_of_lookup hact
    change x.jobid = d at hid
    by_contra hover
    by_cases hheld : x.state = .holdingClient
    · exact hpa.deps hst d hd (hid ▸ (ha _ hmem).held hheld)
    · exact hpc.deps (.inl hst) d hd (hid ▸ (hc _ hmem).stuck ⟨hxready.1, hxready.2, hheld, hover⟩)
  · exact (hset _ (Keyed.mem_of_lookup hfin)).1

theorem respected_apply (h : Respected v.events) (ha : a.InTime) :
    Respected (a.apply v).events := by
  intro p q hmem hst
  cases a with
  | dispatch uid p₀ q₀ =>
    obtain heq | hmem := List.mem_cons.1 hmem
    · cases heq
      exact ha hst
    · exact h p q hmem hst
  | asleep uid p₀ q₀ => exact ha.elim
  | submit p₀ ds n m q₀ | reuse old p₀ ds m q₀ | finish r p₀ p' max | gone p₀ | goneFinished p₀
  | delete p₀ =>
    exact h p q ((List.mem_cons.1 hmem).resolve_left (by simp)) hst
  | recount =>
    simp only [Act.apply] at hmem
    split_ifs at hmem
    · exact h p q ((List.mem_cons.1 hmem).resolve_left (by simp)) hst
    · exact h p q hmem hst
  | _ => exact h p q hmem hst

end View

namespace Act

variable {v : View} {a : Act} {B H : ℤ → Prop}

/-- The move makes a job stuck only if its id is in `B`, and brings no new waiting job. -/
def Calm (B : ℤ → Prop) : Act → Prop
  | pause p | relegate p _ | abnormal p | lock p | asleep _ p _ => B p.jobid
  | unlock _ | submit _ _ _ _ _ | reuse _ _ _ _ _ => False
  | _ => True

theorem clear_new {p : Job} (hc : v.Clear B) (hp : v.Proper) (hg : a.Guard v) (ha : a.Calm B)
    (hnew : a.new v = some p) : p.Clear B := by
  have hold : ∀ {p}, a.old v = some p → p.Clear B := fun h => of_old (plainFn_clear B) hg hc h
  cases a with
  | pause p | lock p | abnormal p | asleep uid p q =>
    cases hnew
    exact ⟨fun _ => ha, by simp [Job.Waits, Job.setState]⟩
  | relegate p requeue =>
    cases hnew
    split_ifs
    · exact ⟨fun _ => ha, by simp [Job.Waits, Job.relegated]⟩
    · exact ⟨fun _ => ha, by simp [Job.Waits, Job.relegated]⟩
  | start p | dispatch uid p q =>
    cases hnew
    exact ⟨by simp [Job.Stuck, Job.started], by simp [Job.Waits, Job.started]⟩
  | wake p =>
    have hp := hold rfl
    cases hnew
    exact ⟨by simp [Job.Stuck, Job.setState], fun _ => hp.deps (.inr hg.2)⟩
  | gone p =>
    cases hnew
    exact ⟨by simp [Job.Stuck, Job.Over, Job.gone], by simp [Job.Waits, Job.gone]⟩
  | wall p w | pid p n =>
    have hp := hold rfl
    cases hnew
    exact ⟨hp.stuck, hp.deps⟩
  | reconnect p st socket =>
    obtain ⟨hold', hsame⟩ := new_reconnect hg hnew
    have hpc := hold hold'
    rw [hsame (of_old plainFn_proper hg hp hold').state.2]
    exact ⟨hpc.stuck, hpc.deps⟩
  | unlock p | submit p ds n m q | reuse p₀ p ds m q => exact ha.elim
  | _ => cases hnew

theorem clear_apply (hids : v.Ids) (hc : v.Clear B) (hp : v.Proper) (hg : a.Guard v)
    (ha : a.Calm B) : (a.apply v).Clear B :=
  forall_apply (plainFn_clear B) hids hg hc fun _ hnew => clear_new hc hp hg ha hnew

theorem not_asleep {uid : ℕ} {p : Job} {q : Queue} (hp : v.Proper) :
    ¬(asleep uid p q).Guard v := by
  intro hg
  have hpp : p.Proper := of_old (v := v) (a := .asleep uid p q) plainFn_proper hg hp rfl
  obtain ⟨-, -, -, -, -, -, hst, -, hpid⟩ := hg
  obtain h | h | h := hpp.started hpid.ne' <;> simp [hst] at h

/-- A round of `next_run_job` holds nobody and brings nobody into the queue. -/
theorem apart_round {e : Env} (hids : v.Ids) (hp : v.Proper) (ha : v.Apart H) (hg : a.Guard v)
    (hround : a.ofRound e) : (a.apply v).Apart H := by
  refine forall_apply (plainFn_apart H) hids hg ha fun p' hnew => ?_
  cases a with
  | dispatch uid p q =>
    cases hnew
    exact ⟨by simp [Job.started], by simp [Job.started]⟩
  | asleep uid p q => exact absurd hg (not_asleep hp)
  | _ => exact hround.elim

end Act

/-! ### `next_run_job` -/

namespace View

variable {v v' : View} {a : Act} {B H : ℤ → Prop} {e : Env}

/-- What `next_run_job` needs to respect the dependencies, apart from the held clients. -/
structure Orderly (B : ℤ → Prop) (v : View) : Prop where
  ids : v.Ids
  settled : v.Settled
  proper : v.Proper
  clear : v.Clear B
  respected : Respected v.events

theorem Orderly.inTime (h : v.Orderly B) (ha : v.Apart H) (hg : a.Guard v) : a.InTime := by
  cases a with
  | dispatch uid p q =>
    intro hst
    obtain ⟨hq, hp, -, -, -, -, -, -, ⟨-, hready, -⟩ | ⟨hpause, -⟩⟩ := hg
    · exact depsOver_of_ready hq h.settled h.clear ha hp hst hready
    · rw [hst] at hpause
      cases hpause
  | asleep uid p q => exact Act.not_asleep h.proper hg
  | _ => trivial

theorem Orderly.apply (h : v.Orderly B) (hg : a.Guard v) (hcalm : a.Calm B) (htime : a.InTime) :
    (a.apply v).Orderly B :=
  ⟨Act.ids_apply h.ids hg, Act.settled_apply h.ids h.settled hg,
    Act.proper_apply h.ids h.proper hg, Act.clear_apply h.ids h.clear h.proper hg hcalm,
    respected_apply h.respected htime⟩

theorem Orderly.round (h : v.Orderly B) (ha : v.Apart H)
    (hm : Moves (fun a _ => a.ofRound e) v v') : v'.Orderly B := by
  refine (hm.invariant (I := fun w => w.Orderly B ∧ w.Apart H) ⟨h, ha⟩ fun {w a} hI hround hg => ?_).1
  refine ⟨hI.1.apply hg ?_ (hI.1.inTime hI.2 hg), Act.apart_round hI.1.ids hI.1.proper hI.2 hg hround⟩
  cases a with
  | dispatch uid p q => trivial
  | asleep uid p q => exact absurd hg (Act.not_asleep hI.1.proper)
  | _ => exact hround.elim

theorem Orderly.wake (h : v.Orderly B) (hm : Moves (fun a _ => ∃ p, a = .wake p) v v') :
    v'.Orderly B := by
  refine hm.invariant h fun {w a} h ha hg => ?_
  obtain ⟨p, rfl⟩ := ha
  exact h.apply hg trivial trivial

end View

namespace Spool

variable {e : Env} {s s' : Spool} {B H : ℤ → Prop}

/-- **`next_run_job` respects the dependencies** if no waiting job depends on a stuck one. -/
theorem respected_nextRunLoop {fuel : ℕ} (hs : s.view.Orderly B) (ha : s.view.Apart H)
    (hid : -1 ∉ s.activeJobs.map Job.jobid) (h : nextRunLoop e fuel s = .ok s') :
    s'.view.Orderly B := by
  induction fuel generalizing s H with
  | zero => cases h
  | succ fuel ih =>
    rw [nextRunLoop] at h
    split_ifs at h
    · cases h
      exact hs
    · rw [Except.bind_eq_ok] at h
      obtain ⟨⟨s₁, found⟩, h₁, h⟩ := h
      have hround := round_moves hs.ids (fun i hi => List.mem_range.1 hi) h₁
      have hs₁ := hs.round ha hround
      dsimp only at h
      split_ifs at h
      · have hs₂ : s₁.wakeAllHeldClients.view.Orderly B := hs₁.wake (wakeHeld_moves _ hs₁.ids)
        have hid₁ : -1 ∉ s₁.activeJobs.map Job.jobid := by
          rw [← ids_view] at hid ⊢
          exact fun hmem => hid (hround.ids_of_round hs.ids hmem)
        obtain ⟨hzero, hids⟩ := held_wakeAll (nodup_of_ids hs₁.ids) hid₁
        refine ih (H := fun _ => False) hs₂ (fun p hp => ⟨fun hst => ?_, fun _ _ _ h => h⟩)
          (hids ▸ hid₁) h
        -- nobody is held any more
        rw [← held_view, List.countP_eq_zero] at hzero
        exact hzero p hp (decide_eq_true hst)
      · cases h
        exact hs₁

end Spool

/-! ### The recounts of a request -/

namespace View

variable {v v' : View} {a : Act} {B : ℤ → Prop} {e : Env} {late : Job → Prop}

/-- The jobs with a process have an id in `B`. -/
def PidsIn (B : ℤ → Prop) (v : View) : Prop := ∀ p ∈ v.activeJobs, p.pid ≠ 0 → B p.jobid

/-- No waiting job depends on a job in `B`, and all jobs that `next_run_job` does not wait for are
in `B`. -/
structure Guarded (B : ℤ → Prop) (v : View) : Prop extends Orderly B v where
  held : ∀ p ∈ v.activeJobs, p.state = .holdingClient → B p.jobid

theorem Guarded.apart (h : v.Guarded B) : v.Apart B := fun p hp =>
  ⟨h.held p hp, fun hst => (h.clear p hp).deps (.inl hst)⟩

theorem Guarded.apply (h : v.Guarded B) (hg : a.Guard v) (hcalm : a.Calm B) :
    (a.apply v).Guarded B := by
  refine ⟨h.toOrderly.apply hg hcalm (h.inTime h.apart hg), ?_⟩
  have hP : PlainFn fun p : Job => p.state = .holdingClient → B p.jobid := fun _ => rfl
  refine Act.forall_apply hP h.ids hg h.held fun p hnew => ?_
  have hold : ∀ {p}, a.old v = some p → p.state = .holdingClient → B p.jobid := fun hold =>
    Act.of_old hP hg h.held hold
  cases a with
  | wall p w | pid p n =>
    have hp := hold rfl
    cases hnew
    exact hp
  | relegate p requeue =>
    cases hnew
    split_ifs <;> simp [Job.relegated]
  | reconnect p st socket =>
    obtain ⟨hold', hsame⟩ := Act.new_reconnect hg hnew
    have hp := hold hold'
    rw [hsame (Act.of_old plainFn_proper hg h.proper hold').state.2]
    exact hp
  | unlock p | submit p ds n m q | reuse p₀ p ds m q => exact hcalm.elim
  | pause p | abnormal p | start p | dispatch uid p q | asleep uid p q | wake p | lock p | gone p =>
    cases hnew
    simp [Job.setState, Job.started, Job.gone]
  | _ => cases hnew

theorem PidsIn.apply (hids : v.Ids) (h : v.PidsIn B) (hg : a.Guard v) (hpid : ∀ p n, a ≠ .pid p n) :
    (a.apply v).PidsIn B :=
  Act.pids_apply (P := fun k _ => B k) hids hg hpid h

/-- **A recount respects the dependencies** if every job that it pauses is in `B`. -/
theorem Guarded.usage (h : v.Guarded B) (hlate : (∀ p, late p → B p.jobid) ∨ v.PidsIn B)
    (hu : Usage e late v v') : v'.Guarded B ∧ (v.PidsIn B → v'.PidsIn B) := by
  have hinv := hu.moves.invariant (I := fun w => w.Guarded B ∧ (v.PidsIn B → w.PidsIn B))
    ⟨h, id⟩ fun {w a} hI ha hg => ?_
  · exact hinv
  · have hcalm : a.Calm B ∧ ∀ p n, a ≠ .pid p n := by
      obtain ha | rfl | ⟨ha, -⟩ := ha
      · obtain ⟨p, rfl, hp⟩ | ⟨r, p, p', max, rfl, -⟩ | ⟨l, rfl⟩ | ⟨l, rfl⟩ := Act.ofSweep_cases ha
        · refine ⟨?_, by simp⟩
          obtain hB | hB := hlate
          · exact hB p hp
          · exact hI.2 hB p.strip hg.1.mem (hg.2.2 rfl).2
        all_goals exact ⟨trivial, by simp⟩
      · exact ⟨trivial, by simp⟩
      · obtain ⟨uid, p, q, rfl, -⟩ | ⟨uid, p, q, rfl, -⟩ | ⟨p, rfl⟩ := Act.ofSchedule_cases ha
        · exact ⟨trivial, by simp⟩
        · exact absurd hg (Act.not_asleep hI.1.proper)
        · exact ⟨trivial, by simp⟩
    exact ⟨hI.1.apply hg hcalm.1, fun hB => (hI.2 hB).apply hI.1.ids hg hcalm.2⟩

end View

/-! ### The steps of the server -/

namespace Server

variable {e : Env} {s s' s₀ : Server} {C : Config} {K : View → Prop} {i : Input}

/-- The step may pause the job before it calls `next_run_job`. -/
def MayPause (e : Env) : Input → Job → Prop
  | .message _ (.killAll _ _), p | .message _ (.request (.suspendUser _)), p => p.pid ≠ 0
  | _, p => Spool.timedOut e p

/-- The job cannot be taken for a dependency that is over when the step calls `next_run_job` for
the waiting job `p`. -/
def Safe (e : Env) (i : Input) (p x : Job) : Prop :=
  match i with
  | .schedule => ¬x.Stuck ∧ (p.state = .queued → x.state ≠ .holdingClient)
  | i => ¬x.Stuck ∧ x.state ≠ .holdingClient ∧ ¬MayPause e i x

/-- The step calls `next_run_job`: at the end of a round, or in a recount that finds a job that ran
too long. -/
def Schedules (e : Env) (s : Server) (i : Input) : Prop := i = .schedule ∨ ∃ p, s.StepLate e i p

/-- Whenever `next_run_job` is called, the active dependencies of waiting jobs are queued, running
or over. -/
def DepsSafe (l : Env × Input) (s : Server) : Prop :=
  noMinusOne l s ∧ (s.Schedules l.1 l.2 → ∀ p ∈ s.activeJobs, p.Waits → ∀ x ∈ s.activeJobs,
    x.jobid ∈ p.dependOn → Safe l.1 l.2 p x)

theorem noRestart_of_noMinusOne {l : Env × Input} (h : noMinusOne l s) : noRestart l s := by
  obtain ⟨e, i⟩ := l
  cases i with
  | restart => cases h.2
  | _ => rfl

theorem Does.inTime {a : Act} {v : View} (hi : i ≠ .schedule) (h : s.Does K e i a v) : a.InTime := by
  have hcases := h.cases
  cases a with
  | dispatch uid p q | asleep uid p q =>
    obtain ⟨index, r, rfl, ha⟩ | hc | ⟨hs, -⟩ := hcases
    · cases r <;> exact ha.elim
    · exact absurd hc (not_cleansUp fun _ h => h)
    · exact absurd hs hi
  | _ => trivial

theorem respected_moves {ok : Act → View → Prop} {v v' : View} (hm : Moves ok v v')
    (hok : ∀ a w, ok a w → a.InTime) (h : Respected v.events) : Respected v'.events :=
  hm.invariant (I := fun w => Respected w.events) h fun hI ha _ =>
    View.respected_apply hI (hok _ _ ha)

/-- The jobs that `next_run_job` does not wait for when the step calls it. -/
def Blocked (e : Env) (s : Server) (i : Input) (d : ℤ) : Prop :=
  ∃ x ∈ s.activeJobs, x.jobid = d ∧ (x.Stuck ∨ x.state = .holdingClient ∨ MayPause e i x)

theorem guarded_blocked (hs : s.Tidy) (hr : Respected s.events) (hi : i ≠ .schedule)
    (hsafe : ∀ p ∈ s.activeJobs, p.Waits → ∀ x ∈ s.activeJobs, x.jobid ∈ p.dependOn →
      Safe e i p x) : s.view.Guarded (s.Blocked e i) := by
  refine ⟨⟨hs.sound.ids, hs.settled, hs.proper, ?_, hr⟩, ?_⟩
  · intro x hx
    obtain ⟨p, hp, rfl⟩ := List.mem_map.1 hx
    refine ⟨fun hst => ⟨p, hp, rfl, .inl hst⟩, fun hw d hd => ?_⟩
    rintro ⟨x, hx, rfl, hbad⟩
    have := hsafe p hp hw x hx hd
    cases i with
    | schedule => exact hi rfl
    | _ =>
      obtain ⟨h₁, h₂, h₃⟩ := this
      obtain h | h | h := hbad
      · exact h₁ h
      · exact h₂ h
      · exact h₃ h
  · intro x hx hst
    obtain ⟨p, hp, rfl⟩ := List.mem_map.1 hx
    exact ⟨p, hp, rfl, .inr (.inl hst)⟩

/-- `KILL_ALL` and `SUSPEND_USER` change jobs before they recount. -/
def PausesFirst : Input → Prop
  | .message _ (.killAll _ _) | .message _ (.request (.suspendUser _)) => True
  | _ => False

theorem late_blocked (hi : ¬PausesFirst i) {p : Job} (h : s.StepLate e i p) :
    s.Blocked e i p.jobid := by
  have hlate : s.Late e p ∧ MayPause e i p = (Spool.timedOut e p = true) := by
    unfold StepLate at h
    split at h
    · unfold Spool.AnswerLate at h
      split at h
      · exact absurd trivial hi
      all_goals first | exact h.elim | exact ⟨h, rfl⟩
    · exact ⟨h, rfl⟩
    · exact absurd trivial hi
    · exact h.elim
  exact ⟨p, hlate.1.1, rfl, .inr (.inr (hlate.2 ▸ hlate.1.2))⟩

theorem pids_blocked (hi : PausesFirst i) : s.view.PidsIn (s.Blocked e i) := by
  intro x hx hpid
  obtain ⟨p, hp, rfl⟩ := List.mem_map.1 hx
  refine ⟨p, hp, rfl, .inr (.inr ?_)⟩
  unfold PausesFirst at hi
  split at hi
  · exact hpid
  · exact hpid
  · exact hi.elim

/-- The moves of a step that recounts, but not at first, keep the jobs in `B` together. -/
theorem Does.calm {B : ℤ → Prop} {a : Act} {v : View} {p : Job} (hrec : ¬RecountsFirst i)
    (hlate : s.StepLate e i p) (hpids : PausesFirst i → v.PidsIn B) (hg : a.Guard v)
    (h : s.Does K e i a v) : a.Calm B ∧ ∀ p n, a ≠ .pid p n := by
  cases i with
  | message index m =>
    cases m with
    | killAll format jobid =>
      obtain ⟨k, -, -, ha⟩ | ⟨p, rfl, -⟩ := h
      · cases a with
        | finish r p p' max | delete p | forget l => exact ⟨trivial, by simp⟩
        | _ => exact ha.elim
      · exact ⟨trivial, by simp⟩
    | request r =>
      obtain ha | ⟨-, p, rfl, -⟩ := h
      · cases r with
        | refreshUsers =>
          cases a with
          | users us n | maxSlots n => exact ⟨trivial, by simp⟩
          | _ => exact ha.elim
        | suspendUser jobid =>
          cases a with
          | users us n => exact ⟨trivial, by simp⟩
          | pause p => exact ⟨hpids trivial p.strip hg.1.mem hg.2.1, by simp⟩
          | _ => exact ha.elim
        | lockServer | list format jobid | listAll format jobid => exact ha.elim
        | contJob jobid => exact absurd trivial hrec
        | _ => exact hlate.elim
      · exact ⟨trivial, by simp⟩
    | newjob m => exact absurd trivial hrec
    | _ => exact hlate.elim
  | _ => exact hlate.elim

theorem recountsFirst_late (hi : RecountsFirst i) :
    ¬PausesFirst i ∧ ∀ p, s.Late e p → s.StepLate e i p := by
  cases i with
  | message index m =>
    cases m with
    | newjob m => exact ⟨id, fun _ h => h⟩
    | request r =>
      cases r with
      | contJob jobid => exact ⟨id, fun _ h => h⟩
      | _ => exact hi.elim
    | _ => exact hi.elim
  | _ => exact hi.elim

theorem respected_schedule (hs : s.Tidy) (hr : Respected s.events)
    (hno : NoMinusOne s.view)
    (hsafe : ∀ p ∈ s.activeJobs, p.Waits → ∀ x ∈ s.activeJobs, x.jobid ∈ p.dependOn →
      Safe e .schedule p x) (h : s.step e .schedule = .ok s') : Respected s'.events := by
  rw [step, Except.bind_eq_ok] at h
  obtain ⟨s₁, h₁, h⟩ := h
  rw [onSpoolM, Except.map_eq_ok] at h₁
  obtain ⟨sp, hsp, rfl⟩ := h₁
  cases h
  have hview : (sp.sCheckHoldon e).view = sp.view := Spool.view_sCheckHoldon e
  show Respected (sp.sCheckHoldon e).view.events
  rw [hview]
  refine (Spool.respected_nextRunLoop
    (B := fun d => ∃ x ∈ s.activeJobs, x.jobid = d ∧ x.Stuck)
    (H := fun d => ∃ x ∈ s.activeJobs, x.jobid = d ∧ x.state = .holdingClient)
    ⟨hs.sound.ids, hs.settled, hs.proper, ?_, hr⟩ ?_ (Spool.ids_view ▸ hno.active)
    hsp).respected
  · intro x hx
    obtain ⟨p, hp, rfl⟩ := List.mem_map.1 hx
    refine ⟨fun hst => ⟨p, hp, rfl, hst⟩, fun hw d hd => ?_⟩
    rintro ⟨x, hx, rfl, hbad⟩
    exact (hsafe p hp hw x hx hd).1 hbad
  · intro x hx
    obtain ⟨p, hp, rfl⟩ := List.mem_map.1 hx
    refine ⟨fun hst => ⟨p, hp, rfl, hst⟩, fun hst d hd => ?_⟩
    rintro ⟨x, hx, rfl, hbad⟩
    exact (hsafe p hp (.inl hst) x hx hd).2 hst hbad

theorem respected_late {p : Job} (hs : s.Tidy) (hr : Respected s.events) (hen : s.Enabled i)
    (hi : i ≠ .restart) (hsched : i ≠ .schedule) (hlate : s.StepLate e i p)
    (hsafe : ∀ p ∈ s.activeJobs, p.Waits → ∀ x ∈ s.activeJobs, x.jobid ∈ p.dependOn → Safe e i p x)
    (h : s.step e i = .ok s') : Respected s'.events := by
  have hguard := guarded_blocked hs hr hsched hsafe
  by_cases hrec : RecountsFirst i
  · obtain ⟨hpause, hlater⟩ := recountsFirst_late (s := s) (e := e) hrec
    obtain ⟨v, hv, hmoves⟩ := step_phases (K := fun _ => True) hs.sound hen hrec
      (fun _ _ => trivial) h
    have hrv : Respected v.events := by
      obtain rfl | husage := hv
      · exact hr
      · exact (hguard.usage (.inl fun p hp => late_blocked hpause (hlater p hp)) husage).1.respected
    -- after the recount nothing is started
    exact respected_moves hmoves (fun a w ha => ha.inTime hsched) hrv
  · have hcourse := step_course (K := fun _ => True) hs.sound hen hi (fun _ _ => trivial) h
    refine (hcourse.invariant (I := fun w => w.Guarded (s.Blocked e i) ∧
        (PausesFirst i → w.PidsIn (s.Blocked e i))) ⟨hguard, fun h => pids_blocked h⟩
      (fun {w a} hI ha hg => ?_) fun {w w'} hI hu => ?_).1.respected
    · obtain ⟨hcalm, hpid⟩ := ha.calm hrec hlate hI.2 hg
      exact ⟨hI.1.apply hg hcalm, fun h => (hI.2 h).apply hI.1.ids hg hpid⟩
    · by_cases hpause : PausesFirst i
      · obtain ⟨hw, hpids⟩ := hI.1.usage (.inr (hI.2 hpause)) hu
        exact ⟨hw, fun h => hpids (hI.2 h)⟩
      · exact ⟨(hI.1.usage (.inl fun p hp => late_blocked hpause hp) hu).1,
          fun h => absurd h hpause⟩

/-- **Every call of `next_run_job` in a step respects the dependencies.** -/
theorem respected_step {l : Env × Input} (hs : s.Tidy) (hn : NoMinusOne s.view)
    (hr : Respected s.events)
    (hok : DepsSafe l s) (h : Step C s l s') : Respected s'.events := by
  obtain ⟨e, i⟩ := l
  obtain ⟨-, hen, h⟩ := h
  obtain ⟨hno, hsafe⟩ := hok
  have hi : i ≠ .restart := by
    rintro rfl
    cases hno.2
  by_cases hsched : i = .schedule
  · subst hsched
    exact respected_schedule hs hr hn (hsafe (.inl rfl)) h
  · by_cases hlate : ∃ p, s.StepLate e i p
    · exact respected_late hs hr hen hi hsched hlate.choose_spec (hsafe (.inr hlate)) h
    · have hcourse := step_course (K := fun _ => True) hs.sound hen hi (fun _ _ => trivial) h
      -- without a late job, a recount starts nothing
      refine respected_moves hcourse.toMoves (fun a w ha => ?_) hr
      obtain ha | ha | rfl | ⟨-, ha⟩ := ha
      · exact ha.inTime hsched
      · obtain ⟨p, rfl, -⟩ | ⟨r, p, p', max, rfl, -⟩ | ⟨l, rfl⟩ | ⟨l, rfl⟩ := Act.ofSweep_cases ha
        all_goals trivial
      · trivial
      · exact absurd ha hlate

/-- **Dependencies are respected**: in a run in which no waiting job depends on a paused, locked,
held or abnormal one when `next_run_job` is called, every queued job that was started found its
dependencies over. -/
theorem dependencies_respected (h₀ : s₀.Fresh) (hpos : 0 < s₀.jobids)
    (h : Run (Step C) DepsSafe s₀ s) : Respected s.events := by
  have hno : NoMinusOne s₀.view := by
    refine ⟨?_, hpos.le⟩
    rw [h₀.view_activeJobs]
    exact List.not_mem_nil
  refine (h.invariant (I := fun s => s.Tidy ∧ NoMinusOne s.view ∧ Respected s.events)
    ⟨h₀.tidy, hno, ?_⟩ fun hI hok hst => ?_).2.2
  · rw [h₀.events]
    exact fun p q hmem => absurd hmem List.not_mem_nil
  · obtain ⟨hs, hno, hr⟩ := hI
    exact ⟨hs.step (noRestart_of_noMinusOne hok.1) hst, noMinusOne_step hs.sound hno hok.1 hst,
      respected_step hs hno hr hok hst⟩

theorem exists_late {p : Job} (h : s.StepLate e i p) : ∃ p₀, s.Late e p₀ := by
  unfold StepLate at h
  split at h
  · unfold Spool.AnswerLate at h
    split at h
    · exact h.2
    all_goals first | exact h.elim | exact ⟨p, h⟩
  · exact ⟨p, h⟩
  · exact h.2
  · exact h.elim

/-- No job runs too long, and the jobs are queued or running. -/
def plainQueue (l : Env × Input) (s : Server) : Prop :=
  noMinusOne l s ∧ ∀ p ∈ s.activeJobs, Spool.timedOut l.1 p = false ∧
    (p.state = .queued ∨ p.state = .running)

instance : ∀ l s, Decidable (plainQueue l s) := fun l s =>
  inferInstanceAs (Decidable (noMinusOne l s ∧ ∀ p ∈ s.activeJobs, Spool.timedOut l.1 p = false ∧
    (p.state = .queued ∨ p.state = .running)))

theorem depsSafe_of_plainQueue {l : Env × Input} (h : plainQueue l s) : DepsSafe l s := by
  refine ⟨h.1, fun hsched p hp hw x hx hd => ?_⟩
  have hst := (h.2 x hx).2
  have hstuck : ¬x.Stuck := fun hx => hst.elim hx.1 hx.2.1
  have hheld : x.state ≠ .holdingClient := by
    obtain h | h := hst <;> simp [h]
  obtain hs | ⟨p, hlate⟩ := hsched
  · obtain ⟨e, i⟩ := l
    obtain rfl : i = .schedule := hs
    exact ⟨hstuck, fun _ => hheld⟩
  · obtain ⟨p₀, hmem, hout⟩ := exists_late hlate
    rw [(h.2 p₀ hmem).1] at hout
    cases hout

/-- The last thing that happened is the start of a job that depends on the job 1000, which was in a
given state then. -/
def startedAfter (st : Option Jobstate) (s : Server) : Bool :=
  match s.events.head? with
  | some (.dispatch p q) =>
    p.state = .queued ∧ p.dependOn = [1000] ∧ (q.getJob 1000).map Job.state = st
  | _ => false

theorem startedAfter_spec {st : Option Jobstate} (h : startedAfter st s = true) :
    ∃ p q, Event.dispatch p q ∈ s.events ∧ p.state = .queued ∧ p.dependOn = [1000] ∧
      (q.getJob 1000).map Job.state = st := by
  unfold startedAfter at h
  split at h
  · rename_i p q hhead
    exact ⟨p, q, List.mem_of_mem_head? hhead, of_decide_eq_true h⟩
  · cases h

/-- A job starts after the one it depends on has finished. -/
theorem dependent_job_respected : ∃ (s : Server) (p : Job) (q : Queue),
    Event.dispatch p q ∈ s.events ∧ p.dependOn = [1000] ∧ q.DepsOver p := by
  obtain ⟨s, hr, hs⟩ := exists_run plainConfig plainQueue started
    (startedAfter (some .finished))
    [(world 1, .accept 5 1000), (world 2, .message 0 (.newjob {})), (world 3, .schedule),
      (world 4, .message 0 (.runjobOk none 100)), (world 5, .accept 6 1000),
      (world 6, .message 1 (.newjob { dependOnSize := 1, dependOn := [1000] })),
      (world 7, .message 0 (.endjob { realSec := 1 })), (world 8, .schedule)]
    (by simp [world]) (by decide +kernel)
  obtain ⟨p, q, hmem, hst, hdep, -⟩ := startedAfter_spec hs
  exact ⟨s, p, q, hmem, hdep, dependencies_respected fresh_started (by decide)
    (hr.mono fun l s h => depsSafe_of_plainQueue h) p q hmem hst⟩

/-- A job runs and is held; the job that depends on it starts nevertheless. -/
theorem paused_dependency_ignored : ¬∀ (C : Config) (s₀ s : Server), s₀.Fresh → 0 < s₀.jobids →
    Run (Step C) noRestart s₀ s → Respected s.events := by
  intro hall
  obtain ⟨s, hr, hs⟩ := exists_run plainConfig noRestart started
    (startedAfter (some .pause))
    [(world 1, .accept 5 1000), (world 2, .message 0 (.newjob {})), (world 3, .schedule),
      (world 4, .message 0 (.runjobOk none 100)), (world 5, .accept 6 1000),
      (world 6, .message 1 (.newjob { dependOnSize := 1, dependOn := [1000] })),
      (world 7, .accept 7 1000), (world 8, .message 2 (.request (.holdJob 1000))),
      (world 9, .schedule)]
    (by simp [world]) (by decide +kernel)
  obtain ⟨p, q, hmem, hst, hdep, hpause⟩ := startedAfter_spec hs
  obtain ⟨x, hx, hxst⟩ := Option.map_eq_some_iff.1 hpause
  have hover := hall _ _ _ fresh_started (by decide) hr p q hmem hst 1000 (by simp [hdep]) x hx
  simp [Job.Over, hxst] at hover

end Server

end TaskSpooler
