import TaskSpooler.Server.Steps

/-!
# Which step makes a move

`Server.Does` lists the moves of every input.  The lemmas here read it the other way: given a move,
which inputs can have caused it, and what is known of it then.
-/

namespace TaskSpooler

namespace Server

variable {K : View → Prop} {e : Env} {s : Server} {i : Input} {v : View} {p : Job}

/-- The move is one of a request that leaves the connections alone. -/
def Asks (K : View → Prop) (e : Env) (s : Server) (i : Input) (a : Act) (v : View) (index : ℕ)
    (r : Request) : Prop :=
  i = .message index (.request r) ∧ a.ofAnswer K e s.toSpool (s.clientCs index).user r v

/-- The job of the connection that a step is about is given up. -/
def CleansUp (s : Server) (i : Input) (a : Act) : Prop :=
  ∃ index : ℕ, (s.clientCs index).hasjob ∧ a.ofClean (s.clientCs index).jobid ∧
    (i = .message index .unknown ∨ i = .disconnect index ∨
      index < s.nconnections ∧ ∃ k format jobid, i = .message k (.killAll format jobid))

theorem Does.cases {a : Act} (h : s.Does K e i a v) :
    (∃ index r, s.Asks K e i a v index r) ∨ s.CleansUp i a ∨
    match a with
    | .dispatch _ _ _ | .asleep _ _ _ | .wake _ => i = .schedule ∧ a.ofSchedule e
    | .abnormal _ => i = .health
    | .submit _ _ _ _ _ | .reuse _ _ _ _ _ | .jobids _ => ∃ index m next id,
        i = .message index (.newjob m) ∧
        a.ofNewjob (s.clientCs index).socket m (s.clientCs index).user next id
    | .drop _ _ => (∃ index m next id, i = .message index (.newjob m) ∧
        a.ofNewjob (s.clientCs index).socket m (s.clientCs index).user next id) ∨
        ∃ index jobid p, i = .message index (.removejob jobid) ∧ s.namedJob jobid = some p ∧
          a.ofRemove p
    | .gone _ | .goneFinished _ => ∃ index jobid p,
        i = .message index (.removejob jobid) ∧ s.namedJob jobid = some p ∧ a.ofRemove p
    | .finish r p _ _ => ∃ index, i = .message index (.endjob r) ∧ p.jobid = (s.clientCs index).jobid
    | .forget _ => (∃ index r, i = .message index (.endjob r)) ∨
        ∃ index jobid p, i = .message index (.removejob jobid) ∧ s.namedJob jobid = some p
    | .delete p => (i = .cleanup ∧ p.state = .queued ∧ p.clientSocket ≤ 0) ∨
        (∃ index m, i = .message index (.newjob m) ∧ p.state = .holdingClient ∧
          (m.jobid = 0 → v.jobids = p.jobid + 1)) ∨
        (∃ index r, i = .message index (.request r) ∧ r.closes ∧ (s.clientCs index).hasjob ∧
          p.jobid = (s.clientCs index).jobid) ∨
        ∃ index format jobid, ∃ k : ℕ, i = .message index (.killAll format jobid) ∧ index ≤ k ∧
          k < s.nconnections ∧ (s.clientCs k).hasjob ∧ p.jobid = (s.clientCs k).jobid
    | .pid p n => ∃ index ofilename, i = .message index (.runjobOk ofilename n) ∧
        p.jobid = (s.clientCs index).jobid
    | .reconnect p _ socket => ∃ index pid, i = .message index (.reconnect p.jobid pid) ∧
        socket = (s.clientCs index).socket ∧ p.user = some (s.clientCs index).user
    | _ => False := by
  cases i with
  | accept socket uid => exact h.elim
  | restart => exact h.elim
  | disconnect index => exact .inr (.inl ⟨index, h.1, h.2, .inr (.inl rfl)⟩)
  | health =>
    obtain ⟨p, rfl⟩ := h
    exact .inr (.inr rfl)
  | cleanup =>
    obtain ⟨p, rfl, hst, hsock⟩ := h
    exact .inr (.inr (.inl ⟨rfl, hst, hsock⟩))
  | schedule =>
    cases a with
    | dispatch uid p q | asleep uid p q | wake p => exact .inr (.inr ⟨rfl, h⟩)
    | _ => exact h.elim
  | message index m =>
    cases m with
    | newjob m =>
      obtain ⟨next, id, ha⟩ | ⟨p, rfl, hst, hid⟩ := h
      · cases a with
        | submit p ds n m' q => exact .inr (.inr ⟨index, m, next, id, rfl, ha⟩)
        | reuse old p ds m' q => exact .inr (.inr ⟨index, m, next, id, rfl, ha⟩)
        | jobids n => exact .inr (.inr ⟨index, m, next, id, rfl, ha⟩)
        | drop p shelf => exact .inr (.inr (.inl ⟨index, m, next, id, rfl, ha⟩))
        | _ => exact ha.elim
      · exact .inr (.inr (.inr (.inl ⟨index, m, rfl, hst, hid⟩)))
    | runjobOk ofilename pid =>
      obtain ⟨p, rfl, hid⟩ := h
      exact .inr (.inr ⟨index, ofilename, rfl, hid⟩)
    | endjob r =>
      obtain ⟨p, p', max, rfl, hid⟩ | ⟨l, rfl⟩ := h
      · exact .inr (.inr ⟨index, rfl, hid⟩)
      · exact .inr (.inr (.inl ⟨index, r, rfl⟩))
    | reconnect jobid pid =>
      obtain ⟨p, st, rfl, rfl, huser⟩ := h
      exact .inr (.inr ⟨index, pid, rfl, rfl, huser⟩)
    | removejob jobid =>
      obtain ⟨p₀, hp₀, ha⟩ := h
      cases a with
      | gone p => exact .inr (.inr ⟨index, jobid, p₀, rfl, hp₀, ha⟩)
      | goneFinished p => exact .inr (.inr ⟨index, jobid, p₀, rfl, hp₀, ha⟩)
      | drop p shelf => exact .inr (.inr (.inr ⟨index, jobid, p₀, rfl, hp₀, ha⟩))
      | forget l => exact .inr (.inr (.inr ⟨index, jobid, p₀, rfl, hp₀⟩))
      | _ => exact ha.elim
    | killAll format jobid =>
      obtain ⟨k, hk, hjob, ha⟩ | ⟨p, rfl, k, hik, hk, hjob, hid⟩ := h
      · exact .inr (.inl ⟨k, hjob, ha, .inr (.inr ⟨hk, index, format, jobid, rfl⟩)⟩)
      · exact .inr (.inr (.inr (.inr (.inr ⟨index, format, jobid, k, rfl, hik, hk, hjob, hid⟩))))
    | killServer => exact h.elim
    | request r =>
      obtain ha | ⟨hclose, p, rfl, hjob, hid⟩ := h
      · exact .inl ⟨index, r, rfl, ha⟩
      · exact .inr (.inr (.inr (.inr (.inl ⟨index, r, rfl, hclose, hjob, hid⟩))))
    | unknown => exact .inr (.inl ⟨index, h.1, h.2, .inl rfl⟩)

theorem not_cleansUp {a : Act} (ha : ∀ jobid, ¬a.ofClean jobid) : ¬s.CleansUp i a := by
  rintro ⟨index, -, h, -⟩
  exact ha _ h

/-- A job is started from a pause by `CONT` or by `RESUME_USER`. -/
theorem Does.start (h : s.Does K e i (.start p) v) :
    (∃ index, i = .message index (.request (.contJob p.jobid)) ∧
      v.Owns (s.clientCs index).user p ∧ v.busySlots + p.numSlots ≤ v.maxSlots ∧
      (v.users (s.clientCs index).user).busy + p.numSlots ≤
        (v.users (s.clientCs index).user).maxSlots) ∨
    ∃ index jobid u, i = .message index (.request (.resumeUser jobid)) ∧ p.user = some u ∧
      s.Targets (s.clientCs index).user jobid u := by
  obtain ⟨index, r, rfl, ha⟩ | hc | hf := h.cases
  · cases r with
    | contJob jobid =>
      obtain ⟨rfl, howner, hlim, hmax⟩ := ha
      exact .inl ⟨index, rfl, howner, hmax, hlim⟩
    | resumeUser jobid =>
      obtain ⟨u, hu, ht⟩ := ha
      exact .inr ⟨index, jobid, u, rfl, hu, ht⟩
    | _ => exact ha.elim
  · exact absurd hc (not_cleansUp fun _ h => h)
  · exact hf.elim

theorem Does.submit {ds : List ℤ} {n : ℤ} {m : NewJob} {q : Queue}
    (h : s.Does K e i (.submit p ds n m q) v) : ∃ index next,
      i = .message index (.newjob m) ∧ p.user = some (s.clientCs index).user ∧
      p.clientSocket = (s.clientCs index).socket ∧ (m.jobid = 0 → p.jobid = next ∧ n = next + 1) := by
  obtain ⟨index, r, rfl, ha⟩ | hc | ⟨index, m', next, id, rfl, rfl, -, huser, hsock, hid⟩ := h.cases
  · cases r <;> exact ha.elim
  · exact absurd hc (not_cleansUp fun _ h => h)
  · exact ⟨index, next, rfl, huser, hsock, hid⟩

theorem Does.reuse {old : Job} {ds : List ℤ} {m : NewJob} {q : Queue}
    (h : s.Does K e i (.reuse old p ds m q) v) : ∃ index,
      i = .message index (.newjob m) ∧ p.user = some (s.clientCs index).user ∧
      p.clientSocket = (s.clientCs index).socket ∧ m.jobid ≠ 0 ∧ p.jobid = m.jobid := by
  obtain ⟨index, r, rfl, ha⟩ | hc | ⟨index, m', next, id, rfl, rfl, -, huser, hsock, hid⟩ := h.cases
  · cases r <;> exact ha.elim
  · exact absurd hc (not_cleansUp fun _ h => h)
  · exact ⟨index, rfl, huser, hsock, hid⟩

theorem Does.maxSlots {n : ℤ} (h : s.Does K e i (.maxSlots n) v) :
    ∃ index, (s.clientCs index).user = 0 ∧ (i = .message index (.request (.setMaxSlots n)) ∨
      i = .message index (.request .refreshUsers) ∧
        n = Spool.slotsAfter e.userFile s.maxSlots) := by
  obtain ⟨index, r, rfl, ha⟩ | hc | hf := h.cases
  · cases r with
    | setMaxSlots n' =>
      obtain ⟨hu, rfl⟩ := ha
      exact ⟨index, hu, .inl rfl⟩
    | refreshUsers => exact ⟨index, ha.1, .inr ⟨rfl, ha.2⟩⟩
    | _ => exact ha.elim
  · exact absurd hc (not_cleansUp fun _ h => h)
  · exact hf.elim

/-- The table of users is written by the user file, and when a user is suspended or resumed. -/
theorem Does.users {us : ℕ → User} {n : ℕ} (h : s.Does K e i (.users us n) v) :
    (∃ index, i = .message index (.request .refreshUsers) ∧ ∀ u < v.nusers, us u = v.users u) ∨
    (∃ index jobid u, i = .message index (.request (.suspendUser jobid)) ∧
      s.Targets (s.clientCs index).user jobid u ∧ n = v.nusers ∧
      us = Function.update v.users u (v.users u).suspended) ∨
    ∃ index jobid u, i = .message index (.request (.resumeUser jobid)) ∧
      s.Targets (s.clientCs index).user jobid u ∧ n = v.nusers ∧
      us = Function.update v.users u (v.users u).resumed := by
  obtain ⟨index, r, rfl, ha⟩ | hc | hf := h.cases
  · cases r with
    | refreshUsers => exact .inl ⟨index, rfl, ha⟩
    | suspendUser jobid =>
      obtain ⟨hn, u, hu, hus⟩ := ha
      exact .inr (.inl ⟨index, jobid, u, rfl, hu, hn, hus⟩)
    | resumeUser jobid =>
      obtain ⟨hn, u, hu, hus⟩ := ha
      exact .inr (.inr ⟨index, jobid, u, rfl, hu, hn, hus⟩)
    | _ => exact ha.elim
  · exact absurd hc (not_cleansUp fun _ h => h)
  · exact hf.elim

/-- A wall time becomes negative only by `CONT`, for a job that does not run. -/
theorem Does.wall {w : ℤ} (h : s.Does K e i (.wall p w) v) :
    0 ≤ w ∨ p.wallTime < 0 ∨ K v ∧ p.state ≠ .running := by
  obtain ⟨index, r, rfl, ha⟩ | hc | hf := h.cases
  · cases r with
    | holdJob jobid =>
      obtain ⟨-, rfl, -⟩ := ha
      exact .inl (Int.natCast_nonneg _)
    | contJob jobid =>
      obtain ⟨-, -, -, rfl | ⟨hK, hrun, -⟩⟩ := ha
      · exact .inl (Int.natCast_nonneg _)
      · exact .inr (.inr ⟨hK, hrun⟩)
    | addWtime jobid n =>
      obtain ⟨-, hw | hw⟩ := ha
      · exact .inl hw
      · exact .inr (.inl hw)
    | _ => exact ha.elim
  · exact absurd hc (not_cleansUp fun _ h => h)
  · exact hf.elim

/-- A job is relegated by a recount or by `REQUEUE_JOB`. -/
theorem Does.relegate {requeue : Bool} (h : s.Does K e i (.relegate p requeue) v) :
    ∃ index, i = .message index (.request (.requeueJob p.jobid)) := by
  obtain ⟨index, r, rfl, ha⟩ | hc | hf := h.cases
  · cases r with
    | requeueJob jobid =>
      obtain ⟨rfl, -⟩ := ha
      exact ⟨index, rfl⟩
    | _ => exact ha.elim
  · exact absurd hc (not_cleansUp fun _ h => h)
  · exact hf.elim

/-- A job is deleted: its connection is closed by a request or by `KILL_ALL`, its client is gone,
or it had no client. -/
theorem Does.delete (h : s.Does K e i (.delete p) v) :
    (∃ index, (s.clientCs index).hasjob ∧ p.jobid = (s.clientCs index).jobid ∧ p.state ≠ .running ∧
      p.state ≠ .pause ∧ (i = .message index .unknown ∨ i = .disconnect index ∨
        index < s.nconnections ∧ ∃ k format jobid, i = .message k (.killAll format jobid))) ∨
    (i = .cleanup ∧ p.state = .queued ∧ p.clientSocket ≤ 0) ∨
    (∃ index m, i = .message index (.newjob m) ∧ p.state = .holdingClient ∧
      (m.jobid = 0 → v.jobids = p.jobid + 1)) ∨
    (∃ index r, i = .message index (.request r) ∧ r.closes ∧ (s.clientCs index).hasjob ∧
      p.jobid = (s.clientCs index).jobid) ∨
    ∃ index format jobid, ∃ k : ℕ, i = .message index (.killAll format jobid) ∧ index ≤ k ∧
      k < s.nconnections ∧ (s.clientCs k).hasjob ∧ p.jobid = (s.clientCs k).jobid := by
  obtain ⟨index, r, rfl, ha⟩ | ⟨index, hjob, hc, hi⟩ | h := h.cases
  · cases r <;> exact ha.elim
  · exact .inl ⟨index, hjob, hc.1, hc.2.1, hc.2.2, hi⟩
  · exact .inr h

end Server

end TaskSpooler
