import TaskSpooler.Ops.Sent
import TaskSpooler.Ops.Shelf

/-!
# What the operations send

Every operation is taken apart for the messages that it sends and their sockets (`Op.utters`).  Most
send nothing.  `WAITJOB_OK` comes only from `check_notify_list` and from a wait for a job that is over,
and `RUNJOB` only from the start of a job and from a client that has connected again.

`Performs.source` says at which inputs a socket begins to wait, stops waiting or claims a job.
-/

namespace TaskSpooler

namespace Spool

variable {e : Env} {P Q : ℤ × Reply → Prop} {s s' s'' : Spool} {p : Job} {jobid pid socket : ℤ}

/-- Messages have been sent, all of them of the kind `P`. -/
def Sends (P : ℤ × Reply → Prop) (s s' : Spool) : Prop := ∃ l, s'.sent = l ++ s.sent ∧ ∀ y ∈ l, P y

namespace Sends

theorem of_eq (h : s'.sent = s.sent) : Sends P s s' := ⟨[], h, fun _ hy => absurd hy List.not_mem_nil⟩

theorem refl : Sends P s s := of_eq rfl

theorem trans (h : Sends P s s') (h' : Sends P s' s'') : Sends P s s'' := by
  obtain ⟨l, hl, hP⟩ := h
  obtain ⟨l', hl', hP'⟩ := h'
  refine ⟨l' ++ l, by rw [hl', hl, List.append_assoc], fun y hy => ?_⟩
  exact (List.mem_append.1 hy).elim (hP' y) (hP y)

theorem one {r : Reply} (h : P (socket, r)) : Sends P s (s.send socket r) :=
  ⟨[(socket, r)], rfl, fun _ hy => List.mem_singleton.1 hy ▸ h⟩

theorem mono (h : Sends P s s') (himp : ∀ y, P y → Q y) : Sends Q s s' := by
  obtain ⟨l, hl, hP⟩ := h
  exact ⟨l, hl, fun y hy => himp y (hP y hy)⟩

end Sends

/-! ### Functions that send nothing -/

@[simp] theorem sent_cgroupsCreateJob : (s.cgroupsCreateJob p).sent = s.sent := by
  rw [cgroupsCreateJob]
  split_ifs
  · rfl
  · exact sent_mkdirCgroup

@[simp] theorem sent_freeBind : (s.freeBind e p).sent = s.sent := by
  have halloc : (s.freeAlloc e p.cpuAlloc).sent = s.sent := sent_freeAlloc
  exact halloc

@[simp] theorem sent_safePauseJob : (s.safePauseJob e p).sent = s.sent := by
  rw [safePauseJob, pauseJobConfig]
  split_ifs <;> exact sent_freeAlloc

theorem sent_checkHealth : (s.checkHealth e jobid).sent = s.sent := by
  rw [checkHealth]
  cases s.findjob jobid with
  | none => rfl
  | some p =>
    dsimp only
    split_ifs
    · rw [sent_defrag, sent_freeBind]
      rfl
    · rfl
    · rfl

theorem sent_sDeleteJob (h : s.sDeleteJob jobid = .ok s') : s'.sent = s.sent := by
  rw [sDeleteJob] at h
  split at h
  · cases h
  · cases h
    rfl

theorem sent_sClearFinished {user : ℕ} : (s.sClearFinished user).sent = s.sent := by
  have hfold := sent_foldl (f := fun s p => deleteFinishedDb s (Job.jobid p)) (fun _ _ => rfl)
    (s.finishedJobs.filter fun p => p.user = some user ∨ user = 0) s
  exact hfold

theorem sent_sMarkJobRunning (h : s.sMarkJobRunning e jobid = .ok s') : s'.sent = s.sent := by
  rw [sMarkJobRunning] at h
  split at h
  · cases h
  · dsimp only at h
    split_ifs at h
    · cases h
      rfl
    · cases h
      exact sent_configRunning

theorem sent_takeJob {uid : ℕ} (h : s.takeJob e uid p = .ok s') : s'.sent = s.sent := by
  rw [takeJob] at h
  split_ifs at h
  · have hsent := sent_sMarkJobRunning h
    exact hsent
  · cases h
    exact sent_configRunning

theorem sent_sProcessRunjobOk {oname : Option String}
    (h : s.sProcessRunjobOk e jobid oname pid = .ok s') : s'.sent = s.sent := by
  rw [sProcessRunjobOk] at h
  split at h
  · cases h
  rename_i p hp
  split_ifs at h
  · cases h
    rfl
  all_goals
    dsimp only at h
    split at h
    · cases h
    · split_ifs at h
      all_goals
        cases h
        refine (sent_cgroupsCreateJob (p := p.setPid pid)).trans ?_
        first | exact sent_bindCpus | rfl

/-! ### Functions that send something -/

/-- The message goes to this socket, and tells nobody about the end or the start of a job. -/
def Mild (socket : ℤ) (y : ℤ × Reply) : Prop := y.1 = socket ∧ y.2.tells = false

theorem Sends.mild {r : Reply} (hr : r.tells = false) : Sends (Mild socket) s (s.send socket r) :=
  .one ⟨rfl, hr⟩

theorem sends_newjobFill {m : NewJob} {user : ℕ} {old : Option Job} {r : Spool × ℤ}
    (h : s.newjobFill e socket m user old = .ok r) : Sends (Mild socket) s r.1 := by
  have henqueue : ∀ (s : Spool) (p : Job), (s.newjobEnqueue p).sent = s.sent := fun s p => by
    rw [newjobEnqueue]
    split <;> rfl
  rw [newjobFill] at h
  dsimp only at h
  have hids : (if old = none then { s with jobids := s.nextJobids m } else s).sent = s.sent := by
    split_ifs <;> rfl
  revert h hids
  generalize (if old = none then { s with jobids := s.nextJobids m } else s) = s₁
  intro h hids
  split at h
  · cases h
    exact (Sends.of_eq hids).trans (.mild rfl)
  · rw [Except.bind_eq_ok] at h
    obtain ⟨⟨q, p⟩, -, h⟩ := h
    cases h
    exact .of_eq ((henqueue _ _).trans hids)

theorem sends_sMoveUrgent : Sends (Mild socket) s (s.sMoveUrgent socket jobid) := by
  rw [sMoveUrgent]
  split
  · exact .mild rfl
  · exact .mild rfl

theorem sends_sSwapJobs {jobid₁ jobid₂ : ℤ} :
    Sends (Mild socket) s (s.sSwapJobs socket jobid₁ jobid₂) := by
  have hswap : ∀ s : Spool, (s.swapDb jobid₁ jobid₂).sent = s.sent := fun s => by
    rw [swapDb]
    split <;> rfl
  rw [sSwapJobs]
  split
  · refine Sends.trans (.of_eq ?_) (.mild rfl)
    exact hswap _
  · exact .mild rfl

theorem sends_sAddWtime {w : ℤ} : Sends (Mild socket) s (s.sAddWtime socket jobid w) := by
  rw [sAddWtime]
  split_ifs
  · exact .mild rfl
  · split
    · exact .mild rfl
    · dsimp only
      split_ifs
      · exact .mild rfl
      · exact .mild rfl
      · exact Sends.trans (.of_eq rfl) (.mild rfl)
      · exact Sends.trans (.of_eq rfl) (.mild rfl)

/-- The message starts a job, on this socket. -/
def StartsJob (socket jobid : ℤ) (y : ℤ × Reply) : Prop :=
  y.1 = socket ∧ ∃ errorlevel, y.2 = .runjob jobid errorlevel

theorem sends_sSendRunjob (h : s.sSendRunjob socket jobid = .ok s') :
    Sends (StartsJob socket jobid) s s' := by
  obtain ⟨p, -, rfl⟩ := sSendRunjob_spec h
  exact .one ⟨rfl, _, rfl⟩

theorem sends_dispatch {uid : ℕ} (h : s.dispatch e uid p = .ok s') :
    Sends (StartsJob p.clientSocket p.jobid) s s' := by
  simp only [dispatch, Except.bind_eq_ok] at h
  obtain ⟨s₁, h₁, s₂, h₂, h⟩ := h
  cases h
  have hstart : Sends (StartsJob p.clientSocket p.jobid) s₁ s₂ := sends_sSendRunjob h₂
  exact (Sends.of_eq (sent_takeJob h₁)).trans (hstart.trans (.of_eq rfl))

/-- The message says that a job has ended. -/
def EndsWait (y : ℤ × Reply) : Prop := ∃ errorlevel, y.2 = .waitjobOk errorlevel

theorem sends_checkNotifyList (h : s.checkNotifyList jobid = .ok s') : Sends EndsWait s s' := by
  refine Except.foldlM_induction (R := fun s s' : Spool => Sends EndsWait s s') (fun _ => .refl)
    (fun h h' => h.trans h') (fun {s s' n} _ h => ?_) h
  rw [notifyWaiter] at h
  split at h
  · cases h
  · rename_i j hj
    by_cases hover : j.state = .finished ∨ j.state = .skipped
    · simp only [if_pos hover] at h
      have htell : Sends EndsWait s (s.send n.1 (.waitjobOk j.result.errorlevel)) := .one ⟨_, rfl⟩
      split_ifs at h
      · rw [destroyFinishedJob] at h
        split at h
        · cases h
        · cases h
          exact htell.trans (.of_eq rfl)
      · cases h
        exact htell.trans (.of_eq rfl)
    · rw [if_neg hover] at h
      cases h
      exact .refl

/-- The clients are told in between, and nothing else is sent or said to them. -/
def Tells (s s' : Spool) (jobid : ℤ) : Prop :=
  ∃ s₁ s₂ : Spool, s₁.sent = s.sent ∧ s₁.notifies = s.notifies ∧ s₁.checkNotifyList jobid = .ok s₂ ∧
    s'.sent = s₂.sent ∧ s'.notifies = s₂.notifies

theorem Tells.sends (h : Tells s s' jobid) : Sends EndsWait s s' := by
  obtain ⟨s₁, s₂, hsent, -, hcheck, hsent', -⟩ := h
  exact (Sends.of_eq hsent).trans ((sends_checkNotifyList hcheck).trans (.of_eq hsent'))

theorem sent_newFinishedJob : (s.newFinishedJob e p).sent = s.sent := by
  rw [newFinishedJob, sent_defrag, sent_freeAlloc, sent_cgroupsCleanJob, sent_insertFinishedDb]
  rfl

theorem removeActive_tells (h : s.removeActive e p = .ok s') : Tells s s' p.jobid := by
  rw [removeActive, Except.bind_eq_ok] at h
  obtain ⟨s₂, h₂, h⟩ := h
  dsimp only at h
  have hend : s'.sent = s₂.sent ∧ s'.notifies = s₂.notifies := by
    split_ifs at h
    · cases h
      exact ⟨rfl, rfl⟩
    · cases h
      refine ⟨?_, (notifies_of_aside aside_newFinishedJob).trans ?_⟩
      · rw [sent_newFinishedJob, sent_defrag, sent_freeAlloc, sent_cgroupsCleanJob]
        rfl
      · have hquiet : ∀ s : Spool, ((((s.freeCores p.gone).cgroupsCleanJob p.gone).freeAlloc e
            p.cpuAlloc).defrag e).aside = s.aside := fun s => by
          rw [aside_defrag, aside_freeAlloc, aside_cgroupsCleanJob, aside_freeCores]
        have hsame := notifies_of_aside (hquiet ((s₂.onQueue fun q => q.dropJob p.jobid).log
          (.removed p.gone)))
        exact hsame
  refine ⟨_, s₂, ?_, ?_, h₂, hend⟩ <;> rfl

theorem removeFinished_tells (h : s.removeFinished p = .ok s') : Tells s s' p.jobid := by
  rw [removeFinished, Except.bind_eq_ok] at h
  obtain ⟨s₂, h₂, h⟩ := h
  have hend : s'.sent = s₂.sent ∧ s'.notifies = s₂.notifies := by
    split at h
    · cases h
    · cases h
      exact ⟨rfl, rfl⟩
  refine ⟨_, s₂, ?_, ?_, h₂, hend⟩ <;> rfl

end Spool

namespace Op

/-- The messages of an operation, with their sockets. -/
def utters : Op → ℤ × Reply → Prop
  | send socket r, y => y = (socket, r)
  | notify _, y | removeActive _, y | removeFinished _, y => Spool.EndsWait y
  | wait socket _, y => y.1 = socket ∧ Spool.EndsWait y
  | dispatch _ p, y => Spool.StartsJob p.clientSocket p.jobid y
  | runjob socket jobid, y => Spool.StartsJob socket jobid y
  | fill socket _ _ _, y | urgent socket _, y | swap socket _ _, y | addWtime socket _ _, y =>
    Spool.Mild socket y
  | _, _ => False

variable {e : Env} {s s' : Spool} {o : Op}

/-- **What an operation sends.** -/
theorem sends_run (h : o.run e s = .ok s') : Spool.Sends o.utters s s' := by
  cases o with
  | send socket r =>
    cases h
    exact .one rfl
  | pause p =>
    cases h
    exact .of_eq Spool.sent_safePauseJob
  | relegate p =>
    cases h
    exact .of_eq Spool.sent_sRelegateJob
  | bottom ids =>
    cases h
    exact .of_eq (Spool.sent_foldl (f := Spool.movebottomDb) (fun _ _ => rfl) _ _)
  | finish r jobid => exact .of_eq (Spool.sent_jobFinished h)
  | notify jobid => exact Spool.sends_checkNotifyList h
  | recount => exact .of_eq (Spool.sent_recount h)
  | dispatch uid p => exact Spool.sends_dispatch h
  | fill socket m user old =>
    rw [run, Except.map_eq_ok] at h
    obtain ⟨r, hr, rfl⟩ := h
    exact Spool.sends_newjobFill hr
  | runjobOk jobid oname pid => exact .of_eq (Spool.sent_sProcessRunjobOk h)
  | health jobid =>
    cases h
    exact .of_eq Spool.sent_checkHealth
  | delete jobid => exact .of_eq (Spool.sent_sDeleteJob h)
  | removeActive p => exact (Spool.removeActive_tells h).sends
  | removeFinished p => exact (Spool.removeFinished_tells h).sends
  | clear user =>
    cases h
    exact .of_eq Spool.sent_sClearFinished
  | start p =>
    cases h
    exact .of_eq Spool.sent_configRunning
  | urgent socket jobid =>
    cases h
    exact Spool.sends_sMoveUrgent
  | swap socket jobid₁ jobid₂ =>
    cases h
    exact Spool.sends_sSwapJobs
  | addWtime socket jobid w =>
    cases h
    exact Spool.sends_sAddWtime
  | wait socket p =>
    cases h
    rw [Spool.waitFor]
    split_ifs
    · exact .one ⟨rfl, _, rfl⟩
    · exact .of_eq rfl
  | runjob socket jobid => exact Spool.sends_sSendRunjob h
  | _ =>
    cases h
    exact .of_eq rfl

end Op

theorem Spool.timeoutLock_cases (e : Env) (s : Spool) :
    s.timeoutLock e = s ∨ s.timeoutLock e = { s with userLocker := none } := by
  rw [timeoutLock]
  split
  · exact .inl rfl
  · split_ifs
    · exact .inr rfl
    · exact .inl rfl
    · exact .inr rfl
    · exact .inl rfl

/-! ### Where the operations come from -/

namespace Server

variable {e : Env} {s : Server} {i : Input} {o : Op} {sp : Spool}

/-- The inputs at which a socket begins to wait, loses an entry of the list, or claims a job. -/
def Source (s : Server) (i : Input) : Op → Prop
  | .wait _ _ => ∃ index jobid, i = .message index (.request (.waitjob jobid)) ∨
      i = .message index (.request (.waitRunningJob jobid))
  | .unnotify k => ∃ index, (i = .disconnect index ∨ i = .message index .unknown ∨
      ∃ m, i = .message index (.newjob m)) ∧ (s.clientCs index).socket = k ∨
      ∃ format jobid, i = .message index (.killAll format jobid)
  | .reconnect _ _ _ => ∃ index jobid pid, i = .message index (.reconnect jobid pid)
  | _ => True

theorem source_of_ofUsage (h : o.ofUsage e sp) : s.Source i o := by
  cases o with
  | wait k p | unnotify k | reconnect p st k => exact h.elim
  | _ => trivial

theorem source_of_ofClean {jobid : ℤ} (h : o.ofClean jobid sp) : s.Source i o := by
  cases o with
  | wait k p | unnotify k | reconnect p st k => exact h.elim
  | _ => trivial

/-- **The operations of an input** have it as their source. -/
theorem Performs.source (h : s.Performs e i o sp) : s.Source i o := by
  cases i with
  | message index m =>
    obtain h | h := h
    · cases o with
      | wait k p | unnotify k | reconnect p st k => exact h.elim
      | _ => trivial
    cases m with
    | request r =>
      obtain h | ⟨-, -, rfl⟩ := h
      · cases o with
        | wait k p =>
          cases r with
          | waitjob jobid => exact ⟨index, jobid, .inl rfl⟩
          | waitRunningJob jobid => exact ⟨index, jobid, .inr rfl⟩
          | _ => exact h.elim
        | unnotify k | reconnect p st k => cases r <;> exact h.elim
        | _ => trivial
      · trivial
    | newjob m =>
      obtain h | h | h := h
      · exact source_of_ofUsage h
      · cases o with
        | wait k p | reconnect p st k => exact h.elim
        | unnotify k => exact ⟨index, .inl ⟨.inr (.inr ⟨m, rfl⟩), h.symm⟩⟩
        | _ => trivial
      · cases o with
        | wait k p | unnotify k | reconnect p st k => exact h.elim
        | _ => trivial
    | runjobOk oname pid =>
      cases h
      trivial
    | endjob r =>
      obtain rfl | rfl | ⟨r', rfl⟩ := h
      · trivial
      · trivial
      · trivial
    | reconnect jobid pid =>
      cases o with
      | wait k p | unnotify k => exact h.elim
      | reconnect p st k => exact ⟨index, jobid, pid, rfl⟩
      | _ => trivial
    | removejob jobid =>
      cases o with
      | wait k p | unnotify k | reconnect p st k => exact h.elim
      | _ => trivial
    | killAll format jobid =>
      obtain ⟨r', rfl⟩ | h | ⟨k', rfl⟩ | ⟨k', -, -, h⟩ | ⟨k', -, -, -, rfl⟩ := h
      · trivial
      · exact source_of_ofUsage h
      · exact ⟨index, .inr ⟨format, jobid, rfl⟩⟩
      · exact source_of_ofClean h
      · trivial
    | killServer => exact h.elim
    | unknown =>
      obtain ⟨-, h⟩ | ⟨-, rfl⟩ := h
      · exact source_of_ofClean h
      · exact ⟨index, .inl ⟨.inr (.inl rfl), rfl⟩⟩
  | disconnect index =>
    obtain ⟨-, h⟩ | ⟨-, rfl⟩ := h
    · exact source_of_ofClean h
    · exact ⟨index, .inl ⟨.inl rfl, rfl⟩⟩
  | health =>
    obtain ⟨jobid, rfl⟩ := h
    trivial
  | cleanup =>
    obtain ⟨jobid, p', rfl, -⟩ := h
    trivial
  | schedule =>
    obtain h | ⟨p', rfl⟩ := h
    · exact source_of_ofUsage (h.ofUsage (e := e))
    · trivial
  | accept k' uid =>
    obtain ⟨r, rfl⟩ := h
    trivial
  | restart => exact h.elim

end Server

end TaskSpooler
