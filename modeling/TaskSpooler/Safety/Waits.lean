import TaskSpooler.Ops.Utters
import TaskSpooler.Sched.States
import TaskSpooler.Server.Sockets

/-!
# Every wait has one answer

The list of `notify.c` is edited by sockets: whoever is told of the end of a job loses its first entry,
which may be the one of another job.  So what an entry says cannot be relied on, but their number can.

* `waits_accounted`: in every run that does not close the connection, the number of answers that a
  socket has got and the number of its entries in the list together grow by one with every wait that
  is accepted, and never otherwise.  No wait is answered twice, and none is lost.
* `told_le_waits`: in every run whatever, a socket never gets more answers than it has waits.
* `Op.account_run`: the operations, one by one.

A connection is closed when the client goes away, sends an unknown message, is refused a job, or when
its user or root sends `KILL_ALL`.  At most one of its entries is removed then.  The others stay, and
the next client that gets the socket inherits them (`told_le_waits_closed`).
-/

namespace TaskSpooler

/-- `WAITJOB_OK`. -/
def Reply.endsWait : Reply → Bool
  | waitjobOk _ => true
  | _ => false

namespace Spool

open Waiting

variable {e : Env} {P : ℤ × Reply → Prop} {s s' s'' : Spool} {p : Job} {jobid socket k : ℤ}

/-- How often the socket was told of the end of a job. -/
def told (s : Spool) (socket : ℤ) : ℕ := s.sent.countP fun y => y.1 = socket ∧ y.2.endsWait

/-- The entries of the socket. -/
def pending (s : Spool) (socket : ℤ) : ℕ := s.notifies.countP fun n => n.1 = socket

/-- The waits of the socket, answered or not. -/
def account (s : Spool) (socket : ℤ) : ℕ := s.told socket + s.pending socket

theorem account_congr (hsent : s'.sent = s.sent) (hnotifies : s'.notifies = s.notifies) :
    s'.account socket = s.account socket := by
  rw [account, account, told, told, pending, pending, hsent, hnotifies]

theorem told_of_sends (h : Sends P s s') (hP : ∀ y, P y → y.1 = socket → y.2.endsWait = false) :
    s'.told socket = s.told socket := by
  obtain ⟨l, hl, hy⟩ := h
  have hnone : l.countP (fun y => y.1 = socket ∧ y.2.endsWait) = 0 := by
    refine List.countP_eq_zero.2 fun y hyl => ?_
    rw [decide_eq_true_eq]
    rintro ⟨hsock, hends⟩
    rw [hP y (hy y hyl) hsock] at hends
    cases hends
  rw [told, told, hl, List.countP_append, hnone, Nat.zero_add]

theorem account_of_sends (h : Sends P s s') (hP : ∀ y, P y → y.1 = socket → y.2.endsWait = false)
    (hnotifies : s'.notifies = s.notifies) : s'.account socket = s.account socket := by
  rw [account, account, told_of_sends h hP, pending, pending, hnotifies]

theorem told_send {r : Reply} : (s.send k r).told socket =
    s.told socket + if k = socket ∧ r.endsWait then 1 else 0 := by
  show ((k, r) :: s.sent).countP _ = _
  rw [List.countP_cons]
  simp only [decide_eq_true_eq]
  rfl

theorem notifies_sClearFinished {user : ℕ} : (s.sClearFinished user).notifies = s.notifies :=
  Except.foldl_induction (R := fun s s' : Spool => s'.notifies = s.notifies) (fun _ => rfl)
    (fun h h' => h'.trans h) _ fun _ => rfl

theorem account_send {r : Reply} (hr : r.endsWait = false) :
    (s.send k r).account socket = s.account socket := by
  rw [account, told_send, hr, if_neg (by simp)]
  rfl

/-! ### Telling those who wait -/

theorem told_tell {r : ℤ} {l : List (ℤ × ℤ)} :
    (s.tell r l).told socket = s.told socket + l.countP fun n => n.1 = socket := by
  induction l generalizing s with
  | nil => rfl
  | cons n l ih =>
    have hone : (s.tell r [n]).told socket = s.told socket + if n.1 = socket then 1 else 0 := by
      have hsend : (s.tell r [n]).told socket = _ := told_send (s := s) (k := n.1)
      simp only [Reply.endsWait, and_true] at hsend
      exact hsend
    rw [tell_cons, ih, hone, List.countP_cons]
    simp only [decide_eq_true_eq]
    omega

theorem pending_tell {r : ℤ} {l : List (ℤ × ℤ)} :
    (s.tell r l).pending socket = s.pending socket - l.countP fun n => n.1 = socket := by
  have hcount : ∀ l : List (ℤ × ℤ), l.countP (fun n => n.1 = socket) =
      (l.filter fun n => n.1 = socket).length := fun _ => List.countP_eq_length_filter
  rw [pending, pending, notifies_tell, hcount, hcount s.notifies, filter_removeFirsts,
    List.length_drop]

/-- Everyone who is told has an entry. -/
theorem account_toldOf {j : Job} : (s.toldOf j).account socket = s.account socket := by
  have hle : (s.notifies.filter fun n => n.2 = j.jobid).countP (fun n => n.1 = socket) ≤
      s.pending socket := List.filter_sublist.countP_le
  rw [account, account, toldOf, told_tell, pending_tell]
  omega

theorem account_checkNotifyList (h : s.checkNotifyList jobid = .ok s') :
    s'.account socket = s.account socket := by
  cases hget : s.getJob jobid with
  | none =>
    rw [checkNotifyList] at h
    cases hl : s.notifies.filter (fun n => n.2 = jobid) with
    | nil =>
      rw [hl] at h
      cases h
      rfl
    | cons n l =>
      rw [hl, List.foldlM_cons, notifyWaiter] at h
      simp only [hget] at h
      cases h
  | some j =>
    have hid : j.jobid = jobid := getJob_jobid hget
    subst hid
    by_cases hover : j.state = .finished ∨ j.state = .skipped
    · rw [checkNotifyList_eq hget hover] at h
      split_ifs at h
      · rw [destroyFinishedJob] at h
        split at h
        · cases h
        · cases h
          exact account_toldOf
      · cases h
        exact account_toldOf
    · rw [checkNotifyList_of_not_over hget hover] at h
      cases h
      rfl

theorem Tells.account (h : Tells s s' jobid) : s'.account socket = s.account socket := by
  obtain ⟨s₁, s₂, hsent, hnotifies, hcheck, hsent', hnotifies'⟩ := h
  rw [account_congr hsent' hnotifies', account_checkNotifyList hcheck, account_congr hsent hnotifies]

/-- A wait is answered at once, or it gets an entry. -/
theorem account_waitFor :
    (s.waitFor k p).account socket = s.account socket + if k = socket then 1 else 0 := by
  rw [waitFor]
  split_ifs with hover hk hk
  · rw [account, told_send]
    simp only [hk, Reply.endsWait, and_self, if_true]
    show _ + 1 + s.pending socket = _
    rw [account]
    omega
  · rw [account, told_send]
    simp only [hk, false_and, if_false]
    rfl
  · show s.told socket + (s.notifies ++ [(k, p.jobid)]).countP _ = _
    rw [List.countP_append, List.countP_singleton, account, pending]
    simp only [hk, decide_true, if_true]
    omega
  · show s.told socket + (s.notifies ++ [(k, p.jobid)]).countP _ = _
    rw [List.countP_append, List.countP_singleton, account, pending]
    simp only [hk, decide_false, Bool.false_eq_true, if_false, Nat.add_zero]

theorem pending_sRemoveNotification_of_ne (hk : k ≠ socket) :
    (s.sRemoveNotification k).pending socket = s.pending socket := by
  have hother : (s.notifies.eraseP fun n => n.1 = k).filter (fun n => n.1 = socket) =
      s.notifies.filter fun n => n.1 = socket := by
    rw [filter_eraseP (n := (k, k)), if_neg (Ne.symm hk)]
  rw [pending, pending, List.countP_eq_length_filter, List.countP_eq_length_filter]
  exact congrArg List.length hother

theorem pending_sRemoveNotification_le :
    (s.sRemoveNotification k).pending socket ≤ s.pending socket :=
  (List.eraseP_sublist ..).countP_le

end Spool

/-! ### The operations -/

namespace Op

variable {e : Env} {s s' : Spool} {o : Op} {socket : ℤ}

/-- The operation is a wait of the socket, or it drops an entry of the socket. -/
def Counts (socket : ℤ) : Op → Prop
  | wait k _ | unnotify k => k = socket
  | _ => False

/-- Nobody is told of the end of a job by the operations that leave the waiting list alone. -/
theorem endsWait_of_utters (hpre : o.Pre e s) (ho : ¬o.Stirs) {y : ℤ × Reply} (hy : o.utters y) :
    y.2.endsWait = false := by
  have hmild : ∀ {r : Reply}, r.tells = false → r.endsWait = false := fun {r} hr => by
    cases r with
    | waitjobOk errorlevel => exact hr
    | _ => rfl
  cases o with
  | settings l t env dir b | finish r jobid | notify jobid | removeActive p | removeFinished p
  | clear user | wait k p | unnotify k | reconnect p st k => exact absurd trivial ho
  | send k r =>
    rw [show y = (k, r) from hy]
    exact hmild hpre
  | dispatch uid p | runjob k jobid =>
    obtain ⟨-, errorlevel, hr⟩ := hy
    rw [hr]
    rfl
  | fill k m user old | urgent k jobid | swap k jobid₁ jobid₂ | addWtime k jobid w =>
    exact hmild hy.2
  | _ => exact hy.elim

/-- **An operation keeps the account** of a socket, unless it is a wait or the end of the socket. -/
theorem account_run (hpre : o.Pre e s) (h : o.run e s = .ok s') (ho : ¬o.Counts socket) :
    s'.account socket = s.account socket := by
  by_cases hstirs : o.Stirs
  · cases o with
    | settings l t env dir b | reconnect p st k =>
      cases h
      rfl
    | finish r jobid =>
      exact Spool.account_congr (Spool.sent_jobFinished h) (Spool.notifies_jobFinished h)
    | notify jobid => exact Spool.account_checkNotifyList h
    | removeActive p => exact (Spool.removeActive_tells h).account
    | removeFinished p => exact (Spool.removeFinished_tells h).account
    | clear user =>
      cases h
      exact Spool.account_congr Spool.sent_sClearFinished Spool.notifies_sClearFinished
    | wait k p =>
      cases h
      rw [Spool.account_waitFor, if_neg (show ¬k = socket from ho), Nat.add_zero]
    | unnotify k =>
      cases h
      rw [Spool.account, Spool.pending_sRemoveNotification_of_ne ho]
      rfl
    | _ => exact hstirs.elim
  · exact Spool.account_of_sends (sends_run h) (fun y hy _ => endsWait_of_utters hpre hstirs hy)
      (Spool.notifies_of_aside (aside_run h hstirs))

/-- At the end of the socket an entry may be lost. -/
theorem account_run_le (hpre : o.Pre e s) (h : o.run e s = .ok s') (ho : ∀ p, o ≠ wait socket p) :
    s'.account socket ≤ s.account socket := by
  by_cases hcounts : o.Counts socket
  · cases o with
    | wait k p => exact absurd (by rw [show k = socket from hcounts]) (ho p)
    | unnotify k =>
      cases h
      exact Nat.add_le_add_left Spool.pending_sRemoveNotification_le _
    | _ => exact hcounts.elim
  · exact (account_run hpre h hcounts).le

end Op

namespace Ops

variable {e : Env} {s s' : Spool} {ok : Op → Spool → Prop} {socket : ℤ}

theorem account (h : Ops e ok s s') (hok : ∀ o s, ok o s → ¬o.Counts socket) :
    s'.account socket = s.account socket :=
  h.invariant (I := fun r => r.account socket = s.account socket) rfl fun hI ho hpre hr =>
    (Op.account_run hpre hr (hok _ _ ho)).trans hI

theorem account_le (h : Ops e ok s s') (hok : ∀ o s p, ok o s → o ≠ .wait socket p) :
    s'.account socket ≤ s.account socket :=
  h.invariant (I := fun r => r.account socket ≤ s.account socket) (Nat.le_refl _)
    fun hI ho hpre hr => (Op.account_run_le hpre hr fun p => hok _ _ p ho).trans hI

end Ops

/-! ### The steps -/

namespace Server

variable {e : Env} {s s' s₀ : Server} {C : Config} {i : Input} {l : Env × Input} {socket : ℤ}
  {index : ℕ}

/-- How many waits of the socket the server accepts in the step. -/
def asks (s : Server) (socket : ℤ) : Input → ℕ
  | .message index (.request (.waitjob jobid)) =>
    if (s.clientCs index).socket = socket ∧
        (if jobid = -1 then s.lastJob else s.getJob jobid).isSome then 1 else 0
  | .message index (.request (.waitRunningJob jobid)) =>
    if (s.clientCs index).socket = socket ∧ s.noJobs jobid = false ∧
        ((s.currentJob jobid).toOption.join).isSome then 1 else 0
  | _ => 0

/-- The step is none at which the connection of the socket may be closed by an accident, and it is not
the server that goes away.  A request that closes its connection is none of these. -/
def Spares (s : Server) (socket : ℤ) : Input → Prop
  | .restart => False
  | .disconnect index | .message index .unknown | .message index (.newjob _) =>
    (s.clientCs index).socket ≠ socket
  | .message index (.killAll _ _) => ∀ x ∈ s.roster, x.1 = socket →
      (s.clientCs index).user ≠ 0 ∧ x.2 ≠ (s.clientCs index).user
  | _ => True

instance decidableSpares (s : Server) (socket : ℤ) : ∀ i, Decidable (s.Spares socket i)
  | .restart => inferInstanceAs (Decidable False)
  | .disconnect _ | .message _ .unknown | .message _ (.newjob _) =>
    inferInstanceAs (Decidable (_ ≠ _))
  | .message index (.killAll _ _) => inferInstanceAs (Decidable (∀ x ∈ s.roster, x.1 = socket →
      (s.clientCs index).user ≠ 0 ∧ x.2 ≠ (s.clientCs index).user))
  | .message _ (.runjobOk _ _) | .message _ (.endjob _) | .message _ (.reconnect _ _)
  | .message _ (.removejob _) | .message _ .killServer | .message _ (.request _) | .accept _ _
  | .health | .cleanup | .schedule => inferInstanceAs (Decidable True)

theorem account_clean {k : ℤ} (hk : k ≠ socket) (h : s.cleanAfterClientDisappeared e k index = .ok s') :
    s'.account socket = s.account socket := by
  refine (clean_ops h).account fun o sp ho hcounts => ?_
  obtain ⟨-, ho⟩ | ⟨-, rfl⟩ := ho
  · cases o with
    | wait k' p | unnotify k' => exact ho
    | _ => exact hcounts
  · exact hk hcounts

/-- The connections of the other users stay. -/
theorem account_removeQueuesLoop {user fuel j : ℕ}
    (hother : ∀ x ∈ s.roster, x.1 = socket → user ≠ 0 ∧ x.2 ≠ user)
    (h : removeQueuesLoop e user fuel j s = .ok s') : s'.account socket = s.account socket := by
  induction fuel generalizing j s with
  | zero =>
    cases h
    rfl
  | succ fuel ih =>
    rw [removeQueuesLoop] at h
    split_ifs at h with hj hrem
    · rw [Except.bind_eq_ok] at h
      obtain ⟨s₁, h₁, h⟩ := h
      have hmem : ((s.clientCs j).socket, (s.clientCs j).user) ∈ s.roster :=
        List.mem_map.2 ⟨j, List.mem_range.2 (by omega), rfl⟩
      have hne : (s.clientCs j).socket ≠ socket := fun hsock => by
        obtain ⟨hroot, huser⟩ := hother _ hmem hsock
        exact hrem.1.elim hroot huser
      have hkeeps : Keeps s s₁ := (edits_clean (u := 0) (G := fun _ => False) h₁).keeps
      rw [ih (fun x hx => hother x (hkeeps.subset hx)) h, account_clean hne h₁]
    · exact ih hother h
    · cases h
      rfl

theorem account_removeConnection (h : s.removeConnection index = .ok s') :
    s'.account socket = s.account socket := by
  refine (removeConnection_ops (e := world 0) h).account fun o sp ho hcounts => ?_
  rw [ho.2] at hcounts
  exact hcounts

theorem ofUsage_not_counts {o : Op} {sp : Spool} (ho : o.ofUsage e sp) : ¬o.Counts socket := by
  intro hcounts
  cases o with
  | wait k p | unnotify k => exact ho
  | _ => exact hcounts

theorem account_killAll {format : ListFormat} {jobid : ℤ} (hids : s.view.Ids)
    (hother : ∀ x ∈ s.roster, x.1 = socket →
      (s.clientCs index).user ≠ 0 ∧ x.2 ≠ (s.clientCs index).user)
    (h : s.killAll e index format jobid = .ok s') : s'.account socket = s.account socket := by
  have hsend : ∀ {o : Op}, (∃ k r, o = .send k r) → ¬o.Counts socket := by
    rintro o ⟨k, r, rfl⟩ hcounts
    exact hcounts
  simp only [killAll, Except.bind_eq_ok] at h
  obtain ⟨s₁, h₁, s₂, h₂, h⟩ := h
  rw [onSpoolM, Except.map_eq_ok] at h₂
  obtain ⟨sp, hsp, rfl⟩ := h₂
  have hkill : Ops e (fun o _ => ∃ k r, o = .send k r) s.toSpool
      (s.toSpool.sKillAllJobs (s.clientCs index).socket (s.clientCs index).user) :=
    sKillAllJobs_ops fun r _ => ⟨_, r, rfl⟩
  have hids₁ : s₁.view.Ids := (removeQueuesLoop_ops Derived.refl h₁).ids (hkill.ids hids)
  have hlist : Ops e (fun o sp => (∃ k r, o = .send k r) ∨ o.ofUsage e sp) s₁.toSpool sp :=
    Spool.sList_ops hids₁ (fun r _ => .inl ⟨_, r, rfl⟩) (fun _ _ ho => .inr ho) hsp
  calc s'.account socket
      = sp.account socket := account_removeConnection h
    _ = s₁.account socket := hlist.account fun o sp ho => ho.elim hsend ofUsage_not_counts
    _ = (s.onSpool fun sp => sp.sKillAllJobs (s.clientCs index).socket
          (s.clientCs index).user).account socket := account_removeQueuesLoop hother h₁
    _ = s.account socket := hkill.account fun o sp ho => hsend ho

/-! ### The two requests that wait -/

theorem account_timeoutLock {sp : Spool} : (sp.timeoutLock e).account socket = sp.account socket := by
  obtain hsp | hsp := Spool.timeoutLock_cases e sp
  · rw [hsp]
  · rw [hsp]
    rfl

theorem account_sWaitJob {sp : Spool} {k jobid : ℤ} : (sp.sWaitJob k jobid).account socket =
    sp.account socket + if k = socket ∧
      (if jobid = -1 then sp.lastJob else sp.getJob jobid).isSome then 1 else 0 := by
  rw [Spool.sWaitJob]
  cases (if jobid = -1 then sp.lastJob else sp.getJob jobid) with
  | none =>
    rw [if_neg (by simp)]
    exact Spool.account_send rfl
  | some p => simp [Spool.account_waitFor]

theorem account_sWaitRunningJob {sp sp' : Spool} {k jobid : ℤ}
    (h : sp.sWaitRunningJob k jobid = .ok sp') : sp'.account socket =
      sp.account socket + if k = socket ∧ sp.noJobs jobid = false ∧
        ((sp.currentJob jobid).toOption.join).isSome then 1 else 0 := by
  rw [Spool.sWaitRunningJob] at h
  by_cases hno : sp.noJobs jobid = true
  · rw [if_pos hno] at h
    cases h
    rw [hno, if_neg (by simp)]
    exact Spool.account_send rfl
  · rw [if_neg hno, Except.bind_eq_ok] at h
    obtain ⟨o, ho, h⟩ := h
    rw [ho]
    cases o with
    | none =>
      cases h
      rw [if_neg (by simp [Except.toOption])]
      exact Spool.account_send rfl
    | some p =>
      cases h
      rw [Spool.account_waitFor]
      simp [Except.toOption, hno]

theorem account_wait {jobid : ℤ} (hi : i = .message index (.request (.waitjob jobid)) ∨
    i = .message index (.request (.waitRunningJob jobid))) (h : s.step e i = .ok s') :
    s'.account socket = s.account socket + s.asks socket i := by
  have hasks : (s.onSpool fun sp => sp.timeoutLock e).asks socket i = s.asks socket i := by
    obtain hsp | hsp := Spool.timeoutLock_cases e s.toSpool
    · rw [onSpool, hsp]
    · rw [onSpool, hsp]
      obtain rfl | rfl := hi
      · rfl
      · rfl
  have hlock : (s.toSpool.timeoutLock e).account socket = s.account socket := account_timeoutLock
  rw [← hlock, ← hasks]
  obtain rfl | rfl := hi
  · rw [step, clientRead, handle, handleRequest, Except.bind_eq_ok] at h
    obtain ⟨s₁, h₁, h⟩ := h
    cases h
    cases h₁
    exact account_sWaitJob
  · rw [step, clientRead, handle, handleRequest, Except.bind_eq_ok] at h
    obtain ⟨s₁, h₁, h⟩ := h
    cases h
    rw [onSpoolM, Except.map_eq_ok] at h₁
    obtain ⟨sp, hsp, rfl⟩ := h₁
    exact account_sWaitRunningJob hsp

theorem asks_of_not_wait (hi : ∀ index jobid, i ≠ .message index (.request (.waitjob jobid)) ∧
    i ≠ .message index (.request (.waitRunningJob jobid))) : s.asks socket i = 0 := by
  unfold asks
  split
  · exact absurd rfl (hi _ _).1
  · exact absurd rfl (hi _ _).2
  · rfl

/-- **An accepted wait is counted once**, and nothing else is. -/
theorem account_step (hs : s.Sound) (hen : s.Enabled i) (hi : s.Spares socket i)
    (h : s.step e i = .ok s') : s'.account socket = s.account socket + s.asks socket i := by
  by_cases hwait : ∃ index jobid, i = .message index (.request (.waitjob jobid)) ∨
      i = .message index (.request (.waitRunningJob jobid))
  · obtain ⟨index, jobid, hwait⟩ := hwait
    exact account_wait hwait h
  have hasks : s.asks socket i = 0 := asks_of_not_wait fun index jobid =>
    not_or.1 fun hi => hwait ⟨index, jobid, hi⟩
  rw [hasks, Nat.add_zero]
  by_cases hkill : ∃ index format jobid, i = .message index (.killAll format jobid)
  · obtain ⟨index, format, jobid, rfl⟩ := hkill
    have hids : (s.onSpool fun sp => sp.timeoutLock e).view.Ids := hs.timeoutLock.ids
    exact (account_killAll hids hi h).trans account_timeoutLock
  have hrestart : i ≠ .restart := by
    rintro rfl
    exact hi
  refine (step_ops hs hen hrestart h).account fun o sp ho hcounts => ?_
  cases o with
  | wait k p => exact hwait ho.source
  | unnotify k =>
    obtain ⟨index, ⟨hclose, hk⟩ | ⟨format, jobid, hi'⟩⟩ := ho.source
    · have hsocket : (s.clientCs index).socket = socket := hk.trans hcounts
      obtain rfl | rfl | ⟨m, rfl⟩ := hclose
      · exact hi hsocket
      · exact hi hsocket
      · exact hi hsocket
    · exact hkill ⟨index, format, jobid, hi'⟩
  | _ => exact hcounts

/-- Without the condition, an entry may be lost. -/
theorem account_step_le (hs : s.Sound) (hen : s.Enabled i) (hi : i ≠ .restart)
    (h : s.step e i = .ok s') : s'.account socket ≤ s.account socket + s.asks socket i := by
  by_cases hwait : ∃ index jobid, i = .message index (.request (.waitjob jobid)) ∨
      i = .message index (.request (.waitRunningJob jobid))
  · obtain ⟨index, jobid, hwait⟩ := hwait
    exact (account_wait hwait h).le
  · refine ((step_ops hs hen hi h).account_le fun o sp p ho heq => ?_).trans (Nat.le_add_right _ _)
    rw [heq] at ho
    exact hwait ho.source

/-! ### The runs -/

/-- The steps, with the number of waits of the socket that have been accepted. -/
def Counted (C : Config) (socket : ℤ) (x : Server × ℕ) (l : Env × Input) (x' : Server × ℕ) : Prop :=
  Step C x.1 l x'.1 ∧ x'.2 = x.2 + x.1.asks socket l.2

/-- Every run can be counted. -/
theorem exists_counted {ok : Env × Input → Server → Prop} (socket : ℤ) (h : Run (Step C) ok s₀ s) :
    ∃ n, Run (Counted C socket) (fun l x => ok l x.1) (s₀, 0) (s, n) := by
  induction h with
  | start => exact ⟨0, .start⟩
  | @next s s' l _ hok hst ih =>
    obtain ⟨n, hn⟩ := ih
    exact ⟨n + s.asks socket l.2, hn.next hok ⟨hst, rfl⟩⟩

/-- **No answer without a wait**: this holds of every connection, whether it is closed or not. -/
theorem told_le_waits {x : Server × ℕ} (hs : s₀.Sound)
    (h : Run (Counted C socket) (fun l x => noRestart l x.1) (s₀, 0) x) :
    x.1.told socket + x.1.pending socket ≤ s₀.told socket + s₀.pending socket + x.2 := by
  have hinv : x.1.Sound ∧ x.1.account socket ≤ s₀.account socket + x.2 := by
    refine Run.invariant (I := fun x : Server × ℕ => x.1.Sound ∧
      x.1.account socket ≤ s₀.account socket + x.2) h ⟨hs, Nat.le_refl _⟩ ?_
    rintro ⟨s, n⟩ ⟨s', n'⟩ l ⟨hs, hn⟩ hi ⟨hst, hn'⟩
    refine ⟨hst.sound hs, ?_⟩
    have hle : s'.account socket ≤ s.account socket + s.asks socket l.2 :=
      account_step_le hs hst.2.1 (ne_restart_of_noRestart hi) hst.2.2
    dsimp only at hn hn' hle ⊢
    omega
  exact hinv.2

/-- The socket is closed, and the next client that gets it is told of the end of a job for which only
the first one has waited. -/
theorem told_le_waits_closed : ∃ x : Server × ℕ, x.1.told 7 = 1 ∧ x.1.pending 7 = 0 ∧ 1 ≤ x.2 := by
  obtain ⟨s, hr, hP⟩ := exists_run plainConfig noRestart started
    (fun s => s.told 7 = 1 ∧ s.pending 7 = 0)
    [(world 1, .accept 5 1000), (world 2, .message 0 (.newjob {})), (world 3, .schedule),
      (world 4, .message 0 (.runjobOk none 100)), (world 5, .accept 7 1000),
      (world 6, .message 1 (.request (.waitjob 1000))),
      (world 7, .message 1 (.request (.waitjob 1000))), (world 8, .disconnect 1),
      (world 9, .accept 7 1000), (world 10, .message 0 (.endjob {}))]
    (by simp [world]) (by decide +kernel)
  obtain ⟨htold, hpending⟩ := of_decide_eq_true hP
  obtain ⟨n, hn⟩ := exists_counted 7 hr
  have hle := told_le_waits fresh_started.sound hn
  refine ⟨(s, n), htold, hpending, ?_⟩
  dsimp only at hle ⊢
  rw [htold, hpending, show started.told 7 = 0 from rfl, show started.pending 7 = 0 from rfl] at hle
  omega

end Server

end TaskSpooler
