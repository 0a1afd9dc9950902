import TaskSpooler.Ops.Lock
import TaskSpooler.Server.Roster
import TaskSpooler.Server.Runs

/-!
# The lock of the server

A user can lock the server for a while; the jobs of other users are not accepted then.

* `lock_excludes_others`: the lock is kept for its whole duration, if no `NEWJOB` comes later than
  `DEFAULT_USER_LOCK_TIME` after it was taken.
* `root_lock_dropped`: root may keep the lock for `DEFAULT_ROOT_LOCK_TIME`, but `s_check_locker`
  drops it as if it were the lock of a user.
-/

namespace TaskSpooler

namespace Spool

variable {e : Env} {s s' : Spool} {socket : ℤ} {user u : ℕ} {t : ℤ}

/-- `DEFAULT_ROOT_LOCK_TIME` or `DEFAULT_USER_LOCK_TIME`. -/
def lockTime (s : Spool) (u : ℕ) : ℤ := if (s.users u).uid = 0 then 86400 else 30

theorem lock_eq : s.lock = (some u, t) ↔ s.userLocker = some u ∧ s.lockerTime = t := Prod.mk_inj

theorem timeoutLock_of_inForce (h : s.lock = (some u, t)) (hnow : e.now ≤ t + s.lockTime u) :
    s.timeoutLock e = s := by
  obtain ⟨hu, ht⟩ := lock_eq.1 h
  unfold timeoutLock
  simp only [hu]
  refine if_neg (not_lt.2 ?_)
  rw [← lockTime]
  omega

theorem sCheckLocker_of_inForce (h : s.lock = (some u, t)) (hnow : e.now ≤ t + 30) :
    s.sCheckLocker e user = (s, decide (user ≠ u)) := by
  obtain ⟨hu, ht⟩ := lock_eq.1 h
  have hold : ¬(s.userLocker.isSome ∧ 30 < e.now - s.lockerTime) := fun h => by omega
  rw [sCheckLocker, if_neg hold, hu]
  simp [eq_comm]

theorem lock_sLockServer (hl : s.lock = (some u, t)) (huid : (s.users user).uid ≠ 0)
    (h : s.sLockServer e socket user = .ok s') : s'.lock = s.lock := by
  obtain ⟨hu, -⟩ := lock_eq.1 hl
  rw [sLockServer] at h
  simp only [if_neg huid, hu] at h
  cases h
  rfl

theorem lock_sUnlockServer (hl : s.lock = (some u, t)) (huid : (s.users user).uid ≠ 0)
    (hne : user ≠ u) : (s.sUnlockServer socket user).lock = s.lock := by
  obtain ⟨hu, -⟩ := lock_eq.1 hl
  simp only [sUnlockServer, hu, if_neg huid, if_neg hne.symm]
  rfl

end Spool

namespace Server

variable {e : Env} {s s' s₀ r f : Server} {C : Config} {i : Input} {index u : ℕ} {t : ℤ}

/-- The lock that `u` took at the time `t` is in force when the step is made, and the step does not
end it: it is no `UNLOCK_SERVER` of `u` or of root, root does not take the lock over, and the server
is not started again. -/
def lockInForce (u : ℕ) (t : ℤ) (l : Env × Input) (s : Server) : Prop :=
  l.1.now ≤ t + s.lockTime u ∧
    match l.2 with
    | .message index (.request .unlockServer) =>
      (s.clientCs index).user ≠ u ∧ (s.users (s.clientCs index).user).uid ≠ 0
    | .message index (.request .lockServer) => (s.users (s.clientCs index).user).uid ≠ 0
    | .restart => False
    | _ => True

/-- Besides, a `NEWJOB` comes within `DEFAULT_USER_LOCK_TIME`. -/
def lockObserved (u : ℕ) (t : ℤ) (l : Env × Input) (s : Server) : Prop :=
  lockInForce u t l s ∧
    match l.2 with
    | .message _ (.newjob _) => l.1.now ≤ t + 30
    | _ => True

theorem lockInForce.ne_restart {l : Env × Input} (h : lockInForce u t l s) : l.2 ≠ .restart := by
  intro hl
  have h := h.2
  rw [hl] at h
  exact h

/-- The operations of a step keep the lock, but for those that drop or change it. -/
theorem lock_of_ops {ok : Op → Spool → Prop} {sp sp' : Spool} (h : Ops e ok sp sp')
    (hset : ∀ s l t' env dir b, s.lock = sp.lock → ok (.settings l t' env dir b) s → (l, t') = s.lock) :
    sp'.lock = sp.lock := by
  refine h.invariant (I := fun s => s.lock = sp.lock) rfl fun {s s' o} hI hok _ hrun => ?_
  have hlock := Op.lock_run hrun
  cases o with
  | settings l t' env dir b => exact hlock.trans ((hset s l t' env dir b hI hok).trans hI)
  | _ => exact hlock.trans hI

theorem lock_removeConnection (h : s.removeConnection index = .ok s') : s'.lock = s.lock := by
  obtain ⟨sp, hsp, rfl⟩ := removeConnection_spec h
  split_ifs at hsp
  · exact Spool.lock_sDeleteJob hsp
  · rw [hsp]
    rfl

/-- A request of another user does not end the lock. -/
theorem lock_handleRequest {q : Request} (hs : s.Sound) (hl : s.lock = (some u, t))
    (hok : lockInForce u t (e, .message index (.request q)) s)
    (h : s.handleRequest e index q = .ok s') : s'.lock = (some u, t) := by
  have hops := handleRequest_ops hs.ids h
  have hclose : ∀ l t' env dir b, ¬(q.closes = true ∧ (s.clientCs index).hasjob ∧
      Op.settings l t' env dir b = .delete (s.clientCs index).jobid) := by
    rintro l t' env dir b ⟨-, -, ho⟩
    cases ho
  -- only these two requests are about the lock
  by_cases hq : q = .lockServer ∨ q = .unlockServer
  · rw [handleRequest, Except.bind_eq_ok] at h
    obtain ⟨s₁, h₁, h⟩ := h
    rw [onSpoolM, Except.map_eq_ok] at h₁
    obtain ⟨sp, hsp, rfl⟩ := h₁
    have hlock : sp.lock = (some u, t) := by
      obtain rfl | rfl := hq
      · exact (Spool.lock_sLockServer hl hok.2 hsp).trans hl
      · cases hsp
        exact (Spool.lock_sUnlockServer hl hok.2.2 hok.2.1).trans hl
    split_ifs at h
    · exact (lock_removeConnection h).trans hlock
    · cases h
      exact hlock
  · refine (lock_of_ops hops fun sp l t' env dir b _ ho => ?_).trans hl
    obtain ho | ho := ho
    · cases q with
      | lockServer => exact absurd (.inl rfl) hq
      | unlockServer => exact absurd (.inr rfl) hq
      | setEnv | unsetEnv | setLogdir | bindOff | bindOn =>
        obtain ⟨rfl, rfl, -⟩ := ho
        rfl
      | _ => exact ho.elim
    · exact absurd ho (hclose l t' env dir b)

/-- A message that is neither a request nor a new job writes nothing to the settings. -/
theorem not_answers_settings {m : Msg} {sp : Spool} {l : Option ℕ} {t' : ℤ}
    {env : List (String × String)} {dir : String} {b : Bool} (hnew : ∀ x, m ≠ .newjob x)
    (hreq : ∀ q, m ≠ .request q) : ¬s.Answers e index m (.settings l t' env dir b) sp := by
  intro ho
  cases m with
  | newjob x => exact hnew x rfl
  | request q => exact hreq q rfl
  | runjobOk oname pid => cases ho
  | endjob r =>
    obtain ho | ho | ⟨_, ho⟩ := ho
    all_goals cases ho
  | reconnect jobid pid => exact ho
  | removejob jobid => exact ho
  | killAll format jobid =>
    obtain ⟨_, ho⟩ | ho | ⟨_, ho⟩ | ⟨_, -, -, ho⟩ | ⟨_, -, -, -, ho⟩ := ho
    · cases ho
    · exact ho
    · cases ho
    · exact ho
    · cases ho
  | killServer => exact ho
  | unknown =>
    obtain ⟨-, ho⟩ | ⟨-, ho⟩ := ho
    · exact ho
    · cases ho

/-- Only a message can write to the settings. -/
theorem not_performs_settings {sp : Spool} {l : Option ℕ} {t' : ℤ} {env : List (String × String)}
    {dir : String} {b : Bool} (hi : ∀ index m, i ≠ .message index m) :
    ¬s.Performs e i (.settings l t' env dir b) sp := by
  intro ho
  cases i with
  | message index m => exact hi index m rfl
  | accept socket uid =>
    obtain ⟨_, ho⟩ := ho
    cases ho
  | disconnect index =>
    obtain ⟨-, ho⟩ | ⟨-, ho⟩ := ho
    · exact ho
    · cases ho
  | health =>
    obtain ⟨_, ho⟩ := ho
    cases ho
  | cleanup =>
    obtain ⟨_, _, ho, -⟩ := ho
    cases ho
  | schedule =>
    obtain ho | ⟨_, ho⟩ := ho
    · exact ho
    · cases ho
  | restart => exact ho

/-- **The lock is kept while it is in force.** -/
theorem lock_step (hs : s.Sound) (hl : s.lock = (some u, t)) (hok : lockObserved u t (e, i) s)
    (hen : s.Enabled i) (h : s.step e i = .ok s') : s'.lock = (some u, t) := by
  have hi := hok.1.ne_restart
  by_cases hmsg : ∀ index m, i ≠ .message index m
  · refine (lock_of_ops (step_ops hs hen hi h) fun sp l t' env dir b _ ho => ?_).trans hl
    exact absurd ho (not_performs_settings hmsg)
  · simp only [ne_eq, not_forall, not_not] at hmsg
    obtain ⟨index, m, rfl⟩ := hmsg
    rw [step, clientRead, onSpool, Spool.timeoutLock_of_inForce hl hok.1.1] at h
    have hops := handle_ops hs hen h
    cases m with
    | request q => exact lock_handleRequest hs hl hok.1 h
    | newjob m =>
      refine (lock_of_ops hops fun sp l t' env dir b hsp ho => ?_).trans hl
      have hsoon : e.now ≤ t + 30 := hok.2
      obtain ho | ho | ho := ho
      · exact ho.elim
      · exact ho.elim
      · obtain ⟨-, ht⟩ := Spool.lock_eq.1 (hsp.trans hl)
        have hold := ho.2.2.2.2
        omega
    | _ =>
      refine (lock_of_ops hops fun sp l t' env dir b _ ho => ?_).trans hl
      exact absurd ho (not_answers_settings (fun _ => Msg.noConfusion) fun _ => Msg.noConfusion)

/-- A new job of another user is ignored. -/
theorem newjob_ignored {m : NewJob} (hl : s.lock = (some u, t))
    (hok : lockObserved u t (e, .message index (.newjob m)) s) (hne : (s.clientCs index).user ≠ u)
    (h : s.step e (.message index (.newjob m)) = .ok s') : s' = s := by
  rw [step, clientRead, onSpool, Spool.timeoutLock_of_inForce hl hok.1.1, handle, newjob,
    Spool.sCheckLocker_of_inForce hl (hok.2)] at h
  simp only [hne, ne_eq, not_false_eq_true, decide_true, if_true] at h
  cases h
  rfl

/-- **The lock excludes the other users** for its whole duration, if no `NEWJOB` comes later than
`DEFAULT_USER_LOCK_TIME` after it was taken: it stays with the user who took it, and a `NEWJOB` of
another user changes nothing. -/
theorem lock_excludes_others {e₀ : Env} {l : Env × Input} (hf : f.Fresh)
    (hr : Run (Step C) anyInput f r)
    (htake : Step C r (e₀, .message index (.request .lockServer)) s₀)
    (htaken : s₀.lock = (some (r.clientCs index).user, e₀.now))
    (h : Run (Step C) (lockObserved (r.clientCs index).user e₀.now) s₀ s)
    (hok : lockObserved (r.clientCs index).user e₀.now l s) (hst : Step C s l s') :
    s'.lock = (some (r.clientCs index).user, e₀.now) ∧
      ∀ k m, l.2 = .message k (.newjob m) → (s.clientCs k).user ≠ (r.clientCs index).user → s' = s := by
  have hs₀ : s₀.Sound := htake.sound (Run.sound hf.sound hr)
  obtain ⟨hs, hl⟩ := h.invariant
    (I := fun s => s.Sound ∧ s.lock = (some (r.clientCs index).user, e₀.now)) ⟨hs₀, htaken⟩
    fun hI hok hst => ⟨hst.sound hI.1, lock_step hI.1 hI.2 hok hst.2.1 hst.2.2⟩
  refine ⟨lock_step hs hl hok hst.2.1 hst.2.2, fun k m hlk hne => ?_⟩
  obtain ⟨e, i⟩ := l
  obtain rfl : i = .message k (.newjob m) := hlk
  exact newjob_ignored hl hok hne hst.2.2

instance : ∀ l s, Decidable (lockInForce u t l s) := by
  rintro ⟨e, i⟩ s
  unfold lockInForce
  cases i with
  | message index m =>
    cases m with
    | request r => cases r <;> infer_instance
    | _ => infer_instance
  | _ => infer_instance

instance : ∀ l s, Decidable (lockObserved u t l s) := by
  rintro ⟨e, i⟩ s
  unfold lockObserved
  cases i with
  | message index m => cases m <;> infer_instance
  | _ => infer_instance

/-- The user 1000 locks the server at the time 2, and a job of root is ignored at the time 4. -/
theorem user_lock_observed : ∃ s s' : Server, s.lock = (some 1, 2) ∧ (s.clientCs 0).user = 0 ∧
    Step plainConfig s (world 4, .message 0 (.newjob {})) s' ∧ s' = s := by
  obtain ⟨r, s₀, hr, htake, hP⟩ := exists_run_step anyInput started
    (fun r s₀ => s₀.lock = (some 1, 2) ∧ (r.clientCs 0).user = 1 ∧
      reaches (lockObserved 1 2) (steps (world 4, .message 0 (.newjob {})) fun s _ =>
        s.lock = (some 1, 2) ∧ (s.clientCs 0).user = 0 ∧
          lockObserved 1 2 (world 4, .message 0 (.newjob {})) s) [(world 3, .accept 6 0)] s₀)
    (world 2, .message 0 (.request .lockServer)) [(world 1, .accept 5 1000)]
    (by simp [world]) (by decide +kernel)
  obtain ⟨hlock, huser, hP⟩ := of_decide_eq_true hP
  obtain ⟨s, s', h, hst, hP⟩ := exists_run_step _ _ _ _ _ (by simp [world]) hP
  obtain ⟨hlock', huser', hok⟩ := of_decide_eq_true hP
  have hall := lock_excludes_others (l := (world 4, .message 0 (.newjob {}))) fresh_started hr htake
    (by rw [huser]; exact hlock) (by rw [huser]; exact h) (by rw [huser]; exact hok) hst
  exact ⟨s, s', hlock', huser', hst, hall.2 0 {} rfl (by rw [huser, huser']; decide)⟩

/-- Root locks the server at the time 2, and a job of the user 1000 is accepted at the time 40. -/
theorem root_lock_dropped : ¬∀ (C : Config) (f r s₀ s s' : Server) (e₀ : Env) (l : Env × Input)
    (index : ℕ), f.Fresh → Run (Step C) anyInput f r →
    Step C r (e₀, .message index (.request .lockServer)) s₀ →
    s₀.lock = (some (r.clientCs index).user, e₀.now) →
    Run (Step C) (lockInForce (r.clientCs index).user e₀.now) s₀ s →
    lockInForce (r.clientCs index).user e₀.now l s → Step C s l s' →
    s'.lock = (some (r.clientCs index).user, e₀.now) ∧
      ∀ k m, l.2 = .message k (.newjob m) → (s.clientCs k).user ≠ (r.clientCs index).user →
        s' = s := by
  intro hall
  obtain ⟨r, s₀, hr, htake, hP⟩ := exists_run_step anyInput started
    (fun r s₀ => s₀.lock = (some 0, 2) ∧ (r.clientCs 0).user = 0 ∧
      reaches (lockInForce 0 2) (steps (world 40, .message 0 (.newjob {})) fun s s' =>
        lockInForce 0 2 (world 40, .message 0 (.newjob {})) s ∧ (s.clientCs 0).user = 1 ∧
          s'.activeJobs.length ≠ s.activeJobs.length)
        [(world 3, .accept 6 1000)] s₀)
    (world 2, .message 0 (.request .lockServer)) [(world 1, .accept 5 0)]
    (by simp [world]) (by decide +kernel)
  obtain ⟨hlock, huser, hP⟩ := of_decide_eq_true hP
  obtain ⟨s, s', h, hst, hP⟩ := exists_run_step _ _ _ _ _ (by simp [world]) hP
  obtain ⟨hok, huser', hne⟩ := of_decide_eq_true hP
  have hkeep := hall _ _ _ _ _ _ _ (world 40, .message 0 (.newjob {})) 0 fresh_started hr htake
    (by rw [huser]; exact hlock) (by rw [huser]; exact h) (by rw [huser]; exact hok) hst
  have heq := hkeep.2 0 {} rfl (by rw [huser, huser']; decide)
  exact hne (by rw [heq])

end Server

end TaskSpooler
