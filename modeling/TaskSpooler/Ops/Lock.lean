import TaskSpooler.Ops.Aside

/-!
# The lock of the server and the operations

Only one operation writes to the lock of the server and its time (`Op.lock_run`).
-/

namespace TaskSpooler

namespace Spool

variable {e : Env} {s s' : Spool} {p : Job} {jobid socket : ℤ}

@[simp] theorem lock_newFinishedJob : (s.newFinishedJob e p).lock = s.lock := by
  have hquiet : (s.newFinishedJob e p).aside =
      (s.onQueue fun q => q.pushFinished e.maxFinished p).aside := by
    rw [newFinishedJob, aside_defrag, aside_freeAlloc, aside_cgroupsCleanJob, aside_insertFinishedDb]
  exact (lock_of_aside hquiet).trans rfl

theorem lock_jobFinished {r : Result} (h : s.jobFinished e r jobid = .ok s') : s'.lock = s.lock := by
  rw [jobFinished] at h
  split_ifs at h
  split at h
  · cases h
  · dsimp only at h
    split at h
    · cases h
    · cases h
      exact lock_newFinishedJob.trans rfl

theorem lock_notifyWaiter (h : s.notifyWaiter jobid socket = .ok s') : s'.lock = s.lock := by
  rw [notifyWaiter] at h
  split at h
  · cases h
  · dsimp only at h
    split_ifs at h
    · rw [destroyFinishedJob] at h
      split at h
      · cases h
      · cases h
        rfl
    · cases h
      rfl
    · cases h
      rfl

theorem lock_checkNotifyList (h : s.checkNotifyList jobid = .ok s') : s'.lock = s.lock :=
  Except.foldlM_induction (R := fun s s' : Spool => s'.lock = s.lock) (fun _ => rfl)
    (fun h h' => h'.trans h) (fun _ h => lock_notifyWaiter h) h

theorem lock_sDeleteJob (h : s.sDeleteJob jobid = .ok s') : s'.lock = s.lock :=
  lock_of_aside (aside_sDeleteJob h)

theorem lock_removeActive (h : s.removeActive e p = .ok s') : s'.lock = s.lock := by
  simp only [removeActive, Except.bind_eq_ok] at h
  obtain ⟨s₁, h₁, h⟩ := h
  have hnotify : s₁.lock = s.lock := (lock_checkNotifyList h₁).trans rfl
  split_ifs at h
  · cases h
    exact hnotify
  · cases h
    refine lock_newFinishedJob.trans ((lock_of_aside ?_).trans hnotify)
    rw [aside_defrag, aside_freeAlloc, aside_cgroupsCleanJob, aside_freeCores]
    rfl

theorem lock_removeFinished (h : s.removeFinished p = .ok s') : s'.lock = s.lock := by
  simp only [removeFinished, Except.bind_eq_ok] at h
  obtain ⟨s₁, h₁, h⟩ := h
  have hnotify : s₁.lock = s.lock := (lock_checkNotifyList h₁).trans rfl
  split at h
  · cases h
  · cases h
    exact hnotify

theorem lock_sClearFinished {user : ℕ} : (s.sClearFinished user).lock = s.lock :=
  Except.foldl_induction (R := fun s s' : Spool => s'.lock = s.lock) (fun _ => rfl)
    (fun h h' => h'.trans h) _ fun _ => rfl

theorem lock_waitFor : (s.waitFor socket p).lock = s.lock := by
  rw [waitFor]
  split_ifs <;> rfl

end Spool

/-- **What an operation does to the lock.** -/
theorem Op.lock_run {e : Env} {s s' : Spool} {o : Op} (h : o.run e s = .ok s') : s'.lock =
    match o with
    | .settings l t _ _ _ => (l, t)
    | _ => s.lock := by
  cases o with
  | finish r jobid => exact Spool.lock_jobFinished h
  | notify jobid => exact Spool.lock_checkNotifyList h
  | removeActive p => exact Spool.lock_removeActive h
  | removeFinished p => exact Spool.lock_removeFinished h
  | clear user =>
    cases h
    exact Spool.lock_sClearFinished
  | wait socket p =>
    cases h
    exact Spool.lock_waitFor
  | settings l t env dir b | unnotify socket | reconnect p st socket =>
    cases h
    rfl
  | _ => exact Spool.lock_of_aside (aside_run h not_false)

end TaskSpooler
