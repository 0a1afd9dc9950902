import TaskSpooler.Ops.Aside

/-!
# The messages of a recount

A recount tells waiting clients about jobs that have ended, starts jobs and accepts jobs that were
held, and sends nothing else (`Spool.says_sUpdateSlotsUsage`).
-/

namespace TaskSpooler

/-- A message about a job: it has ended, it is to be started, or it is accepted. -/
def Reply.ofUsage : Reply → Prop
  | .waitjobOk _ | .runjob _ _ | .newjobOk _ => True
  | _ => False

namespace Spool

variable {e : Env} {P : Reply → Prop} {s s' s'' : Spool} {p : Job} {jobid pid socket : ℤ}

/-- The messages that have been sent since `s`, the last one first. -/
def sentSince (s s' : Spool) : List (ℤ × Reply) := s'.sent.take (s'.sent.length - s.sent.length)

/-- Messages have been sent, all of them of the kind `P`. -/
def Says (P : Reply → Prop) (s s' : Spool) : Prop :=
  ∃ l, s'.sent = l ++ s.sent ∧ ∀ y ∈ l, P y.2

theorem Says.of_eq (h : s'.sent = s.sent) : Says P s s' := ⟨[], h, by simp⟩

theorem Says.refl : Says P s s := .of_eq rfl

theorem Says.trans (h : Says P s s') (h' : Says P s' s'') : Says P s s'' := by
  obtain ⟨l, hl, hP⟩ := h
  obtain ⟨l', hl', hP'⟩ := h'
  refine ⟨l' ++ l, by rw [hl', hl, List.append_assoc], fun y hy => ?_⟩
  exact (List.mem_append.1 hy).elim (hP' y) (hP y)

theorem Says.send {r : Reply} (h : P r) : Says P s (s.send socket r) :=
  ⟨[(socket, r)], rfl, by simpa using h⟩

theorem Says.sentSince {y : ℤ × Reply} (h : Says P s s') (hy : y ∈ s.sentSince s') : P y.2 := by
  obtain ⟨l, hl, hP⟩ := h
  rw [Spool.sentSince, hl, List.length_append, Nat.add_sub_cancel, List.take_left] at hy
  exact hP y hy

/-! ### Functions that send nothing -/

@[simp] theorem sent_mkdirCgroup : (s.mkdirCgroup jobid pid).sent = s.sent := by
  rw [mkdirCgroup]
  split_ifs <;> rfl

@[simp] theorem sent_cgroupsCleanJob : (s.cgroupsCleanJob p).sent = s.sent := by
  rw [cgroupsCleanJob]
  split_ifs <;> rfl

@[simp] theorem sent_cgroupsSetCpuset {a : CpuBind.CpuAlloc} :
    (s.cgroupsSetCpuset e jobid pid a).sent = s.sent := by
  rw [cgroupsSetCpuset]
  split_ifs
  · rfl
  · exact sent_mkdirCgroup

@[simp] theorem sent_freeAlloc {ptr : Option ℕ} : (s.freeAlloc e ptr).sent = s.sent := by
  unfold freeAlloc
  cases ptr with
  | none => rfl
  | some ptr =>
    dsimp only
    split <;> rfl

@[simp] theorem sent_bindCpus : (s.bindCpus e p).sent = s.sent := by
  rw [bindCpus]
  split
  · exact sent_cgroupsSetCpuset
  · rfl

theorem sent_defragIo {a : CpuBind.CpuAlloc} : (s.defragIo e a).sent = s.sent := by
  rw [defragIo]
  cases s.findjob a.jobid with
  | none => rfl
  | some p =>
    dsimp only
    split
    · exact sent_mkdirCgroup
    · rfl

theorem sent_foldl {α : Type*} {f : Spool → α → Spool} (h : ∀ s a, (f s a).sent = s.sent)
    (l : List α) (s : Spool) : (l.foldl f s).sent = s.sent := by
  induction l generalizing s with
  | nil => rfl
  | cons a l ih => rw [List.foldl_cons, ih, h]

@[simp] theorem sent_defrag : (s.defrag e).sent = s.sent := by
  rw [defrag]
  split_ifs
  · exact sent_foldl (fun _ _ => sent_defragIo) _ _
  · rfl

@[simp] theorem sent_insertFinishedDb : (s.insertFinishedDb p).sent = s.sent := by
  rw [insertFinishedDb]
  split <;> rfl

@[simp] theorem sent_configRunning : (s.configRunning e p).sent = s.sent := by
  have hrerun : ∀ s : Spool, (s.rerunJobConfig e p).sent = s.sent := fun s => by
    rw [rerunJobConfig]
    split_ifs <;> rfl
  have hthaw : (if s.isSleep e p = 1 then s.cgroupsThawJob p else s).sent = s.sent := by
    split_ifs <;> rfl
  rw [configRunning, apply_ite Spool.sent, sent_bindCpus, ite_self, hrerun]
  exact hthaw

@[simp] theorem sent_sRelegateJob : (s.sRelegateJob e p).sent = s.sent := by
  have hpause : (s.safePauseJob e p).sent = s.sent := by
    rw [safePauseJob, pauseJobConfig]
    split_ifs <;> exact sent_freeAlloc
  show (if p.state = .running then s.safePauseJob e p else s).sent = s.sent
  rw [apply_ite Spool.sent, hpause, ite_self]

theorem sent_jobFinished {r : Result} (h : s.jobFinished e r jobid = .ok s') : s'.sent = s.sent := by
  rw [jobFinished] at h
  split_ifs at h
  split at h
  · cases h
  · dsimp only at h
    split at h
    · cases h
    · cases h
      show (newFinishedJob e _ _).sent = _
      rw [newFinishedJob, sent_defrag, sent_freeAlloc, sent_cgroupsCleanJob, sent_insertFinishedDb]
      rfl

theorem sent_recount (h : s.recount = .ok s') : s'.sent = s.sent := by
  rw [recount] at h
  dsimp only at h
  split_ifs at h
  · cases h
    rfl
  · cases h
    rfl

/-! ### Functions that tell clients -/

theorem says_notifyWaiter (h : s.notifyWaiter jobid socket = .ok s') :
    Says Reply.ofUsage s s' := by
  rw [notifyWaiter] at h
  split at h
  · cases h
  · rename_i j hj
    by_cases hover : j.state = .finished ∨ j.state = .skipped
    · simp only [if_pos hover] at h
      have htell : Says Reply.ofUsage s (s.send socket (.waitjobOk j.result.errorlevel)) :=
        .send trivial
      split_ifs at h
      · rw [destroyFinishedJob] at h
        split at h
        · cases h
        · cases h
          exact htell.trans (.of_eq rfl)
      · cases h
        exact htell.trans (.of_eq rfl)
    · rw [if_neg hover] at h
      cases h
      exact .refl

theorem says_checkNotifyList (h : s.checkNotifyList jobid = .ok s') : Says Reply.ofUsage s s' :=
  Except.foldlM_induction (R := fun s s' : Spool => Says Reply.ofUsage s s') (fun _ => .refl)
    (fun h h' => h.trans h') (fun _ h => says_notifyWaiter h) h

theorem says_dispatch {uid : ℕ} (h : s.dispatch e uid p = .ok s') : Says Reply.ofUsage s s' := by
  simp only [dispatch, Except.bind_eq_ok] at h
  obtain ⟨s₁, h₁, s₂, h₂, h⟩ := h
  cases h
  have htake : s₁.sent = s.sent := by
    rw [takeJob] at h₁
    split_ifs at h₁
    · rw [sMarkJobRunning] at h₁
      split at h₁
      · cases h₁
      · dsimp only at h₁
        split_ifs at h₁
        · cases h₁
          rfl
        · cases h₁
          exact sent_configRunning
    · cases h₁
      exact sent_configRunning
  obtain ⟨q, -, rfl⟩ := sSendRunjob_spec h₂
  exact (Says.of_eq htake).trans (.send trivial)

end Spool

/-! ### The recount -/

/-- The operations of a recount send no other messages. -/
theorem Op.says_run {e : Env} {s s' : Spool} {o : Op} (ho : o.ofUsage e s)
    (h : o.run e s = .ok s') : Spool.Says Reply.ofUsage s s' := by
  cases o with
  | send k r =>
    cases h
    obtain ⟨p, -, -, -, rfl⟩ := ho
    exact .send trivial
  | relegate p =>
    cases h
    exact .of_eq Spool.sent_sRelegateJob
  | bottom ids =>
    cases h
    exact .of_eq (Spool.sent_foldl (f := Spool.movebottomDb) (fun _ _ => rfl) _ _)
  | finish r jobid => exact .of_eq (Spool.sent_jobFinished h)
  | notify jobid => exact Spool.says_checkNotifyList h
  | recount => exact .of_eq (Spool.sent_recount h)
  | dispatch uid p => exact Spool.says_dispatch h
  | wake p =>
    cases h
    exact .refl
  | _ => exact ho.elim

/-- **A recount** sends nothing but messages about jobs. -/
theorem Spool.says_sUpdateSlotsUsage {e : Env} {s s' : Spool} (hids : s.view.Ids)
    (h : s.sUpdateSlotsUsage e = .ok s') : Says Reply.ofUsage s s' :=
  (sUpdateSlotsUsage_ops hids h).invariant (I := fun s₁ => Says Reply.ofUsage s s₁) .refl
    fun hI ho _ hr => hI.trans (Op.says_run ho hr)

end TaskSpooler
