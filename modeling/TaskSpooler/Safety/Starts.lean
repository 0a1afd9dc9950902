import TaskSpooler.Ops.Runs
import TaskSpooler.Ops.Utters
import TaskSpooler.Sched.States

/-!
# Every job that is running has been told so

A job is running from the moment `next_run_job` chooses it, but its command is run by its client, which
has to be told with `RUNJOB`.  Until the client has answered, the job has no pid.

* `starts_told`: in every reachable state, a running job without a pid has been sent `RUNJOB` on the
  socket that it has now, whether it was started by the scheduler or its client has connected again.
* `Job.Informed` says it of one job, and `Act.informed_apply` and `Op.informed_run` say which moves and
  operations owe a message: the start of a job, and `RECONNECT`.

A restarted server takes a job for running only if its process is alive, so nothing is owed to it.
-/

namespace TaskSpooler

/-- If the job runs but has no process yet, one of the messages tells its client to start it. -/
def Job.Informed (sent : List (ℤ × Reply)) (p : Job) : Prop :=
  p.state = .running → p.pid = 0 → ∃ errorlevel, (p.clientSocket, .runjob p.jobid errorlevel) ∈ sent

theorem Job.plainFn_informed (sent : List (ℤ × Reply)) : PlainFn (Job.Informed sent) := fun _ => rfl

theorem Job.Informed.mono {sent sent' : List (ℤ × Reply)} {p : Job} (h : p.Informed sent)
    (hsub : sent ⊆ sent') : p.Informed sent' := fun hrun hpid => by
  obtain ⟨errorlevel, hmem⟩ := h hrun hpid
  exact ⟨errorlevel, hsub hmem⟩

namespace Act

variable {v : View} {a : Act} {sent : List (ℤ × Reply)}

/-- The messages that a move owes to a client. -/
def Paid (sent : List (ℤ × Reply)) : Act → Prop
  | dispatch _ p _ => ∃ errorlevel, (p.clientSocket, .runjob p.jobid errorlevel) ∈ sent
  | reconnect p st socket => (p.reconnected st socket).Informed sent
  | _ => True

/-- **A move that pays what it owes** leaves nobody uninformed. -/
theorem informed_apply (hids : v.Ids) (hg : a.Guard v) (ha : a.Paid sent)
    (h : ∀ p ∈ v.activeJobs, p.Informed sent) : ∀ p ∈ (a.apply v).activeJobs, p.Informed sent := by
  refine forall_apply (Job.plainFn_informed sent) hids hg h fun x hnew => ?_
  have hold : ∀ {p}, a.old v = some p → p.Informed sent := of_old (Job.plainFn_informed sent) hg h
  cases a with
  | pause p | abnormal p | asleep uid p q | wake p | unlock p | lock p | gone p =>
    cases hnew
    intro hrun
    cases hrun
  | relegate p requeue =>
    cases hnew
    split_ifs
    · intro hrun
      cases hrun
    · intro hrun
      cases hrun
  | wall p w =>
    cases hnew
    exact hold (p := p) rfl
  | start p =>
    cases hnew
    exact fun _ hpid => absurd hpid hg.2.2
  | dispatch uid p q =>
    cases hnew
    exact fun _ _ => ha
  | submit p ds n m q =>
    cases hnew
    intro hrun
    obtain hst | hst := hg.2.2.2.1
    · rw [hst] at hrun
      cases hrun
    · rw [hst] at hrun
      cases hrun
  | reuse old p ds m q =>
    cases hnew
    intro hrun
    have hst : p.state = .delink ∨ p.state = .wait ∨ p.state = .locked := hg.2.2.2.2.2.2.2.1
    obtain hst | hst | hst := hst <;> simp [Job.setState, hst] at hrun
  | pid p n =>
    cases hnew
    exact fun _ hpid => absurd (show n = 0 from hpid) hg.2.2.ne'
  | reconnect p st socket =>
    dsimp only [new] at hnew
    split_ifs at hnew
    cases hnew
    exact ha
  | _ => cases hnew

end Act

namespace Op

variable {e : Env} {s s' : Spool} {o : Op}

theorem sent_subset (h : o.run e s = .ok s') : s.sent ⊆ s'.sent := by
  obtain ⟨l, hl, -⟩ := sends_run h
  rw [hl]
  exact List.subset_append_right l s.sent

/-- `next_run_job` tells the client. -/
theorem told_of_dispatch {uid : ℕ} {p : Job} (h : s.dispatch e uid p = .ok s') :
    ∃ errorlevel, (p.clientSocket, .runjob p.jobid errorlevel) ∈ s'.sent := by
  simp only [Spool.dispatch, Except.bind_eq_ok] at h
  obtain ⟨s₁, -, s₂, h₂, h⟩ := h
  cases h
  obtain ⟨x, -, rfl⟩ := Spool.sSendRunjob_spec h₂
  exact ⟨_, List.mem_cons_self⟩

/-- **Every operation but `RECONNECT` tells whoever is to be told.** -/
theorem informed_run (hids : s.view.Ids) (hpre : o.Pre e s) (h : o.run e s = .ok s')
    (ho : ∀ p st socket, o ≠ reconnect p st socket)
    (hI : ∀ p ∈ s.view.activeJobs, p.Informed s.sent) :
    ∀ p ∈ s'.view.activeJobs, p.Informed s'.sent := by
  have hpaid : ∀ a, o.Makes a → a.Paid s'.sent := by
    intro a ha
    cases a with
    | dispatch uid p q =>
      cases o with
      | dispatch uid' p' =>
        obtain rfl : p = p' := ha
        exact told_of_dispatch h
      | fill socket m user old =>
        obtain ⟨next, id, ha⟩ := ha
        exact ha.elim
      | _ => exact ha.elim
    | reconnect p st socket =>
      cases o with
      | reconnect p' st' socket' => exact absurd rfl (ho p' st' socket')
      | fill socket' m user old =>
        obtain ⟨next, id, ha⟩ := ha
        exact ha.elim
      | _ => exact ha.elim
    | _ => trivial
  exact ((Op.moves hids hpre h).invariant
    (I := fun v => v.Ids ∧ ∀ p ∈ v.activeJobs, p.Informed s'.sent)
    ⟨hids, fun p hp => (hI p hp).mono (sent_subset h)⟩ fun {v a} hv ha hg =>
      ⟨Act.ids_apply hv.1 hg, Act.informed_apply hv.1 hg (hpaid _ ha) hv.2⟩).2

end Op

namespace Spool

variable {e : Env} {s s' : Spool}

/-- Nobody waits for a message that was never sent. -/
def Informs (s : Spool) : Prop := ∀ p ∈ s.view.activeJobs, p.Informed s.sent

theorem Informs.of_view (h : s.Informs) (hv : s'.view = s.view) (hsub : s.sent ⊆ s'.sent) :
    s'.Informs := fun p hp => (h p (hv ▸ hp)).mono hsub

theorem Informs.ops {ok : Op → Spool → Prop} (hids : s.view.Ids) (hI : s.Informs)
    (h : Ops e ok s s') (hok : ∀ o s, ok o s → ∀ p st socket, o ≠ .reconnect p st socket) :
    s'.Informs :=
  (h.invariant (I := fun s => s.view.Ids ∧ s.Informs) ⟨hids, hI⟩ fun hI ho hpre hr =>
    ⟨(Op.moves hI.1 hpre hr).ids hI.1, Op.informed_run hI.1 hpre hr (hok _ _ ho) hI.2⟩).2

/-- A restored job that is running has a process. -/
theorem informs_reload : (s.reload e).Informs := by
  intro p hp hrun hpid
  obtain ⟨x, hx, rfl⟩ := List.mem_map.1 hp
  obtain ⟨r, -, hr⟩ := reload_reloaded.restored x hx
  have hstate : restoredState e r.job = some .running := hr.state.trans (congrArg some hrun)
  have hzero : r.job.pid = 0 := hr.pid.symm.trans hpid
  rw [restoredState] at hstate
  split at hstate
  · simp [hzero] at hstate
  all_goals cases hstate

theorem sent_cgroupsRestoreAllCpuBind (h : s.cgroupsRestoreAllCpuBind e = .ok s') :
    s'.sent = s.sent := by
  have hone : ∀ {s s' : Spool} {g : Cgroup}, s.restoreCgroup e g = .ok s' → s'.sent = s.sent := by
    intro s s' g h
    rw [restoreCgroup] at h
    dsimp only at h
    split_ifs at h
    · cases h
      rfl
    · cases h
      rfl
    · split at h
      · cases h
        rfl
      · split_ifs at h
        · split at h
          · cases h
            rfl
          · split at h
            · cases h
            · cases h
              rfl
            · split_ifs at h <;> cases h <;> rfl
        · cases h
          rfl
  rw [cgroupsRestoreAllCpuBind, Except.bind_eq_ok] at h
  obtain ⟨s₁, h₁, h⟩ := h
  cases h
  refine (sent_foldl (fun s p => ?_) _ _).trans ?_
  · rw [rewriteCpuset]
    split_ifs
    · split
      · rfl
      · split
        · rfl
        · exact sent_cgroupsSetCpuset
    · rfl
  · exact Except.foldlM_induction (R := fun s s' : Spool => s'.sent = s.sent) (fun _ => rfl)
      (fun h h' => h'.trans h) (fun _ h => hone h) h₁

end Spool

namespace Server

variable {e : Env} {s s' s₀ : Server} {i : Input} {index : ℕ} {C : Config} {l : Env × Input}

theorem informs_reconnect {jobid pid : ℤ} (hids : s.view.Ids) (hI : s.Informs)
    (h : s.reconnect index jobid pid = .ok s') : s'.Informs := by
  have hsend : ∀ r, (s.toSpool.send (s.clientCs index).socket r).Informs := fun r =>
    hI.of_view (Spool.view_send _ _) (List.subset_cons_self _ _)
  rw [reconnect] at h
  dsimp only at h
  cases hp : s.getJob jobid with
  | none =>
    simp only [hp] at h
    cases h
    exact hsend _
  | some p =>
    simp only [hp] at h
    obtain rfl : p.jobid = jobid := Spool.getJob_jobid hp
    by_cases hfin : p.state = .finished ∨ p.state = .skipped
    · rw [if_pos hfin] at h
      cases h
      exact hsend _
    rw [if_neg hfin] at h
    by_cases hmay : mayReconnect p ∧ p.user = some (s.clientCs index).user
    · rw [if_pos hmay] at h
      by_cases hpid : p.pid ≠ 0 ∧ p.pid ≠ pid ∧ pid ≠ 0
      · rw [if_pos hpid] at h
        cases h
        exact hsend _
      · rw [if_neg hpid] at h
        have hguard : (Act.reconnect p (if p.state = .delink then .running else p.state)
            (s.clientCs index).socket).Guard s.view :=
          ⟨by rw [Spool.view_getJob, hp, Option.map_some], hmay.1, rfl⟩
        revert h hguard
        generalize (if p.state = .delink then Jobstate.running else p.state) = st
        intro h hguard
        have hview : (s.onQueue fun q => q.modAnyJob p.jobid
            (Job.reconnected st (s.clientCs index).socket)).view =
              (Act.reconnect p st (s.clientCs index).socket).apply s.view :=
          Spool.view_onQueue (fun q => q.modAnyJob p.jobid
            (Job.reconnected st (s.clientCs index).socket)) (Queue.strip_modAnyJob fun _ => rfl)
        -- the other jobs keep what they were told, the taken over job is told in this answer
        have happly : ∀ {sent}, s.sent ⊆ sent →
            (p.reconnected st (s.clientCs index).socket).Informed sent →
            ∀ x ∈ ((Act.reconnect p st (s.clientCs index).socket).apply s.view).activeJobs,
              x.Informed sent := fun hsub hpaid =>
          Act.informed_apply hids hguard hpaid fun x hx => (hI x hx).mono hsub
        split_ifs at h with hrun
        · rw [onSpoolM, Except.map_eq_ok] at h
          obtain ⟨sp, hsp, rfl⟩ := h
          obtain ⟨x, -, rfl⟩ := Spool.sSendRunjob_spec hsp
          intro y hy
          refine happly ?_ (fun _ _ => ⟨_, List.mem_cons_self⟩) y (hview ▸ hy)
          exact fun z hz => List.mem_cons_of_mem _ (List.mem_cons_of_mem _ hz)
        · cases h
          intro y hy
          refine happly (fun z hz => List.mem_cons_of_mem _ hz) (fun hst hzero => ?_) y (hview ▸ hy)
          exact absurd ⟨hst, hzero⟩ hrun
    · rw [if_neg hmay] at h
      cases h
      exact hsend _

theorem Step.informs (hs : s.Sound) (hI : s.Informs) (h : Step C s l s') : s'.Informs := by
  by_cases hrec : ∃ index jobid pid, l.2 = .message index (.reconnect jobid pid)
  · obtain ⟨index, jobid, pid, hi⟩ := hrec
    obtain ⟨-, hen, h⟩ := h
    rw [hi, step, clientRead] at h
    refine informs_reconnect hs.timeoutLock.ids ?_ h
    refine hI.of_view (Spool.view_timeoutLock l.1) ?_
    obtain hsp | hsp := Spool.timeoutLock_cases l.1 s.toSpool
    · rw [onSpool, hsp]
      exact fun _ hx => hx
    · rw [onSpool, hsp]
      exact fun _ hx => hx
  · have hbase : (s.base l).Informs := by
      rw [base]
      split
      · exact Spool.informs_reload
      · exact hI
    obtain ⟨sp, hops, hend⟩ := h.ops hs
    have hsp : sp.Informs := hbase.ops hs.base hops fun o sp ho p st socket heq => by
      rw [heq] at ho
      obtain ⟨-, ho⟩ | ⟨-, ho⟩ := ho
      · exact ho
      · exact hrec ho.source
    obtain hend | ⟨-, hend⟩ := hend
    · rw [Spool.Informs, hend]
      exact hsp
    · refine hsp.of_view (Spool.view_cgroupsRestoreAllCpuBind hend) ?_
      rw [Spool.sent_cgroupsRestoreAllCpuBind hend]
      exact fun _ hx => hx

/-- **Every running job without a process has been told to start**, on the connection that it has now:
this holds in all states of a run in which there is room for the ids, across restarts as well. -/
theorem starts_told (hfresh : s₀.Fresh) (h : Run (Step C) roomForId s₀ s) :
    ∀ p ∈ s.activeJobs, p.state = .running → p.pid = 0 →
      ∃ errorlevel, (p.clientSocket, .runjob p.jobid errorlevel) ∈ s.sent := by
  have hinv : s.Sound ∧ s.Informs := by
    refine Run.invariant (I := fun s : Server => s.Sound ∧ s.Informs) h ⟨hfresh.sound, ?_⟩
      fun hI _ hst => ⟨hst.sound hI.1, hst.informs hI.1 hI.2⟩
    intro p hp
    rw [hfresh.view_activeJobs] at hp
    cases hp
  exact fun p hp => hinv.2 p.strip (List.mem_map_of_mem hp)

/-- A client that connects again before it has answered is told once more. -/
theorem starts_told_again : ∃ s : Server, ∃ p ∈ s.activeJobs, p.state = .running ∧
    p.clientSocket = 6 ∧ ∃ errorlevel, (6, .runjob p.jobid errorlevel) ∈ s.sent := by
  obtain ⟨s, hr, hP⟩ := exists_run plainConfig roomForId started
    (fun s => ∃ p ∈ s.activeJobs, p.state = .running ∧ p.pid = 0 ∧ p.clientSocket = 6)
    [(world 1, .accept 5 1000), (world 2, .message 0 (.newjob {})), (world 3, .schedule),
      (world 4, .accept 6 1000), (world 5, .message 1 (.reconnect 1000 0))]
    (by simp [world]) (by decide +kernel)
  obtain ⟨p, hp, hrun, hpid, hsocket⟩ := of_decide_eq_true hP
  exact ⟨s, p, hp, hrun, hsocket, hsocket ▸ starts_told fresh_started hr p hp hrun hpid⟩

end Server

end TaskSpooler
