import TaskSpooler.Sched.Moves

/-!
# The operations of the server

The moves of the scheduler forget the database, the control groups, the CPU binding and the
messages.  An operation (`Op`) does not: it is one of the functions that the requests are made of,
applied to the whole state.  `Op.run` is that function, and `Op.Pre` is what holds when the server
calls it.  `Ops e ok s s'` is a sequence of operations from `s` to `s'`.

An invariant of the tables or of the allocations is proved by looking at every operation once.
-/

namespace TaskSpooler

/-- The functions that change the state of the server, apart from its connections. -/
inductive Op
  /-- Any answer but `RUNJOB` and `WAITJOB_OK`. -/
  | send (socket : ℤ) (r : Reply)
  /-- The lock of the server, its environment, its log directory and the switch of CPU binding. -/
  | settings (userLocker : Option ℕ) (lockerTime : ℤ) (environment : List (String × String))
      (logdir : String) (disabled : Bool)
  | freeze (p : Job)
  | thaw (p : Job)
  /-- `safe_pause_job`, and the state. -/
  | pause (p : Job)
  /-- `s_relegate_job`. -/
  | relegate (p : Job)
  /-- Some jobs go to the end of the queue, one after the other. -/
  | bottom (ids : List ℤ)
  /-- `job_finished`. -/
  | finish (r : Result) (jobid : ℤ)
  /-- `check_notify_list`. -/
  | notify (jobid : ℤ)
  | recount
  /-- `next_run_job` starts a job. -/
  | dispatch (uid : ℕ) (p : Job)
  /-- `wake_hold_client`. -/
  | wake (p : Job)
  /-- `s_newjob` for a job that is accepted as far as its id goes. -/
  | fill (socket : ℤ) (m : NewJob) (user : ℕ) (old : Option Job)
  /-- `s_process_runjob_ok`. -/
  | runjobOk (jobid : ℤ) (oname : Option String) (pid : ℤ)
  /-- The health check of one job. -/
  | health (jobid : ℤ)
  /-- `s_delete_job`. -/
  | delete (jobid : ℤ)
  /-- `s_remove_job` of an active job. -/
  | removeActive (p : Job)
  /-- `s_remove_job` of a finished job. -/
  | removeFinished (p : Job)
  /-- `s_clear_finished`. -/
  | clear (user : ℕ)
  | lock (p : Job)
  | unlock (p : Job)
  /-- Write a wall time, with its column. -/
  | wall (jobid w : ℤ)
  /-- `s_cont_job` makes the wall time positive, in memory only. -/
  | absWall (p : Job)
  /-- `config_running` of a paused job. -/
  | start (p : Job)
  | urgent (socket jobid : ℤ)
  | swap (socket jobid₁ jobid₂ : ℤ)
  | sort
  | addWtime (socket jobid w : ℤ)
  /-- The table of users and the number of slots. -/
  | users (us : ℕ → User) (n : ℕ) (maxSlots : ℤ)
  /-- A socket waits for a job. -/
  | wait (socket : ℤ) (p : Job)
  /-- `s_remove_notification`. -/
  | unnotify (socket : ℤ)
  /-- A client has connected again. -/
  | reconnect (p : Job) (st : Jobstate) (socket : ℤ)
  /-- `s_send_runjob` after that. -/
  | runjob (socket jobid : ℤ)

/-- The message is `RUNJOB` or `WAITJOB_OK`. -/
def Reply.tells : Reply → Bool
  | runjob _ _ | waitjobOk _ => true
  | _ => false

namespace Spool

variable (s : Spool)

/-- Some jobs go to the end of the queue, in memory and in the table. -/
def toBottom (ids : List ℤ) : Spool :=
  ids.foldl movebottomDb
    { s with activeJobs := s.activeJobs.filter (fun p => p.jobid ∉ ids) ++ ids.filterMap s.findjob }

end Spool

namespace Op

variable (e : Env) (s : Spool)

/-- The effect of an operation. -/
def run : Op → Except Fatal Spool
  | send socket r => .ok (s.send socket r)
  | settings userLocker lockerTime environment logdir disabled => .ok
      { s with
        userLocker := userLocker
        lockerTime := lockerTime
        environment := environment
        logdir := logdir
        cpu := { s.cpu with disabled := disabled } }
  | freeze p => .ok (s.cgroupsFreezeJob p)
  | thaw p => .ok (s.cgroupsThawJob p)
  | pause p => .ok ((s.safePauseJob e p).modJob p.jobid (Job.setState .pause))
  | relegate p => .ok (s.sRelegateJob e p)
  | bottom ids => .ok (s.toBottom ids)
  | finish r jobid => s.jobFinished e r jobid
  | notify jobid => s.checkNotifyList jobid
  | recount => s.recount
  | dispatch uid p => s.dispatch e uid p
  | wake p => .ok (s.modJob p.jobid (Job.setState .queued))
  | fill socket m user old => (s.newjobFill e socket m user old).map Prod.fst
  | runjobOk jobid oname pid => s.sProcessRunjobOk e jobid oname pid
  | health jobid => .ok (s.checkHealth e jobid)
  | delete jobid => s.sDeleteJob jobid
  | removeActive p => s.removeActive e p
  | removeFinished p => s.removeFinished p
  | clear user => .ok (s.sClearFinished user)
  | lock p => .ok (s.sLockQueue p)
  | unlock p => .ok (s.sUnlockQueue p)
  | wall jobid w => .ok (s.setWallTime jobid w)
  | absWall p => .ok (s.modJob p.jobid (Job.setWallTime p.wallTime.natAbs))
  | start p => .ok (s.configRunning e p)
  | urgent socket jobid => .ok (s.sMoveUrgent socket jobid)
  | swap socket jobid₁ jobid₂ => .ok (s.sSwapJobs socket jobid₁ jobid₂)
  | sort => .ok s.sSortJobs
  | addWtime socket jobid w => .ok (s.sAddWtime socket jobid w)
  | users us n maxSlots => .ok (s.onQueue fun q => { q with users := us, nusers := n, maxSlots := maxSlots })
  | wait socket p => .ok (s.waitFor socket p)
  | unnotify socket => .ok (s.sRemoveNotification socket)
  | reconnect p st socket => .ok (s.onQueue fun q => q.modAnyJob p.jobid (Job.reconnected st socket))
  | runjob socket jobid => s.sSendRunjob socket jobid

/-- What holds when the server calls the function. -/
def Pre : Op → Prop
  | send _ r => r.tells = false
  | pause p => s.findjob p.jobid = some p ∧ p.pid ≠ 0 ∧ p.state ≠ .queued ∧ p.state ≠ .locked ∧
      p.state ≠ .pause
  | relegate p => s.findjob p.jobid = some p ∧ (p.state = .running ∨ p.state = .pause)
  | bottom ids => ids.Nodup ∧ ids ⊆ s.activeJobs.map Job.jobid
  | dispatch uid p => p ∈ s.activeJobs ∧ s.eligible e uid p ∧ uid < s.nusers ∧
      (s.users uid).queue ≠ 0 ∧ 0 < s.maxSlots - s.busySlots
  | wake p => s.findjob p.jobid = some p ∧ p.state = .holdingClient
  | fill _ m user old => user < s.nusers ∧ (if m.jobid = 0 then none else s.findjob m.jobid) = old ∧
      ∀ p, old = some p → p.state = .delink ∨ p.state = .wait ∨ p.state = .locked
  | runjobOk _ _ pid => 0 < pid
  | removeActive p => s.findjob p.jobid = some p ∧ p.state ≠ .running ∧ p.state ≠ .pause ∧
      p.state ≠ .abnormal
  | removeFinished p => p ∈ s.finishedJobs ∧ s.findjob p.jobid = none
  | lock p => s.findjob p.jobid = some p ∧ p.state = .queued
  | unlock p => s.findjob p.jobid = some p ∧ p.state = .locked
  | wall jobid _ => (s.findjob jobid).isSome
  | absWall p => s.findjob p.jobid = some p ∧ p.state ≠ .queued ∧ p.state ≠ .locked
  | start p => s.findjob p.jobid = some p ∧ p.state = .pause ∧ p.pid ≠ 0
  | users us n maxSlots => (Act.users us n).Guard s.view ∧ (maxSlots = s.maxSlots ∨ 0 < maxSlots)
  | wait _ p => p ∈ s.activeJobs ∨ p ∈ s.finishedJobs
  | reconnect p st _ => s.getJob p.jobid = some p ∧ Server.mayReconnect p ∧
      st = if p.state = .delink then .running else p.state
  | sort => s.jobsortFlag = true
  | _ => True

/-- An operation, as a step. -/
def Step (s : Spool) (o : Op) (s' : Spool) : Prop := o.Pre e s ∧ o.run e s = .ok s'

end Op

/-- The states reached by operations that are allowed where they are called. -/
def Ops (e : Env) (ok : Op → Spool → Prop) (s s' : Spool) : Prop := Run (Op.Step e) ok s s'

namespace Ops

variable {e : Env} {ok ok' : Op → Spool → Prop} {s s' s'' : Spool}

theorem refl : Ops e ok s s := Run.start

theorem of_eq (h : s' = s) : Ops e ok s s' := h ▸ Run.start

theorem single (o : Op) (hpre : o.Pre e s) (hok : ok o s) (h : o.run e s = .ok s') :
    Ops e ok s s' :=
  Run.start.next hok ⟨hpre, h⟩

theorem trans (h : Ops e ok s s') (h' : Ops e ok s' s'') : Ops e ok s s'' := Run.trans h h'

theorem mono (h : Ops e ok s s') (himp : ∀ o s, ok o s → ok' o s) : Ops e ok' s s' :=
  Run.mono h himp

/-- The induction over the operations. -/
theorem invariant {I : Spool → Prop} (h : Ops e ok s s') (hinit : I s)
    (hkeep : ∀ {s s' o}, I s → ok o s → o.Pre e s → o.run e s = .ok s' → I s') : I s' :=
  Run.invariant h hinit fun hI hok hst => hkeep hI hok hst.1 hst.2

/-- What an invariant says of the operations may be added to their condition. -/
theorem refine {I : Spool → Prop} (h : Ops e ok s s') (hinit : I s)
    (hkeep : ∀ {s s' o}, I s → ok o s → o.Pre e s → o.run e s = .ok s' → I s' ∧ ok' o s) :
    I s' ∧ Ops e ok' s s' :=
  Run.refine h hinit fun hI hok hst => hkeep hI hok hst.1 hst.2

end Ops

end TaskSpooler
