import TaskSpooler.Lib.Run
import TaskSpooler.Sched.View

/-!
# The moves of the scheduler

Every request ends up in a few ways of changing the queue: a job is submitted, started, paused,
finished, and so on.  `Act` lists them, `Act.apply` says what each of them does to the view and
`Act.Guard` what holds whenever the server does it.  `Moves ok v v'` is a sequence of such moves
from `v` to `v'`, each of them made where `ok` allows it.

An invariant of the queue is proved by looking at every move once.  The modules that follow show
that every function of the server is a sequence of moves, and say which ones.
-/

namespace TaskSpooler

/-- The ways in which the server changes the queue. -/
inductive Act
  /-- Give back the slots of a job and pause it. -/
  | pause (p : Job)
  /-- `s_relegate_job`, after a timeout or on request. -/
  | relegate (p : Job) (requeue : Bool)
  /-- The health check gives a job up. -/
  | abnormal (p : Job)
  | wall (p : Job) (w : ℤ)
  /-- `config_running` of a paused job. -/
  | start (p : Job)
  /-- `next_run_job` starts a job in the queue `q`. -/
  | dispatch (uid : ℕ) (p : Job) (q : Queue)
  /-- `next_run_job` takes a queued job whose process is stopped. -/
  | asleep (uid : ℕ) (p : Job) (q : Queue)
  /-- A held client may wait in the queue. -/
  | wake (p : Job)
  | lock (p : Job)
  | unlock (p : Job)
  /-- A new job enters the queue, and the jobs `ds` will tell it their error level; `n` is the
  next job id. -/
  | submit (p : Job) (ds : List ℤ) (n : ℤ) (m : NewJob) (q : Queue)
  /-- `NEWJOB` for a job that is in the queue already. -/
  | reuse (old p : Job) (ds : List ℤ) (m : NewJob) (q : Queue)
  | jobids (n : ℤ)
  /-- `job_finished` of the job `p`, whose last record is `p'`. -/
  | finish (r : Result) (p p' : Job) (max : ℕ)
  /-- `s_remove_job` of an active job, up to its removal from the list. -/
  | gone (p : Job)
  /-- The job leaves the queue.  If it had a process, its slots are given back and the record goes
  to the finished jobs. -/
  | drop (p : Job) (shelf : Option (ℕ × Job))
  /-- `s_remove_job` of a finished job, up to its removal from the list. -/
  | goneFinished (p : Job)
  /-- Some finished jobs are forgotten. -/
  | forget (l : List Job)
  | delete (p : Job)
  | reorder (l : List Job)
  | recount
  | users (us : ℕ → User) (n : ℕ)
  | maxSlots (n : ℤ)
  | pid (p : Job) (pid : ℤ)
  | reconnect (p : Job) (st : Jobstate) (socket : ℤ)

namespace View

variable (v : View)

/-- The job is active, as it is seen in the view. -/
def Has (p : Job) : Prop := v.findjob p.jobid = some p.strip

end View

/-- The dependencies of a request. -/
def NewJob.dependencies (m : NewJob) : List ℤ := if m.dependOnSize = 0 then [] else m.dependOn

/-- Some active jobs will tell a job their error level. -/
def Queue.notifiedBy (q : Queue) (ds : List ℤ) (jobid : ℤ) : Queue :=
  { q with
    activeJobs := ds.foldl (fun l d => Keyed.modify Job.jobid d (Job.addNotify jobid) l)
      q.activeJobs }

/-- What the dependency loop of `s_newjob` makes of explicit dependencies: active ones will notify
the job, and the error level sums up the results of the other ones. -/
structure View.DependsAs (v : View) (p : Job) (ds : List ℤ) (m : NewJob) : Prop where
  dependOn : p.dependOn = m.dependencies.filter (· < p.jobid)
  notified : ds = p.dependOn.filter fun d => (v.findjob d).isSome
  nonneg : 0 ≤ p.dependencyErrorlevel
  verdict : p.dependencyErrorlevel = 0 ↔ ∀ d ∈ p.dependOn, v.findjob d = none →
    ∃ x, v.findFinishedJob d = some x ∧ x.result.errorlevel = 0

/-- The dependency `d` of a job that asked for the dependencies `l` has a smaller id, or `-1` stands
for it. -/
def Queue.Older (q : Queue) (jobid : ℤ) (l : List ℤ) (d : ℤ) : Prop :=
  d < jobid ∨
    -1 ∈ l ∧ (d ≠ jobid ∧ (q.findjob d).isSome ∨ d ∈ q.finishedJobs.map Job.jobid)

/-- The number of slots passes the test of `s_newjob` for the user. -/
def Queue.admits (q : Queue) (u : ℕ) (slots : ℤ) : Prop :=
  ¬(0 < (q.users u).maxSlots ∧ (q.users u).maxSlots < slots)

namespace Act

/-- The effect of a move on the view. -/
def apply (v : View) : Act → View
  | pause p => v.onQueue fun q => (q.freeCores p).modJob p.jobid (Job.setState .pause)
  | relegate p _ =>
    v.onQueue fun q => (if p.state = .running then q.freeCores p else q).modJob p.jobid Job.relegated
  | abnormal p => v.onQueue fun q => (q.freeCores p).modJob p.jobid (Job.setState .abnormal)
  | wall p w => v.onQueue fun q => q.modJob p.jobid (Job.setWallTime w)
  | start p => v.onQueue fun q => q.start p
  | dispatch uid p q =>
    (v.onQueue fun q =>
      ((if p.state = .queued then q.uncountQueued (some uid) else q).start p).served uid).log
      (.dispatch p q)
  | asleep uid p q =>
    (v.onQueue fun q =>
      ((q.uncountQueued (some uid)).modJob p.jobid (Job.setState .pause)).served uid).log
      (.dispatch p q)
  | wake p => v.onQueue fun q => q.modJob p.jobid (Job.setState .queued)
  | lock p => v.onQueue fun q => (q.uncountQueued p.user).modJob p.jobid (Job.setState .locked)
  | unlock p => v.onQueue fun q => (q.countQueued p.user).modJob p.jobid (Job.setState .queued)
  | submit p ds n m q =>
    (v.onQueue fun q =>
      { q with
        activeJobs := (q.notifiedBy ds p.jobid).activeJobs ++ [p.strip]
        jobids := n }.countQueued p.user).log (.submit p m q)
  | reuse _ p ds m q =>
    (v.onQueue fun q =>
      let q := (q.notifiedBy ds p.jobid).modJob p.jobid fun _ =>
        p.strip.setState (if p.state = .wait then .queued else p.state)
      if p.state = .locked then q else q.countQueued p.user).log (.submit p m q)
  | jobids n => v.onQueue fun q => { q with jobids := n }
  | finish r p p' max =>
    (v.onQueue fun q => ((q.finish r p).dropJob p.jobid).pushFinished max p'.strip).log (.finish p')
  | gone p =>
    (v.onQueue fun q => (q.modJob p.jobid Job.gone).notifyErrorlevel p.gone).log (.removed p.gone)
  | drop p shelf => v.onQueue fun q =>
    match shelf with
    | none => q.dropJob p.jobid
    | some (max, p') => ((q.dropJob p.jobid).freeCores p).pushFinished max p'.strip
  | goneFinished p =>
    (v.onQueue fun q =>
      { q with
        finishedJobs :=
          Keyed.modifyFirst Job.jobid p.jobid Job.gone q.finishedJobs }.notifyErrorlevel p.gone).log
      (.removed p.gone)
  | forget l => v.onQueue fun q => { q with finishedJobs := l }
  | delete p => (v.onQueue fun q => q.dropJob p.jobid).log (.deleted p)
  | reorder l => v.onQueue fun q => { q with activeJobs := l }
  | recount =>
    let v' := v.onQueue Queue.recount
    if v'.busySlots ≠ v.busySlots then v'.log (.invalidSlots v'.busySlots v.busySlots) else v'
  | users us n => v.onQueue fun q => { q with users := us, nusers := n }
  | maxSlots n => v.onQueue fun q => { q with maxSlots := n }
  | pid p n => v.onQueue fun q => q.modJob p.jobid (Job.setPid n)
  | reconnect p st socket => v.onQueue fun q => q.modAnyJob p.jobid (Job.reconnected st socket)

/-- What holds when the server makes the move. -/
def Guard (v : View) : Act → Prop
  | pause p => v.Has p ∧ p.pid ≠ 0 ∧ p.state ≠ .queued ∧ p.state ≠ .locked ∧ p.state ≠ .pause
  | relegate p requeue => v.Has p ∧ (p.state = .running ∨ p.state = .pause) ∧
      (requeue = false → p.state = .running ∧ p.pid ≠ 0)
  | abnormal p => v.Has p ∧ p.state = .running ∧ 0 < p.pid
  | wall p _ => v.Has p
  | start p => v.Has p ∧ p.state = .pause ∧ p.pid ≠ 0
  | dispatch uid p q => q.strip = v.toQueue ∧ v.Has p ∧ p ∈ q.activeJobs ∧ p.user = some uid ∧
      uid < v.nusers ∧ v.fits uid p ∧ (v.users uid).queue ≠ 0 ∧ 0 < v.maxSlots - v.busySlots ∧
      (p.state = .queued ∧ v.depsReady p ∧ 0 < p.clientSocket ∨ p.state = .pause ∧ p.wallTime < 0)
  | asleep uid p q => q.strip = v.toQueue ∧ v.Has p ∧ p ∈ q.activeJobs ∧ p.user = some uid ∧
      uid < v.nusers ∧ (v.users uid).queue ≠ 0 ∧ p.state = .queued ∧ v.depsReady p ∧ 0 < p.pid
  | wake p => v.Has p ∧ p.state = .holdingClient
  | lock p => v.Has p ∧ p.state = .queued
  | unlock p => v.Has p ∧ p.state = .locked
  | submit p ds n m _ => v.findjob p.jobid = none ∧ v.jobids ≤ n ∧ p.jobid < n ∧
      (p.state = .queued ∨ p.state = .holdingClient) ∧ p.numAllocated = 0 ∧ p.pid = 0 ∧
      p.notifyErrorlevelTo = [] ∧ p.numSlots = m.numSlots ∧
      (∃ u < v.nusers, p.user = some u ∧ v.admits u p.numSlots) ∧
      ((∀ d ∈ m.dependencies, d ≠ -1) → v.DependsAs p ds m) ∧
      p.jobid = (if m.jobid ≠ 0 then m.jobid else v.jobids) ∧
      ∀ d ∈ p.dependOn, v.Older p.jobid m.dependencies d
  | reuse old p _ m _ => v.Has old ∧ old.jobid = p.jobid ∧ old.state = p.state ∧ old.pid = p.pid ∧
      old.numAllocated = p.numAllocated ∧ p.numSlots = m.numSlots ∧
      (∃ u < v.nusers, p.user = some u ∧ v.admits u p.numSlots) ∧
      (p.state = .delink ∨ p.state = .wait ∨ p.state = .locked) ∧
      ∀ d ∈ p.dependOn, v.Older p.jobid m.dependencies d
  | jobids n => v.jobids ≤ n
  | finish r p p' _ => v.Has p ∧ (v.toQueue.finish r p).findjob p.jobid = some p'.strip
  | gone p => v.Has p ∧ p.state ≠ .running ∧ p.state ≠ .pause ∧ p.state ≠ .abnormal
  | drop p shelf => v.Has p ∧ p.state ≠ .running ∧
      ∀ x, shelf = some x → p.pid ≠ 0 ∧ p.state = .finished ∧ x.2.plain = p.freed.plain
  | goneFinished p => p.strip ∈ v.finishedJobs ∧ v.findjob p.jobid = none
  | forget l => l.Sublist v.finishedJobs
  | delete p => v.Has p
  | reorder l => l.Perm v.activeJobs
  | recount => ∀ p ∈ v.activeJobs, p.user ≠ none
  | users us n => v.nusers ≤ n ∧
      (∀ u < n, ∀ u' < n, (us u).uid = (us u').uid → u = u') ∧
      (∀ u < v.nusers, (us u).busy = (v.users u).busy ∧ (us u).jobs = (v.users u).jobs ∧
        (us u).queue = (v.users u).queue ∧ (us u).maxSlots.natAbs = (v.users u).maxSlots.natAbs) ∧
      ∀ u < n, v.nusers ≤ u → (us u).busy = 0 ∧ (us u).jobs = 0 ∧ (us u).queue = 0
  | maxSlots n => 0 < n
  | pid p n => v.Has p ∧ p.state = .running ∧ 0 < n
  | reconnect p st _ => v.getJob p.jobid = some p.strip ∧ Server.mayReconnect p ∧
      st = if p.state = .delink then .running else p.state

/-- A move, as a step. -/
def Step (v : View) (a : Act) (v' : View) : Prop := a.Guard v ∧ v' = a.apply v

end Act

/-- The views reached by moves that are allowed where they are made. -/
def Moves (ok : Act → View → Prop) (v v' : View) : Prop := Run Act.Step ok v v'

namespace Moves

variable {ok ok' : Act → View → Prop} {v v' v'' : View}

theorem refl : Moves ok v v := Run.start

theorem of_eq (h : v' = v) : Moves ok v v' := h ▸ Run.start

theorem single (a : Act) (hg : a.Guard v) (hok : ok a v) (h : v' = a.apply v) : Moves ok v v' :=
  Run.start.next hok ⟨hg, h⟩

theorem trans (h : Moves ok v v') (h' : Moves ok v' v'') : Moves ok v v'' := Run.trans h h'

theorem mono (h : Moves ok v v') (himp : ∀ a w, ok a w → ok' a w) : Moves ok' v v' :=
  Run.mono h himp

/-- The induction over the moves: every invariant of the queue is proved by it. -/
theorem invariant {I : View → Prop} (h : Moves ok v v') (hinit : I v)
    (hkeep : ∀ {w a}, I w → ok a w → a.Guard w → I (a.apply w)) : I v' := by
  refine Run.invariant h hinit fun hI hok hst => ?_
  rw [hst.2]
  exact hkeep hI hok hst.1

end Moves

end TaskSpooler
