import TaskSpooler.Jobs.Basic

/-!
# Starting, pausing and finishing jobs (`jobs.c`)

The functions that move jobs in and out of `RUNNING` and keep the slot counters `busy_slots`,
`user->busy`, `user->jobs` and `user->queue` by hand: `free_cores`, `config_running`,
`safe_pause_job`, `s_relegate_job`, `job_finished`, the health check, the scheduler
`next_run_job` and the recount `s_update_slots_usage`.

A function that takes a `struct Job *` here takes the record it points to at that moment.  The
loops of `next_run_job` are modelled with fuel; `Fatal.hang` stands for a loop that does not end.
-/

namespace TaskSpooler

open CpuBind

/-! ### The slot counters -/

namespace Queue

variable (e : Env) (q : Queue)

/-- `free_cores`. -/
def freeCores (p : Job) : Queue :=
  if p.numAllocated = 0 then q
  else
    let q := q.modUser p.user fun u => { u with busy := u.busy - p.numSlots, jobs := u.jobs - 1 }
    { q with busySlots := q.busySlots - p.numSlots }.modJob p.jobid Job.freed

/-- What `config_running` writes to the counters and to the job. -/
def start (p : Job) : Queue :=
  let q := q.modUser p.user fun u => { u with busy := u.busy + p.numSlots, jobs := u.jobs + 1 }
  { q with busySlots := q.busySlots + p.numSlots }.modJob p.jobid Job.started

/-- `user->queue++`. -/
def countQueued (u : Option ℕ) : Queue := q.modUser u fun u => { u with queue := u.queue + 1 }

/-- `user->queue--`. -/
def uncountQueued (u : Option ℕ) : Queue := q.modUser u fun u => { u with queue := u.queue - 1 }

/-- `last_uid` after a job of a user has been started. -/
def served (uid : ℕ) : Queue := { q with lastUid := (uid + 1) % q.nusers }

/-- `notify_errorlevel`. -/
def notifyErrorlevel (p : Job) : Queue :=
  p.notifyErrorlevelTo.foldl
    (fun q jobid => q.modAnyJob jobid (Job.addErrorlevel p.result.errorlevel))
    { q with lastErrorlevel := p.result.errorlevel }

/-- The first part of `job_finished`, with the job still in the queue. -/
def finish (r : Result) (p : Job) : Queue :=
  let q := (q.freeCores p).modJob p.jobid (Job.done r)
  { q with lastFinishedJobid := p.jobid }.notifyErrorlevel (p.done r)

/-- The list of finished jobs in `new_finished_job`: the oldest one is dropped if there are
`max` already. -/
def pushFinished (max : ℕ) (j : Job) : Queue :=
  let kept := if max ≤ q.finishedJobs.length then q.finishedJobs.tail else q.finishedJobs
  { q with finishedJobs := kept ++ [{ j with cpuAlloc := none }] }

/-- The dependencies of a job as `next_run_job` tests them. -/
def depsReady (p : Job) : Bool :=
  p.dependOn.all fun d =>
    match q.getJob d with
    | some dep => dep.state ≠ .queued ∧ dep.state ≠ .running
    | none => true

/-- The two slot tests of `next_run_job`. -/
def fits (uid : ℕ) (p : Job) : Bool :=
  p.numSlots ≤ q.maxSlots - q.busySlots ∧ p.numSlots ≤ (q.users uid).maxSlots - (q.users uid).busy

/-- The tests a queued job passes before it is dispatched. -/
def queuedReady (uid : ℕ) (p : Job) : Bool :=
  p.state = .queued ∧ q.depsReady p ∧ ¬(0 < p.scheduleTime ∧ e.now < p.scheduleTime) ∧
    0 < p.clientSocket ∧ q.fits uid p

/-- The tests a paused job passes before it is run again after a timeout. -/
def retryReady (uid : ℕ) (p : Job) : Bool :=
  p.state = .pause ∧ p.wallTime < 0 ∧ e.cpuTime p.pid < p.wallTime.natAbs ∧ q.fits uid p

/-- The job is one that `next_run_job` dispatches for a user. -/
def eligible (uid : ℕ) (p : Job) : Bool :=
  p.user = some uid ∧ (q.queuedReady e uid p ∨ q.retryReady e uid p)

/-- The slots of the running jobs in a list. -/
def runningSlots (l : List Job) : ℤ := ((l.filter fun p => p.state = .running).map Job.numSlots).sum

/-- The counters of one user, computed from the active jobs. -/
def recountUser (u : ℕ) : User :=
  let own := q.activeJobs.filter fun p => p.user = some u
  { q.users u with
    busy := runningSlots own
    jobs := (own.filter fun p => p.state = .running).length
    queue := (own.filter fun p => p.state ≠ .running).length }

/-- The counters computed from the active jobs, by the second part of `s_update_slots_usage`. -/
def recount : Queue :=
  { q with
    users := q.recountUser
    busySlots := runningSlots q.activeJobs }

end Queue

namespace Spool

variable (e : Env) (s : Spool)

/-! ### CPU binding of a job -/

/-- `cpu_bind_free` of the allocation at an address, if there is one. -/
def freeAlloc (ptr : Option ℕ) : Spool :=
  match ptr with
  | none => s
  | some ptr =>
    match s.cpu.allocs.find? fun a => a.ptr = ptr with
    | none => s
    | some a => { s with cpu := s.cpu.cpuBindFree e.T a }

/-- `if (p->cpu_alloc) { cpu_bind_free(p->cpu_alloc); p->cpu_alloc = NULL; }`. -/
def freeBind (p : Job) : Spool :=
  (s.freeAlloc e p.cpuAlloc).modJob p.jobid fun p => { p with cpuAlloc := none }

/-- Allocate CPUs for a job and write them to its cgroup; an allocation that got none is freed at
once (`config_running` and `s_process_runjob_ok`). -/
def bindCpus (p : Job) : Spool :=
  match s.cpu.acquire e.Q e.T p.jobid p.numAllocated with
  | (cpu, some a) =>
    ({ s with cpu := cpu }.modJob p.jobid fun p => { p with cpuAlloc := some a.ptr }).cgroupsSetCpuset
      e p.jobid p.pid a
  | (cpu, none) => { s with cpu := cpu }.modJob p.jobid fun p => { p with cpuAlloc := none }

/-- The background thread of `cpu_bind_defrag_start` for one allocation: freeze, write the cpuset,
thaw. -/
def defragIo (a : CpuAlloc) : Spool :=
  match s.findjob a.jobid with
  | none => s
  | some p =>
    if 0 < p.pid ∧ (p.state = .running ∨ p.state = .pause) then
      (s.mkdirCgroup p.jobid p.pid).modCgroup p.jobid p.pid fun g =>
        { g with
          cpus := some (formatCpus a.osCpus)
          mems := if formatMems e.T a = [] then g.mems else some (formatMems e.T a)
          frozen := false }
    else s

/-- `if (cpu_bind_defrag_enabled()) cpu_bind_defrag_start();`. -/
def defrag : Spool :=
  if e.cpuBind ∧ s.cpu.defragDisabled = false then
    let kept := ((e.Q.sort Bind.defragLe s.cpu.allocs).takeWhile fun a => a.quality = 0).length
    let cpu := s.cpu.cpuBindDefragStart e.Q e.T
    (cpu.allocs.drop kept).foldl (fun s a => s.defragIo e a) { s with cpu := cpu }
  else s

/-! ### In and out of `RUNNING` -/

/-- `pause_job_config`. -/
def pauseJobConfig (p : Job) : Spool :=
  if p.info.pauseTime = 0 then
    (s.modJob p.jobid fun p => { p with info := { p.info with pauseTime := e.now } }).updateDb
      p.jobid fun p => { p with info := { p.info with pauseTime := e.now } }
  else s

/-- `rerun_job_config`. -/
def rerunJobConfig (p : Job) : Spool :=
  if p.info.pauseTime ≠ 0 then
    let duration := p.info.pauseDuration + (e.now - p.info.pauseTime)
    (s.modJob p.jobid fun p =>
        { p with info := { p.info with pauseDuration := duration, pauseTime := 0 } }).updateDb
      p.jobid fun p => { p with info := { p.info with pauseDuration := duration, pauseTime := 0 } }
  else s

/-- `free_cores`. -/
def freeCores (p : Job) : Spool := s.onQueue fun q => q.freeCores p

/-- `config_running` of a job in state `PAUSE` or `QUEUED`. -/
def configRunning (p : Job) : Spool :=
  let s := if s.isSleep e p = 1 then s.cgroupsThawJob p else s
  let s := s.onQueue fun q => q.start p
  let s := s.updateDb p.jobid (Job.setWallTime p.wallTime.natAbs)
  let s := s.rerunJobConfig e p
  -- a job with a pid ran before: it gets CPUs again
  if e.cpuBind ∧ p.pid ≠ 0 ∧ p.cpuAlloc = none ∧ s.cpu.disabled = false ∧
      p.noCpuBinding = false ∧ 0 < p.numSlots then
    s.bindCpus e { p with numAllocated := p.numSlots }
  else s

/-- `safe_pause_job`; the caller sets the state. -/
def safePauseJob (p : Job) : Spool :=
  (((s.cgroupsFreezeJob p).freeCores p).freeBind e p).pauseJobConfig e p

/-- `s_relegate_job`: put a job back to wait for its next turn. -/
def sRelegateJob (p : Job) : Spool :=
  let s := if p.state = .running then s.safePauseJob e p else s
  (s.updateDb p.jobid (Job.setWallTime (-(p.wallTime.natAbs : ℤ) - 86400))).modJob p.jobid
    Job.relegated

/-! ### The end of a job -/

/-- `new_finished_job`. -/
def newFinishedJob (j : Job) : Spool :=
  let s := (s.onQueue fun q => q.pushFinished e.maxFinished j).insertFinishedDb j
  ((s.cgroupsCleanJob j).freeAlloc e j.cpuAlloc).defrag e

/-- What `job_finished` writes to the record besides the state and the result. -/
def finishInfo (r : Result) (p : Job) : Job :=
  let info := { p.info with endTime := e.now }
  let info := if r.realSec = 0 then { info with startTime := e.now, enqueueTime := e.now } else info
  let text := if r.diedBySignal then s!"Exit status: killed by signal {r.signal}\n"
              else s!"Exit status: died with exit code {r.errorlevel}\n"
  { p with info := info.addinfo 100 text }

/-- `job_finished`. -/
def jobFinished (r : Result) (jobid : ℤ) : Except Fatal Spool :=
  if s.busySlots < 0 then .error .busySlotsNegative
  else
    match s.findjob jobid with
    | none => .error (.finishedMissing jobid)
    | some p =>
      let s := (s.onQueue fun q => q.finish r p).modJob jobid (finishInfo e r)
      match s.findjob jobid with
      | none => .error (.finishedMissing jobid)
      | some p => .ok (((s.onQueue fun q => q.dropJob jobid).newFinishedJob e p).log (.finish p))

/-- `s_remove_notification`: the first entry of the socket. -/
def sRemoveNotification (socket : ℤ) : Spool :=
  { s with notifies := s.notifies.eraseP fun n => n.1 = socket }

/-- `destroy_finished_job`. -/
def destroyFinishedJob (jobid : ℤ) : Except Fatal Spool :=
  match s.findFinishedJob jobid with
  | none => .error (.destroyFinished jobid)
  | some _ => .ok { s with finishedJobs := Keyed.remove Job.jobid jobid s.finishedJobs }

/-- The body of the loop of `check_notify_list`. -/
def notifyWaiter (jobid socket : ℤ) : Except Fatal Spool :=
  match s.getJob jobid with
  | none => .error .nullPointer
  | some j =>
    if j.state = .finished ∨ j.state = .skipped then
      let s := (s.send socket (.waitjobOk j.result.errorlevel)).sRemoveNotification socket
      if (s.notifies.any fun n => n.2 = jobid) = false ∧ j.shouldKeepFinished = false then
        s.destroyFinishedJob jobid
      else .ok s
    else .ok s

/-- `check_notify_list`.  An answered entry removes itself or an earlier one, so the loop visits
the entries that were in the list at its start. -/
def checkNotifyList (jobid : ℤ) : Except Fatal Spool :=
  (s.notifies.filter fun n => n.2 = jobid).foldlM (fun s n => s.notifyWaiter jobid n.1) s

/-- `s_delete_job`. -/
def sDeleteJob (jobid : ℤ) : Except Fatal Spool :=
  match s.findjob jobid with
  | none => .error (.deleteMissing jobid)
  | some p => .ok (((s.onQueue fun q => q.dropJob jobid).deleteJobsDb jobid).log (.deleted p))

/-! ### The scheduler -/

/-- `s_mark_job_running`. -/
def sMarkJobRunning (jobid : ℤ) : Except Fatal Spool :=
  match s.findjob jobid with
  | none => .error (.markRunning jobid)
  | some p =>
    let p := p.setOutput (p.outputFilename.or (e.stdoutOf p.pid))
    let s := s.modJob jobid (Job.setOutput p.outputFilename)
    if s.isSleep e p = 1 then .ok (s.modJob jobid (Job.setState .pause))
    else if p.state = .pause ∨ p.state = .queued then .ok (s.configRunning e p)
    else .error (.markRunning jobid)

/-- `s_send_runjob`. -/
def sSendRunjob (socket jobid : ℤ) : Except Fatal Spool :=
  match s.findjob jobid with
  | none => .error (.runjobMissing jobid)
  | some p => .ok (s.send socket (.runjob jobid p.dependencyErrorlevel))

/-- Start the job that `next_run_job` found. -/
def takeJob (uid : ℕ) (p : Job) : Except Fatal Spool :=
  if p.state = .queued then
    (s.onQueue fun q => q.uncountQueued (some uid)).sMarkJobRunning e p.jobid
  else .ok (s.configRunning e p)

/-- The body of the job loop of `next_run_job`, for the job it found. -/
def dispatch (uid : ℕ) (p : Job) : Except Fatal Spool := do
  let s' ← s.takeJob e uid p
  let s' ← s'.sSendRunjob p.clientSocket p.jobid
  .ok ((s'.onQueue fun q => q.served uid).log (.dispatch p s.toQueue))

/-- The loop of `next_run_job` over the users; the index is computed from `last_uid` as it is at
that moment. -/
def round : List ℕ → Spool × Bool → Except Fatal (Spool × Bool)
  | [], st => .ok st
  | i :: rest, (s, found) =>
    let uid := (s.lastUid + i) % s.nusers
    if (s.users uid).queue = 0 then round rest (s, found)
    else if s.maxSlots - s.busySlots ≤ 0 then .ok (s, found)
    else
      match s.activeJobs.find? (s.eligible e uid) with
      | none => round rest (s, found)
      | some p => do
        let s ← s.dispatch e uid p
        round rest (s, true)

/-- `wake_all_held_clients`, with one unit of fuel for every job. -/
def wakeHeld : ℕ → Spool → Spool
  | 0, s => s
  | fuel + 1, s =>
    match s.activeJobs.find? fun p => p.state = .holdingClient with
    | none => s
    | some p =>
      let s := s.modJob p.jobid (Job.setState .queued)
      -- the job id is also the answer of `wake_hold_client`, and -1 ends the loop
      if p.jobid = -1 then s
      else
        match s.findjob p.jobid with
        | none => wakeHeld fuel s
        | some p => wakeHeld fuel (s.send p.clientSocket (.newjobOk p.jobid))

/-- `wake_all_held_clients`. -/
def wakeAllHeldClients : Spool := wakeHeld s.activeJobs.length s

/-- The outer loop of `next_run_job`. -/
def nextRunLoop : ℕ → Spool → Except Fatal Spool
  | 0, _ => .error .hang
  | fuel + 1, s =>
    if s.activeJobs = [] then .ok s
    else do
      let (s, found) ← round e (List.range s.nusers) (s, false)
      if found then nextRunLoop fuel s.wakeAllHeldClients else .ok s

/-- `next_run_job`.  Every round but the last one starts a job, which is possible at most three
times for a job: as a held client, from the queue, and after a timeout. -/
def nextRunJob : Except Fatal Spool := nextRunLoop e (3 * s.activeJobs.length + 1) s

/-! ### The recount -/

/-- `check_timeout`, without the relegation. -/
def checkTimeout (p : Job) : Bool :=
  p.pid ≠ 0 ∧ (p.wallTime.natAbs : ℤ) < getWorkTimeByJob e p ∧ 3 ≤ getWorkTimeByJob e p

/-- A running job that `s_check_timeout` relegates. -/
def timedOut (p : Job) : Bool := p.state = .running ∧ checkTimeout e p

/-- `s_check_timeout`: relegate the jobs that ran too long, from the back of the queue to its
front, and move them behind the other jobs in the order in which they were found. -/
def sCheckTimeout : Spool × Bool :=
  let late := (s.activeJobs.filter (timedOut e)).reverse
  let lateIds := late.map Job.jobid
  let s := late.foldl (fun s p => s.sRelegateJob e p) s
  let stay := s.activeJobs.filter fun p => p.jobid ∉ lateIds
  let s := { s with activeJobs := stay ++ lateIds.filterMap s.findjob }
  (lateIds.foldl movebottomDb s, !late.isEmpty)

/-- A job whose process has died. -/
def isDead (p : Job) : Bool :=
  (p.state = .running ∨ p.state = .pause ∨ p.state = .abnormal) ∧ 0 < p.pid ∧ e.alive p.pid = false

/-- The result of a job whose process has died. -/
def deadResult (p : Job) : Result :=
  { errorlevel := -1, diedBySignal := true, signal := 9, realSec := getWorkTimeByJob e p }

/-- The first part of `s_update_slots_usage`, for the job at one place of the queue. -/
def sweepJob (jobid : ℤ) : Except Fatal Spool :=
  match s.findjob jobid with
  | none => .ok s
  | some p =>
    if isDead e p then do
      let s ← s.jobFinished e (deadResult e p) jobid
      s.checkNotifyList jobid
    else .ok s

/-- Finish the jobs whose process has died, from the back of the queue to its front. -/
def sweepDead : Except Fatal Spool :=
  (s.activeJobs.map Job.jobid).reverse.foldlM (fun s jobid => s.sweepJob e jobid) s

/-- The second part of `s_update_slots_usage`: count the slots again.  A job without an owner is
a null pointer here. -/
def recount : Except Fatal Spool :=
  if s.activeJobs.any fun p => p.user = none then .error .nullPointer
  else
    let usage := Queue.runningSlots s.activeJobs
    let busy := s.busySlots
    let s := s.onQueue Queue.recount
    if usage ≠ busy then .ok (s.log (.invalidSlots usage busy)) else .ok s

/-- `s_update_slots_usage`. -/
def sUpdateSlotsUsage : Except Fatal Spool := do
  let (s, timeout) := s.sCheckTimeout e
  let s ← s.sweepDead e
  let s ← s.recount
  if timeout then s.nextRunJob e else .ok s

/-! ### Periodic work -/

/-- A running job that the health check looks at. -/
def healthDue (p : Job) : Bool :=
  p.state = .running ∧ p.healthState = 0 ∧ 0 < p.pid ∧ 300 ≤ e.now - p.info.startTime

/-- A job with an empty output file and without child processes. -/
def looksDead (p : Job) : Bool :=
  match p.outputFilename with
  | some f => f ≠ "" ∧ e.emptyFile f ∧ e.children p.pid = 0
  | none => false

/-- `s_check_running_health` for one job. -/
def checkHealth (jobid : ℤ) : Spool :=
  match s.findjob jobid with
  | none => s
  | some p =>
    if healthDue e p then
      if looksDead e p then
        let s := (s.modJob jobid (Job.setState .abnormal)).freeCores p
        let s := s.freeBind e p
        s.defrag e
      else s.modJob jobid fun p => { p with healthState := 1 }
    else s

/-- `s_check_running_health`. -/
def sCheckRunningHealth : Spool :=
  (s.activeJobs.map Job.jobid).foldl (fun s jobid => s.checkHealth e jobid) s

/-- `s_check_holdon`. -/
def sCheckHoldon : Spool :=
  s.activeJobs.foldl (fun s p =>
    if p.pid ≠ 0 ∧ p.state = .pause ∧ s.isSleep e p = 0 then s.cgroupsFreezeJob p else s) s

/-- `s_cleanup_orphan_queued`. -/
def sCleanupOrphanQueued : Except Fatal Spool :=
  ((s.activeJobs.filter fun p => p.state = .queued ∧ p.clientSocket ≤ 0).map Job.jobid).reverse.foldlM
    (fun s jobid => s.sDeleteJob jobid) s

end Spool

end TaskSpooler
