import TaskSpooler.Jobs.Running

/-!
# The requests about jobs (`jobs.c`, `job_ops.c`, `notify.c`)

What the server does for `NEWJOB`, `RUNJOB_OK`, `REMOVEJOB`, `CLEAR_FINISHED`, the requests that
reorder the queue or change a limit, and those that only look something up.
-/

namespace TaskSpooler

open CpuBind

namespace Queue

variable (q : Queue)

/-! ### Dependencies of a new job -/

/-- `add_notify_errorlevel_to`. -/
def addNotifyErrorlevelTo (job jobid : ℤ) : Queue :=
  q.modJob job (Job.addNotify jobid)

/-- `find_last_jobid_in_queue`. -/
def findLastJobidInQueue (neglect : ℤ) : ℤ :=
  ((q.activeJobs.map Job.jobid).filter fun jobid => jobid ≠ neglect).foldl max (-1)

/-- `find_last_stored_jobid_finished`. -/
def findLastStoredJobidFinished : ℤ := (q.finishedJobs.map Job.jobid).foldl max (-1)

/-- Add a dependency on the job `d` with a result that is known already. -/
def dependOnResult (p : Job) (d errorlevel : ℤ) : Job :=
  { p with dependOn := p.dependOn ++ [d] }.addErrorlevel errorlevel

/-- Add a dependency on the active job `d`. -/
def dependOnActive (p : Job) (d : ℤ) : Queue × Job :=
  (q.addNotifyErrorlevelTo d p.jobid, { p with dependOn := p.dependOn ++ [d] })

/-- The dependency on the last job, written as `-1`. -/
def dependOnLast (p : Job) : Except Fatal (Queue × Job) :=
  let last := q.findLastJobidInQueue p.jobid
  if last ≠ -1 ∧ q.lastFinishedJobid ≤ last then .ok (q.dependOnActive p last)
  else
    let stored := q.findLastStoredJobidFinished
    if q.lastFinishedJobid < stored then
      match q.findFinishedJob stored with
      | none => .error .nullPointer
      | some parent => .ok (q, dependOnResult p stored parent.result.errorlevel)
    else .ok (q, dependOnResult p stored q.lastErrorlevel)

/-- The body of the dependency loop of `s_newjob`. -/
def dependOn (p : Job) (d : ℤ) : Except Fatal (Queue × Job) :=
  if p.jobid ≤ d then .ok (q, p)
  else if d = -1 then q.dependOnLast p
  else
    match q.findjob d with
    | some _ => .ok (q.dependOnActive p d)
    | none =>
      match q.findFinishedJob d with
      | some parent => .ok (q, dependOnResult p d parent.result.errorlevel)
      -- a job that is not found counts as one that did not finish well
      | none => .ok (q, dependOnResult p d 1)

/-- The dependency loop of `s_newjob`. -/
def dependLoop (m : NewJob) (p : Job) : Except Fatal (Queue × Job) :=
  if m.dependOnSize = 0 then .ok (q, p)
  else if m.dependOn.length ≠ m.dependOnSize then .error .dependOnSize
  else m.dependOn.foldlM (fun st d => st.1.dependOn st.2 d) (q, p)

end Queue

namespace Spool

variable (e : Env) (s : Spool)

/-! ### New jobs -/

/-- The record of a new job, as `newjobptr` and the choice of the id leave it. -/
def newjobptr (m : NewJob) : Job where
  jobid := if m.jobid ≠ 0 then m.jobid else s.jobids
  -- the job is in the queue when the jobs are counted
  state := if (s.activeJobs.length + 1 : ℤ) < s.maxJobs then .queued else .holdingClient

/-- `jobids` after the choice of the id. -/
def nextJobids (m : NewJob) : ℤ :=
  if m.jobid ≠ 0 then (if m.jobid < s.jobids then s.jobids else m.jobid + 1) else s.jobids + 1

/-- The fields of the job that `s_newjob` sets before it tests the number of slots. -/
def newjobOwner (socket : ℤ) (m : NewJob) (user : ℕ) (p : Job) : Job :=
  { p with
    user := some user
    clientSocket := socket
    numSlots := m.numSlots
    noCpuBinding := m.noCpuBinding }

/-- The fields set before the dependencies. -/
def newjobFields (m : NewJob) (p : Job) : Job :=
  { p with
    storeOutput := m.storeOutput
    shouldKeepFinished := m.shouldKeepFinished
    notifyErrorlevelTo := []
    dependOn := []
    dependencyErrorlevel := 0
    wallTime := if p.state = .delink then p.wallTime else min e.maxWallTime m.wallTime
    scheduleTime := if p.state = .wait ∨ p.state = .delink then p.scheduleTime
                    else m.scheduleTime }

/-- The fields set after the dependencies. -/
def newjobTexts (m : NewJob) (p : Job) : Job :=
  let info : Procinfo :=
    if p.state = .delink ∨ p.state = .wait ∨ p.state = .locked then p.info
    else { enqueueTime := e.now, bootTime := e.wallClock - e.now }
  { p with
    info := match m.environment with
      | some env => info.addinfo (env.length + 101) ("Environment:\n" ++ env)
      | none => info
    command := m.command
    commandStrip := m.commandStrip
    workDir := m.workDir
    label := m.label }

/-- The end of `s_newjob`, when the record is complete. -/
def newjobEnqueue (p : Job) : Spool :=
  match p.state with
  | .wait =>
    (s.modJob p.jobid (Job.setState .queued)).onQueue fun q => q.countQueued p.user
  | .locked => s
  | _ => (s.insertJobsDb p).onQueue fun q => q.countQueued p.user

/-- `s_newjob` for a job that is accepted as far as its id goes.  In the source the record is in
the queue while it is filled in; nothing reads it there. -/
def newjobFill (socket : ℤ) (m : NewJob) (user : ℕ) (old : Option Job) :
    Except Fatal (Spool × ℤ) :=
  let q₀ := s.toQueue
  let p := newjobOwner socket m user (old.getD (s.newjobptr m))
  let s := if old = none then { s with jobids := s.nextJobids m } else s
  let u := s.users user
  if 0 < u.maxSlots ∧ u.maxSlots < p.numSlots then
    let text := s!"Error: job [{p.jobid}] requests {p.numSlots} slots but user '{u.name}' max is {u.maxSlots}\n"
    .ok ((s.onQueue fun q => if old = none then q else q.dropJob p.jobid).send socket
      (.line (String.ofList (text.toList.take 255))), -1)
  else do
    let (q, p) ← s.toQueue.dependLoop m (newjobFields e m p)
    let p := newjobTexts e m p
    let s := { s with toQueue := q }.onQueue fun q =>
      if old = none then { q with activeJobs := q.activeJobs ++ [p] } else q.modJob p.jobid fun _ => p
    let s := (s.newjobEnqueue p).log (.submit p m q₀)
    .ok (s.setJobidsDb s.jobids, p.jobid)

/-- `s_newjob`: the job id, or `-1`. -/
def sNewjob (socket : ℤ) (m : NewJob) (user : ℕ) : Except Fatal (Spool × ℤ) := do
  let s ← s.sUpdateSlotsUsage e
  match (if m.jobid = 0 then none else s.findjob m.jobid) with
  | none => s.newjobFill e socket m user none
  | some p =>
    if p.state = .delink ∨ p.state = .wait ∨ p.state = .locked then
      s.newjobFill e socket m user (some p)
    else
      .ok (s.send socket (.line s!"Error: jobid {m.jobid} already exists and is not available\n"), -1)

/-! ### A job that runs -/

/-- `s_process_runjob_ok`. -/
def sProcessRunjobOk (jobid : ℤ) (oname : Option String) (pid : ℤ) : Except Fatal Spool :=
  match s.findjob jobid with
  | none => .error (.runjobOkMissing jobid)
  | some p =>
    if p.state = .pause then .ok s
    else if p.state ≠ .running then .error (.runjobOkState jobid)
    else
      let p := p.setPid pid
      let s := s.modJob jobid (Job.setPid pid)
      let s := if e.cpuBind ∧ s.cpu.disabled = false ∧ p.noCpuBinding = false ∧ 0 < p.numAllocated
               then s.bindCpus e p else s
      let s := s.cgroupsCreateJob p
      let s := s.modJob jobid fun p =>
        { p with
          outputFilename := match oname with
            | some f => if f = "" then p.outputFilename else some f
            | none => p.outputFilename
          info := if p.info.startTime = 0 then { p.info with startTime := e.now, endTime := 0 }
                  else p.info }
      match s.findjob jobid with
      | none => .error .useAfterFree
      | some p =>
        -- `write_logfile` names the owner
        if p.user = none then .error .nullPointer
        else .ok (if 0 < pid then s.replaceJobsDb p else s)

/-! ### Removing jobs -/

/-- Answer `REMOVEJOB_NOK`. -/
def sSendRemovejobNok (socket : ℤ) (text : String) : Spool :=
  s.send socket (.removejobNok (String.ofList (text.toList.take 254)))

/-- What `s_remove_job` answers for a job that it does not remove. -/
def removeRefusal (jobid : ℤ) (p : Job) : Option String :=
  let name := match p.user with
    | some u => (s.users u).name
    | none => ""
  if p.state = .running ∨ p.state = .pause then
    some (if jobid = -1 then "Running job of last job is removed.\n"
          else s!"Running job [{jobid}] PID: {p.pid} by `{name}` is removed.\n")
  else if p.state = .abnormal then
    some (if jobid = -1 then "Last job is abnormal.\n"
          else s!"Abnormal job [{jobid}] PID: {p.pid} by `{name}` (use ts -k to kill).\n")
  else none

/-- The record of a removed job that had a process. -/
def removedRecord (p : Job) : Job :=
  let info := if p.info.pauseTime ≠ 0 then
      { p.info with pauseDuration := p.info.pauseDuration + (e.now - p.info.pauseTime), pauseTime := 0 }
    else p.info
  { p with info := { info with endTime := e.now } }

/-- The removal itself in `s_remove_job`, for a job that is in `active_jobs`. -/
def removeActive (p : Job) : Except Fatal Spool := do
  let s := (s.deleteJobsDb p.jobid).modJob p.jobid Job.gone
  let s ← (s.onQueue fun q => q.notifyErrorlevel p.gone).checkNotifyList p.jobid
  let s := (s.onQueue fun q => q.dropJob p.jobid).log (.removed p.gone)
  if p.pid = 0 then .ok s
  else
    let s := ((s.freeCores p.gone).cgroupsCleanJob p.gone).freeAlloc e p.cpuAlloc
    .ok ((s.defrag e).newFinishedJob e { removedRecord e p.gone.freed with cpuAlloc := none })

/-- The removal itself in `s_remove_job`, for a job that is in `finished_jobs`. -/
def removeFinished (p : Job) : Except Fatal Spool := do
  let s := (s.deleteJobsDb p.jobid).onQueue fun q =>
    { q with finishedJobs := Keyed.modifyFirst Job.jobid p.jobid Job.gone q.finishedJobs }
  let s ← (s.onQueue fun q => q.notifyErrorlevel p.gone).checkNotifyList p.jobid
  match s.findFinishedJob p.jobid with
  | none => .error .useAfterFree
  | some _ =>
    let s := s.onQueue fun q =>
      { q with finishedJobs := Keyed.remove Job.jobid p.jobid q.finishedJobs }
    .ok ((s.deleteFinishedDb p.jobid).log (.removed p.gone))

/-- `s_remove_job`: the id of the removed job, if one was removed.  `-1` asks for the last one. -/
def sRemoveJob (socket jobid : ℤ) (client : ℕ) : Except Fatal (Spool × Option ℤ) :=
  let refuse := fun text => .ok (s.sSendRemovejobNok socket text, none)
  match (if jobid = -1 then s.lastJob else s.getJob jobid) with
  | none => refuse (if jobid = -1 then "The last job cannot be removed.\n"
                    else s!"The job {jobid} is not in queue.\n")
  | some p =>
    if client ≠ 0 ∧ p.user ≠ some client then
      refuse (if jobid = -1 then "The last job cannot be removed.\n"
              else s!"The job {jobid} is not in queue.\n")
    else
      match s.removeRefusal jobid p with
      | some text => refuse text
      | none => do
        let s ← if (s.findjob p.jobid).isSome then s.removeActive e p else s.removeFinished p
        .ok (s.send socket .removejobOk, some p.jobid)

/-- `s_clear_finished`. -/
def sClearFinished (user : ℕ) : Spool :=
  let mine := fun p : Job => p.user = some user ∨ user = 0
  let s' := (s.finishedJobs.filter mine).foldl (fun s p => s.deleteFinishedDb p.jobid) s
  s'.onQueue fun q => { q with finishedJobs := q.finishedJobs.filter fun p => ¬mine p }

/-! ### The order of the queue -/

/-- `s_move_urgent`. -/
def sMoveUrgent (socket jobid : ℤ) : Spool :=
  match s.findjob jobid with
  | none => s.sendLine socket s!"The job {jobid} cannot be urged.\n"
  | some p =>
    ((s.onQueue fun q =>
      { q with activeJobs := p :: Keyed.remove Job.jobid jobid q.activeJobs }).movetopDb jobid).send
      socket .urgentOk

/-- `s_swap_jobs`. -/
def sSwapJobs (socket jobid₁ jobid₂ : ℤ) : Spool :=
  match s.activeJobs.findIdx? fun p => p.jobid = jobid₁,
    s.activeJobs.findIdx? fun p => p.jobid = jobid₂, s.findjob jobid₁, s.findjob jobid₂ with
  | some i₁, some i₂, some p₁, some p₂ =>
    ((s.onQueue fun q =>
      { q with activeJobs := (q.activeJobs.set i₁ p₂).set i₂ p₁ }).swapDb jobid₁ jobid₂).send socket
      .swapJobsOk
  | _, _, _, _ => s.sendLine socket s!"The jobs {jobid₁} and {jobid₂} cannot be swapped.\n"

/-- `s_sort_jobs`: the running jobs first. -/
def sSortJobs : Spool := s.onQueue fun q =>
  { q with
    activeJobs := (q.activeJobs.filter fun p => p.state = .running) ++
      q.activeJobs.filter fun p => p.state ≠ .running }

/-! ### Limits -/

/-- `s_add_wtime`. -/
def sAddWtime (socket jobid addWtime : ℤ) : Spool :=
  if jobid = 0 then
    s.sendLine socket "Error: job ID is not specified. Use --job [jobid] or -J [jobid].\n"
  else
    match s.findjob jobid with
    | none => s.sendLine socket s!"cannot find Job by id: {jobid}\n"
    | some p =>
      let absWtime : ℤ := p.wallTime.natAbs
      let newWtime := absWtime + addWtime
      if 0 < addWtime ∧ 2 ^ 63 - 1 - addWtime < absWtime then
        s.send socket (.wallTimeOverflow jobid absWtime)
      else if newWtime ≤ 0 then s.send socket (.wallTimeNegative jobid absWtime newWtime.natAbs)
      else
        let wallTime := if p.wallTime < 0 then -newWtime else newWtime
        ((s.modJob jobid (Job.setWallTime wallTime)).replaceJobsDb (p.setWallTime wallTime)).send
          socket (.wallTime jobid wallTime.natAbs)

/-- `s_set_max_slots`; the socket `0` is none. -/
def sSetMaxSlots (socket newMaxSlots : ℤ) : Spool :=
  let s := if 0 < newMaxSlots then s.onQueue fun q => { q with maxSlots := newMaxSlots } else s
  if 0 < socket then s.sendLine socket s!"Reset the number of slots: {s.maxSlots}\n" else s

/-- `s_get_max_slots`. -/
def sGetMaxSlots (socket : ℤ) : Spool := s.send socket (.maxSlots s.maxSlots)

/-! ### Looking things up -/

/-- `s_count_running_jobs`. -/
def sCountRunningJobs (socket : ℤ) (user : ℕ) : Spool :=
  s.send socket (.countRunning (s.activeJobs.countP fun p =>
    p.state = .running ∧ (user = 0 ∨ p.user = some user)))

/-- `s_kill_all_jobs`: the pids of the running jobs, for the client to kill. -/
def sKillAllJobs (socket : ℤ) (user : ℕ) : Spool :=
  (s.activeJobs.filter fun p => p.state = .running ∧ (user = 0 ∨ p.user = some user)).foldl
    (fun s p => s.send socket (.pid p.pid)) (s.sCountRunningJobs socket user)

/-- The job that `-1` or an id names for the requests that look at a running job. -/
def currentJob (jobid : ℤ) : Except Fatal (Option Job) :=
  if jobid = -1 then
    if 0 < s.busySlots then
      match s.activeJobs with
      | [] => .error .noActiveJob
      | p :: _ => .ok (some p)
    else .ok s.finishedJobs.getLast?
  else .ok (s.getJob jobid)

/-- There is no job at all for `-1`. -/
def noJobs (jobid : ℤ) : Bool := jobid = -1 ∧ s.busySlots ≤ 0 ∧ s.finishedJobs = []

/-- Answer a job that is over, or put the socket into the notify list. -/
def waitFor (socket : ℤ) (p : Job) : Spool :=
  if p.state = .finished ∨ p.state = .skipped then s.send socket (.waitjobOk p.result.errorlevel)
  else { s with notifies := s.notifies ++ [(socket, p.jobid)] }

/-- `s_wait_job`. -/
def sWaitJob (socket jobid : ℤ) : Spool :=
  match (if jobid = -1 then s.lastJob else s.getJob jobid) with
  | none => s.sendLine socket s!"The job {jobid} cannot be waited.\n"
  | some p => s.waitFor socket p

/-- `s_wait_running_job`. -/
def sWaitRunningJob (socket jobid : ℤ) : Except Fatal Spool :=
  if s.noJobs jobid then .ok (s.send socket (.line "No jobs.\n"))
  else do
    match ← s.currentJob jobid with
    | none => .ok (s.sendLine socket s!"The job {jobid} cannot be waited.\n")
    | some p => .ok (s.waitFor socket p)

/-- `s_job_info`: it names the owner, and the output file or the working directory. -/
def sJobInfo (socket jobid : ℤ) : Except Fatal Spool :=
  if s.noJobs jobid then .ok (s.send socket (.line "No jobs.\n"))
  else do
    match ← s.currentJob jobid with
    | none =>
      .ok (s.sendLine socket s!"[s_job_info] Job {jobid} not finished or not running.\n")
    | some p =>
      if p.user = none ∨ (p.outputFilename = none ∧ p.workDir = none) then .error .nullPointer
      else .ok (s.send socket (.info p))

/-- `s_get_label`. -/
def sGetLabel (socket jobid : ℤ) : Spool :=
  match (if jobid = -1 then s.lastJob else s.getJob jobid) with
  | none => s.sendLine socket s!"[get_label] Job {jobid} not finished or not running.\n"
  | some p => s.send socket (.line (match p.label with
    | some label => label ++ "\n"
    | none => ""))

/-- `s_send_cmd`. -/
def sSendCmd (socket jobid : ℤ) : Spool :=
  match (if jobid = -1 then s.lastJob else s.getJob jobid) with
  | none => s.sendLine socket s!"[get_cmd] Job {jobid} not finished or not running.\n"
  | some p => s.send socket (.line (p.command ++ "\n"))

/-- `s_send_state`. -/
def sSendState (socket jobid : ℤ) : Spool :=
  match (if jobid = -1 then s.lastJob else s.getJob jobid) with
  | none => s.sendLine socket s!"The job {jobid} cannot be stated.\n"
  | some p => s.send socket (.state p.state)

/-- The states in which `s_send_output` knows of an output. -/
def hasOutput (p : Job) : Bool :=
  p.state = .running ∨ p.state = .finished ∨ p.state = .skipped ∨ p.state = .pause ∨
    p.state = .abnormal

/-- `s_send_output`: a paused job is thawed so that a signal can reach it. -/
def sSendOutput (socket jobid : ℤ) : Except Fatal Spool :=
  if s.noJobs jobid then .ok (s.send socket (.line "No jobs.\n"))
  else do
    match ← s.currentJob jobid with
    | none =>
      .ok (s.sendLine socket
        (if jobid = -1 then "The last job has not finished or is not running.\n"
         else s!"[s_send_output] Job {jobid} not finished or not running.\n"))
    | some p =>
      if jobid ≠ -1 ∧ hasOutput p = false then
        .ok (s.sendLine socket s!"[s_send_output] Job {jobid} not finished or not running.\n")
      else
        let s := if jobid ≠ -1 ∧ p.state = .pause then s.cgroupsThawJob p else s
        if p.state = .skipped then
          .ok (s.sendLine socket (if jobid = -1 then "The last job was skipped due to a dependency.\n"
            else s!"Job {jobid} was skipped due to a dependency.\n"))
        else
          .ok (s.send socket (.output p.storeOutput p.pid
            (if p.storeOutput then p.outputFilename else none)))

/-- `s_find_pid`. -/
def sFindPid (target : ℤ) (deep : Bool) : ℤ :=
  if target ≤ 0 then -1
  else
    match s.activeJobs.find? fun p => (p.state = .running ∨ p.state = .pause) ∧ 0 < p.pid ∧
        (p.pid = target ∨ (deep ∧ e.descendant p.pid target)) with
    | some p => p.jobid
    | none => -1

/-- `s_send_last_id`. -/
def sSendLastId (socket : ℤ) : Spool := s.send socket (.lastId (s.jobids - 1))

end Spool

end TaskSpooler
