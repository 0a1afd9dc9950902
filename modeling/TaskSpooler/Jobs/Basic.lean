import TaskSpooler.Lib.Keyed
import TaskSpooler.CpuBind.Cpuset

/-!
# The state of the job server

The globals of the server process, one field each.  Every function of `jobs.c`, `job_ops.c`,
`notify.c`, `server_user.c`, `sqlite.c` and `cgroups.c` is modelled as a function on `Spool`; the
connection table of `server.c` is added on top of it, so that these functions cannot touch it.

* A `struct Job *` in `active_jobs` or `finished_jobs` is given by its job id, a `struct User *`
  by its index in `users_vec`.
* `Env` is what a step finds in the world outside: the clocks, `/proc`, files, the environment
  variables read at that moment.  `Config` is the part of it that never changes.
* The database and the cgroup file system are part of the state; they survive a restart.
* `sent` collects the messages written to sockets.  `events` is a ghost log of what happened to
  the jobs, newest first; no function reads it.
-/

namespace TaskSpooler

open CpuBind

/-! ### Jobs and users -/

/-- `enum Jobstate`. -/
inductive Jobstate
  | queued
  | running
  | abnormal
  | pause
  | finished
  | skipped
  | holdingClient
  | wait
  | delink
  | locked
  deriving DecidableEq, Repr, Inhabited

/-- `struct Result`; the default is `default_result`. -/
structure Result where
  errorlevel : ℤ := 0
  diedBySignal : Bool := false
  signal : ℤ := 0
  userSec : ℤ := 0
  systemSec : ℤ := 0
  realSec : ℤ := 0
  skipped : Bool := false
  deriving DecidableEq, Repr, Inhabited

/-- `struct Procinfo`; the text is kept without its buffer size. -/
structure Procinfo where
  ptr : Option String := none
  enqueueTime : ℤ := 0
  startTime : ℤ := 0
  endTime : ℤ := 0
  pauseTime : ℤ := 0
  pauseDuration : ℤ := 0
  bootTime : ℤ := 0
  deriving DecidableEq, Repr, Inhabited

/-- `struct Job`.  `depend_on_size` and `notify_errorlevel_to_size` are the lengths of the lists,
and `cpu_alloc` is the address of the allocation. -/
structure Job where
  jobid : ℤ
  command : String := ""
  workDir : Option String := none
  commandStrip : ℤ := 0
  state : Jobstate := .queued
  result : Result := {}
  outputFilename : Option String := none
  storeOutput : Bool := false
  pid : ℤ := 0
  user : Option ℕ := none
  wallTime : ℤ := 0
  scheduleTime : ℤ := 0
  shouldKeepFinished : Bool := false
  dependOn : List ℤ := []
  notifyErrorlevelTo : List ℤ := []
  dependencyErrorlevel : ℤ := 0
  label : Option String := none
  info : Procinfo := {}
  numSlots : ℤ := 0
  numAllocated : ℤ := 0
  noCpuBinding : Bool := false
  clientSocket : ℤ := 0
  /-- `0` unchecked, `1` normal. -/
  healthState : ℤ := 0
  cpuAlloc : Option ℕ := none
  deriving DecidableEq, Repr, Inhabited

namespace Job

/-! The writes to the fields of a job that scheduling depends on. -/

/-- `p->state = st`. -/
def setState (st : Jobstate) (p : Job) : Job := { p with state := st }

/-- `p->wall_time = w`. -/
def setWallTime (w : ℤ) (p : Job) : Job := { p with wallTime := w }

/-- `p->pid = pid`. -/
def setPid (pid : ℤ) (p : Job) : Job := { p with pid := pid }

/-- `p->output_filename = f`. -/
def setOutput (f : Option String) (p : Job) : Job := { p with outputFilename := f }

/-- The job holds no slots. -/
def freed (p : Job) : Job := { p with numAllocated := 0 }

/-- The job holds its slots and runs. -/
def started (p : Job) : Job :=
  { p with numAllocated := p.numSlots, state := .running, wallTime := p.wallTime.natAbs }

/-- The job waits for another turn: its wall time is negative. -/
def relegated (p : Job) : Job :=
  { p with wallTime := -(p.wallTime.natAbs : ℤ) - 86400, state := .pause }

/-- A dependency of the job has ended with this error level. -/
def addErrorlevel (n : ℤ) (p : Job) : Job :=
  { p with dependencyErrorlevel := p.dependencyErrorlevel + n.natAbs }

/-- The job will tell its error level to another one. -/
def addNotify (jobid : ℤ) (p : Job) : Job :=
  { p with notifyErrorlevelTo := p.notifyErrorlevelTo ++ [jobid] }

/-- The job has a result. -/
def done (r : Result) (p : Job) : Job :=
  { p with state := if r.skipped then .skipped else .finished, result := r }

/-- The job counts as one that failed. -/
def gone (p : Job) : Job :=
  { p with state := .finished, result := { p.result with errorlevel := -1 } }

/-- A client has connected again. -/
def reconnected (st : Jobstate) (socket : ℤ) (p : Job) : Job :=
  { p with state := st, clientSocket := socket }

end Job

/-- `struct User`. -/
structure User where
  name : String := ""
  uid : ℕ := 0
  maxSlots : ℤ := 0
  busy : ℤ := 0
  jobs : ℤ := 0
  queue : ℤ := 0
  locked : Bool := false
  deriving DecidableEq, Repr, Inhabited

/-! ### What lies outside of the process -/

/-- A row of the table `Jobs` or `Finished`: the job as it was written, and the columns that are
not fields of it. -/
structure Row where
  job : Job
  tsUid : ℤ
  orderId : ℤ
  deriving DecidableEq, Repr

/-- A table whose `PRIMARY KEY` is the job id. -/
structure Table where
  rows : List Row := []
  nodup : (rows.map fun r => r.job.jobid).Nodup := by simp

namespace Table

variable (t : Table)

/-- The row of a job. -/
def find? (jobid : ℤ) : Option Row := t.rows.find? fun r => r.job.jobid = jobid

/-- `UPDATE` of columns that are not the key. -/
def update (jobid : ℤ) (f : Row → Row) : Table where
  rows := t.rows.map fun r =>
    if r.job.jobid = jobid then { f r with job := { (f r).job with jobid := r.job.jobid } } else r
  nodup := by
    rw [List.map_map]
    convert t.nodup using 2
    funext r
    simp only [Function.comp_apply]
    split_ifs <;> rfl

/-- `DELETE`. -/
def delete (jobid : ℤ) : Table where
  rows := t.rows.filter fun r => r.job.jobid ≠ jobid
  nodup := t.nodup.sublist (List.filter_sublist.map _)

/-- `INSERT`: `none` if the key is taken. -/
def insert (r : Row) : Option Table :=
  if h : r.job.jobid ∈ t.rows.map fun r => r.job.jobid then none
  else some
    { rows := t.rows ++ [r]
      nodup := by
        rw [List.map_append, List.map_singleton]
        exact List.nodup_append.2 ⟨t.nodup, List.nodup_singleton _, by
          rintro a ha b hb rfl
          exact h (List.mem_singleton.1 hb ▸ ha)⟩ }

/-- `INSERT OR REPLACE`. -/
def replace (r : Row) : Table := ((t.delete r.job.jobid).insert r).getD t

end Table

/-- A cgroup `TASK_SPOOLER_<jobid>_<pid>`. -/
structure Cgroup where
  jobid : ℤ
  pid : ℤ
  frozen : Bool := false
  cpus : Option (List Char) := none
  mems : Option (List Char) := none
  deriving DecidableEq, Repr

/-- A line of the user file that names a user of the system, or sets `TS_SLOTS`. -/
inductive UserLine
  | slots (n : ℤ)
  | user (name : String) (uid : ℕ) (maxSlots : ℤ)
  deriving DecidableEq, Repr

/-- The constants of one server: the machine, and the C library. -/
structure Config where
  T : Topology
  Q : Qsort
  /-- Built with `TS_CPU_BIND`. -/
  cpuBind : Bool := true

/-- The world as one step of the server finds it. -/
structure Env extends Config where
  /-- `get_monotonic_sec`. -/
  now : ℤ
  /-- `time(NULL)`. -/
  wallClock : ℤ := 0
  /-- `kill(pid, 0)` finds the process. -/
  alive : ℤ → Bool
  /-- The process is stopped, by `/proc/<pid>/stat`; `none` when that cannot be read. -/
  stopped : ℤ → Option Bool := fun _ => some false
  /-- `get_cpu_time_by_pid`. -/
  cpuTime : ℤ → ℤ := fun _ => 0
  /-- `count_child_pids`. -/
  children : ℤ → ℕ := fun _ => 1
  /-- `is_descendant_pid`. -/
  descendant : ℤ → ℤ → Bool := fun _ _ => false
  /-- The real uid of a process, by `/proc/<pid>/status`. -/
  uidOf : ℤ → Option ℕ := fun _ => none
  /-- The target of `/proc/<pid>/fd/1`. -/
  stdoutOf : ℤ → Option String := fun _ => none
  /-- The file exists, is regular and empty. -/
  emptyFile : String → Bool := fun _ => false
  /-- `get_max_wall_time`. -/
  maxWallTime : ℤ := 604800
  /-- `get_max_finished_jobs`. -/
  maxFinished : ℕ := 1000
  /-- The content of a cgroup file after `cg_write` of a text that does not fit its buffer. -/
  overread : List Char → Option (List Char) → Option (List Char) := fun _ old => old
  /-- `getuid`. -/
  serverUid : ℕ := 0
  /-- `TS_SLOTS`, if it is set. -/
  tsSlots : Option ℤ := none
  /-- The bound on open descriptors by the system and by `TS_MAXCONN`. -/
  maxDescriptors : ℕ := 1000
  /-- `TS_SORTJOBS`. -/
  tsSortjobs : ℤ := 0
  /-- `TS_FIRST_JOBID`. -/
  tsFirstJobid : ℤ := 1000
  /-- `--no-bind` and `--no-bind-defrag`. -/
  noCpuBinding : Bool := false
  noBindDefrag : Bool := false
  /-- `TMPDIR`. -/
  tmpdir : String := "/tmp"
  /-- The user file. -/
  userFile : List UserLine := []

/-- `MAXCONN`. -/
def maxconn : ℕ := 1000

/-- `get_max_descriptors`. -/
def Env.getMaxDescriptors (e : Env) : ℕ := min maxconn e.maxDescriptors

/-- The ways in which the server process ends by itself: a call of `error()`, a failed assertion,
a null pointer, a loop that does not end. -/
inductive Fatal
  | busySlotsNegative
  | finishedMissing (jobid : ℤ)
  | deleteMissing (jobid : ℤ)
  | markRunning (jobid : ℤ)
  | runjobOkMissing (jobid : ℤ)
  | runjobOkState (jobid : ℤ)
  | runjobMissing (jobid : ℤ)
  | destroyFinished (jobid : ℤ)
  | noActiveJob
  | newjobReply
  | dependOnSize
  | nullPointer
  | outOfBounds
  | errorInfo
  | useAfterFree
  | hang
  deriving DecidableEq, Repr

/-! ### Requests -/

/-- `m.u.newjob` with the data that follows the message. -/
structure NewJob where
  /-- The id the client asks for, `0` for none. -/
  jobid : ℤ := 0
  numSlots : ℤ := 1
  noCpuBinding : Bool := false
  storeOutput : Bool := false
  shouldKeepFinished : Bool := true
  wallTime : ℤ := 604800
  scheduleTime : ℤ := 0
  dependOnSize : ℕ := 0
  dependOn : List ℤ := []
  command : String := ""
  commandStrip : ℤ := 0
  workDir : Option String := none
  label : Option String := none
  environment : Option String := none
  waitEnqueuing : Bool := false

/-! ### The state -/

/-- `INT_MAX`. -/
def intMax : ℤ := 2 ^ 31 - 1

/-- The globals of `jobs.c` that scheduling works on.  `busy_slots`, `user->busy` and `jobids` are
`int`s that the source adds to without a look at `INT_MAX`; here they are counted without an end.  What
rests on their range is said of runs in which they do not leave it (`SlotsFit`, `RoomForId`). -/
structure Queue where
  /-- `users_vec` has `nusers` entries. -/
  users : ℕ → User := fun _ => {}
  nusers : ℕ := 0
  activeJobs : List Job := []
  finishedJobs : List Job := []
  busySlots : ℤ := 0
  maxSlots : ℤ := 1
  /-- The next job id. -/
  jobids : ℤ := 1000
  lastErrorlevel : ℤ := 0
  lastFinishedJobid : ℤ := 0
  /-- `last_uid` of `next_run_job`. -/
  lastUid : ℕ := 0

namespace Queue

variable (q : Queue)

/-- `findjob`. -/
def findjob (jobid : ℤ) : Option Job := Keyed.lookup Job.jobid jobid q.activeJobs

/-- `find_finished_job`. -/
def findFinishedJob (jobid : ℤ) : Option Job := Keyed.lookup Job.jobid jobid q.finishedJobs

/-- `get_job`. -/
def getJob (jobid : ℤ) : Option Job := (q.findjob jobid).or (q.findFinishedJob jobid)

/-- The last job of `active_jobs`, or of `finished_jobs` if there is no active one. -/
def lastJob : Option Job := q.activeJobs.getLast?.or q.finishedJobs.getLast?

/-- Write to the fields of an active job. -/
def modJob (jobid : ℤ) (f : Job → Job) : Queue :=
  { q with activeJobs := Keyed.modify Job.jobid jobid f q.activeJobs }

/-- Write to the fields of the job that `get_job` finds. -/
def modAnyJob (jobid : ℤ) (f : Job → Job) : Queue :=
  if (q.findjob jobid).isSome then q.modJob jobid f
  else { q with finishedJobs := Keyed.modifyFirst Job.jobid jobid f q.finishedJobs }

/-- Remove a job from `active_jobs`. -/
def dropJob (jobid : ℤ) : Queue :=
  { q with activeJobs := Keyed.remove Job.jobid jobid q.activeJobs }

/-- Write to the fields of a user. -/
def modUser (u : Option ℕ) (f : User → User) : Queue :=
  match u with
  | some u => { q with users := Function.update q.users u (f (q.users u)) }
  | none => q

/-- `find_user_by_uid`. -/
def findUserByUid (uid : ℕ) : Option ℕ :=
  (List.range q.nusers).find? fun i => (q.users i).uid = uid

end Queue

/-- The messages the server writes to a socket. -/
inductive Reply
  | line (text : String)
  | listing (active finished : List Job)
  | userStatus (u : User)
  | info (p : Job)
  | wallTime (jobid wallTime : ℤ)
  | wallTimeOverflow (jobid wallTime : ℤ)
  | wallTimeNegative (jobid wallTime newWallTime : ℤ)
  | runjob (jobid lastErrorlevel : ℤ)
  | newjobOk (jobid : ℤ)
  | newjobNok
  | newjobPidNok
  | removejobOk
  | removejobNok (text : String)
  | waitjobOk (errorlevel : ℤ)
  | countRunning (n : ℕ)
  | pid (pid : ℤ)
  | lastId (jobid : ℤ)
  | state (state : Jobstate)
  | output (storeOutput : Bool) (pid : ℤ) (filename : Option String)
  | urgentOk
  | swapJobsOk
  | maxSlots (n : ℤ)
  | version
  | errorInfo (text : String)
  | reconnectOk (jobid : ℤ)
  | endjobOk (jobid : ℤ) (p : Option Job)
  | findPidResult (jobid : ℤ)
  | env (value : String)
  | logdir (path : String)
  deriving DecidableEq, Repr

/-- The ghost log.  `submit p m q` is the job `p` made of the request `m` in the queue `q`, and
`dispatch p q` a job `p` started by `next_run_job` in the queue `q`. -/
inductive Event
  | submit (p : Job) (m : NewJob) (q : Queue)
  | dispatch (p : Job) (q : Queue)
  | finish (p : Job)
  | removed (p : Job)
  | deleted (p : Job)
  | invalidSlots (usage busy : ℤ)

/-- The state of the server without its connections. -/
structure Spool extends Queue where
  maxJobs : ℤ := 995
  userLocker : Option ℕ := none
  lockerTime : ℤ := 0
  jobsortFlag : Bool := false
  /-- The list of `notify.c`: a socket and the job it waits for. -/
  notifies : List (ℤ × ℤ) := []
  cpu : Bind := { pool := ⟨fun _ => 0, fun _ => 0, fun _ => 0⟩ }
  dbJobs : Table := ⟨[], List.nodup_nil⟩
  dbFinished : Table := ⟨[], List.nodup_nil⟩
  dbJobids : ℤ := 1000
  cgroups : List Cgroup := []
  environment : List (String × String) := []
  logdir : String := "/tmp"
  sent : List (ℤ × Reply) := []
  events : List Event := []

namespace Spool

variable (e : Env) (s : Spool)

/-! ### Writing to the state -/

/-- Change the scheduling data and nothing else. -/
def onQueue (f : Queue → Queue) : Spool := { s with toQueue := f s.toQueue }

/-- Write to the fields of an active job. -/
def modJob (jobid : ℤ) (f : Job → Job) : Spool := s.onQueue fun q => q.modJob jobid f

/-- Write to the fields of a user. -/
def modUser (u : Option ℕ) (f : User → User) : Spool := s.onQueue fun q => q.modUser u f

/-- Write a message to a socket. -/
def send (socket : ℤ) (r : Reply) : Spool := { s with sent := (socket, r) :: s.sent }

/-- `send_list_line` of a text printed to `buff` with `snprintf(buff, 255, ...)`. -/
def sendLine (socket : ℤ) (text : String) : Spool :=
  s.send socket (.line (String.ofList (text.toList.take 254)))

/-- Extend the ghost log. -/
def log (ev : Event) : Spool := { s with events := ev :: s.events }

/-! ### The database (`sqlite.c`) -/

/-- `update_field_int64("Jobs", ...)` and `set_state_DB`: a column of one row. -/
def updateDb (jobid : ℤ) (f : Job → Job) : Spool :=
  { s with dbJobs := s.dbJobs.update jobid fun r => { r with job := f r.job } }

/-- `get_order_id`. -/
def getOrderId (jobid : ℤ) : Option ℤ := (s.dbJobs.find? jobid).map Row.orderId

/-- `max_order_id`, `0` for the empty table. -/
def maxOrderId : ℤ := (s.dbJobs.rows.map Row.orderId).max?.getD 0

/-- `min_order_id`, `0` for the empty table. -/
def minOrderId : ℤ := (s.dbJobs.rows.map Row.orderId).min?.getD 0

/-- The row `edit_DB` writes for a job. -/
def rowOf (p : Job) : Row where
  job := p
  tsUid := match p.user with
    | some u => (s.users u).uid
    | none => -1
  orderId := (s.getOrderId p.jobid).getD (s.maxOrderId + 1)

/-- `insert_DB` into `Jobs`: fails if the key is taken. -/
def insertJobsDb (p : Job) : Spool := { s with dbJobs := (s.dbJobs.insert (s.rowOf p)).getD s.dbJobs }

/-- `insert_or_replace_DB` into `Jobs`. -/
def replaceJobsDb (p : Job) : Spool := { s with dbJobs := s.dbJobs.replace (s.rowOf p) }

/-- `delete_DB(jobid, "Jobs")`. -/
def deleteJobsDb (jobid : ℤ) : Spool := { s with dbJobs := s.dbJobs.delete jobid }

/-- `delete_DB(jobid, "Finished")`. -/
def deleteFinishedDb (jobid : ℤ) : Spool := { s with dbFinished := s.dbFinished.delete jobid }

/-- `insert_DB` into `Finished` and, if it succeeds, `delete_DB` from `Jobs`. -/
def insertFinishedDb (p : Job) : Spool :=
  match s.dbFinished.insert (s.rowOf p) with
  | some t => { s with dbFinished := t }.deleteJobsDb p.jobid
  | none => s

/-- `set_order_id_DB`. -/
def setOrderIdDb (jobid orderId : ℤ) : Spool :=
  { s with dbJobs := s.dbJobs.update jobid fun r => { r with orderId := orderId } }

/-- `movetop_DB`. -/
def movetopDb (jobid : ℤ) : Spool := s.setOrderIdDb jobid (s.minOrderId - 1)

/-- `movebottom_DB`. -/
def movebottomDb (jobid : ℤ) : Spool := s.setOrderIdDb jobid (s.maxOrderId + 1)

/-- `swap_DB`. -/
def swapDb (jobid₀ jobid₁ : ℤ) : Spool :=
  match s.getOrderId jobid₀, s.getOrderId jobid₁ with
  | some id₀, some id₁ => (s.setOrderIdDb jobid₀ id₁).setOrderIdDb jobid₁ id₀
  | _, _ => s

/-- `set_jobids_DB`. -/
def setJobidsDb (n : ℤ) : Spool := { s with dbJobids := n }

/-! ### Control groups (`cgroups.c`) -/

/-- Write to a cgroup, if it exists. -/
def modCgroup (jobid pid : ℤ) (f : Cgroup → Cgroup) : Spool :=
  { s with cgroups := s.cgroups.map fun g => if g.jobid = jobid ∧ g.pid = pid then f g else g }

/-- `cg_mkdir` of the group of a job. -/
def mkdirCgroup (jobid pid : ℤ) : Spool :=
  if s.cgroups.any fun g => g.jobid = jobid ∧ g.pid = pid then s
  else { s with cgroups := s.cgroups ++ [{ jobid := jobid, pid := pid }] }

/-- `cgroups_is_frozen`. -/
def cgroupsIsFrozen (p : Job) : Bool :=
  s.cgroups.any fun g => g.jobid = p.jobid ∧ g.pid = p.pid ∧ g.frozen

/-- `cgroups_freeze_job`. -/
def cgroupsFreezeJob (p : Job) : Spool := s.modCgroup p.jobid p.pid fun g => { g with frozen := true }

/-- `cgroups_thaw_job`. -/
def cgroupsThawJob (p : Job) : Spool := s.modCgroup p.jobid p.pid fun g => { g with frozen := false }

/-- `cgroups_create_job`. -/
def cgroupsCreateJob (p : Job) : Spool := if p.pid = 0 then s else s.mkdirCgroup p.jobid p.pid

/-- `cgroups_clean_job`: refused for a running job. -/
def cgroupsCleanJob (p : Job) : Spool :=
  if p.pid = 0 ∨ p.state = .running then s
  else { s with cgroups := s.cgroups.filter fun g => ¬(g.jobid = p.jobid ∧ g.pid = p.pid) }

/-- `cg_write` of a text to a file: the buffer of 256 bytes is overread by a longer text. -/
def cgWrite (text : List Char) (old : Option (List Char)) : Option (List Char) :=
  if text.length < 256 then some text else e.overread text old

/-- `cgroups_set_cpuset`. -/
def cgroupsSetCpuset (jobid pid : ℤ) (a : CpuAlloc) : Spool :=
  if a.error ∨ a.osCpus = [] then s
  else
    (s.mkdirCgroup jobid pid).modCgroup jobid pid fun g =>
      { g with
        cpus := cgWrite e (formatCpus a.osCpus) g.cpus
        mems := cgWrite e (formatMems e.T a) g.mems }

/-- `is_sleep`: `1` for a frozen or stopped process, `0` for another one, `-1` if unknown. -/
def isSleep (p : Job) : ℤ :=
  if p.pid ≤ 0 then -1
  else if s.cgroupsIsFrozen p then 1
  else
    match e.stopped p.pid with
    | none => -1
    | some stopped => if stopped then 1 else 0

end Spool

/-! ### Times -/

/-- `pinfo_addinfo`: append a text cut to `maxsize` bytes. -/
def Procinfo.addinfo (i : Procinfo) (maxsize : ℕ) (text : String) : Procinfo :=
  { i with ptr := some (i.ptr.getD "" ++ String.ofList (text.toList.take maxsize)) }

/-- `get_work_time_by_job`. -/
def getWorkTimeByJob (e : Env) (p : Job) : ℤ :=
  if p.state = .finished then p.info.endTime - p.info.startTime - p.info.pauseDuration
  else
    (if p.state = .pause then p.info.pauseTime else e.now) -
      (p.info.startTime + p.info.pauseDuration)

end TaskSpooler
