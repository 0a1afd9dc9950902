import TaskSpooler.Jobs.Users

/-!
# Starting the server (`server_main`, `s_read_sqlite`, `cgroups_restore_all_cpu_bind`)

A new server process finds the database and the control groups that the last one left, and starts
with everything else in its initial state.  `serverMain` is the way from there to the first round
of the server loop.
-/

namespace TaskSpooler

open CpuBind

namespace Spool

variable (e : Env) (s : Spool)

/-! ### Reading the tables -/

/-- `copy_with_nullcheck`. -/
def copyWithNullcheck (text : String) : Option String :=
  if text = "(null)" ∨ text = "(..)" then none else some text

/-- A text that was written with `%q`: a null pointer is printed as a word. -/
def storedText (text : Option String) : String := text.getD "(NULL)"

/-- `get_user_by_pid`. -/
def getUserByPid (pid : ℤ) : Option ℕ := if pid ≤ 0 then none else (e.uidOf pid).bind s.findUserByUid

/-- The owner of a restored job: by its process, if it is from `Jobs`, else as it was saved. -/
def restoredUser (r : Row) (jobs : Bool) : Option ℕ :=
  (if jobs then s.getUserByPid e r.job.pid else none).or
    (s.findUserByUid (r.tsUid % 2 ^ 32).toNat)

/-- `read_DB`: the fields that have no column are zero. -/
def readDb (r : Row) (jobs : Bool) : Job :=
  { r.job with
    command := (copyWithNullcheck r.job.command).getD ""
    outputFilename := copyWithNullcheck (storedText r.job.outputFilename)
    user := s.restoredUser e r jobs
    label := copyWithNullcheck (r.job.label.getD "(..)")
    info := { r.job.info with ptr := copyWithNullcheck (storedText r.job.info.ptr) }
    workDir := copyWithNullcheck (storedText r.job.workDir)
    numAllocated := 0
    noCpuBinding := false
    clientSocket := 0
    healthState := 0
    cpuAlloc := none }

/-- The state in which `s_add_job` puts a job back, if it does. -/
def restoredState (j : Job) : Option Jobstate :=
  let alive := 0 < j.pid ∧ e.alive j.pid
  match j.state with
  | .running => if alive then some (if 0 < j.info.pauseTime then .pause else .running) else none
  | .queued => some .queued
  | .locked => some .locked
  | .pause => some .pause
  | _ => none

/-- `s_add_job`. -/
def sAddJob (j : Job) : Spool :=
  match restoredState e j with
  | none => if j.state = .running then s.deleteJobsDb j.jobid else s
  | some st =>
    let info := if j.state = .pause ∧ j.info.pauseTime = 0 then { j.info with pauseTime := e.now }
                else j.info
    let s := if j.state = .queued ∨ j.state = .locked then s.onQueue fun q => q.countQueued j.user
             else s
    s.onQueue fun q =>
      { q with
        activeJobs := q.activeJobs ++ [{ j with state := st, info := info }]
        jobids := if j.jobid < q.jobids then q.jobids else j.jobid + 1 }

/-- The rows in the order in which `read_jobid_DB` lists them. -/
def rowsInOrder (t : Table) : List Row := e.Q.sort (fun a b => a.orderId ≤ b.orderId) t.rows

/-- `s_read_sqlite`. -/
def sReadSqlite : Spool :=
  let s := (rowsInOrder e s.dbJobs).foldl (fun s r => s.sAddJob e (s.readDb e r true)) s
  (rowsInOrder e s.dbFinished).foldl (fun s r => s.onQueue fun q =>
    { q with finishedJobs := q.finishedJobs ++ [s.readDb e r false] }) s

/-! ### Restoring the CPU binding -/

/-- The loop of `cgroups_restore_all_cpu_bind`, for one cgroup. -/
def restoreCgroup (g : Cgroup) : Except Fatal Spool :=
  let remove := { s with cgroups := s.cgroups.filter fun x => ¬(x.jobid = g.jobid ∧ x.pid = g.pid) }
  if g.pid ≤ 0 then .ok s
  else if e.alive g.pid = false then .ok remove
  else
    match s.findjob g.jobid with
    | none => .ok remove
    | some p =>
      if p.state = .running ∨ p.state = .pause then
        match cgReadFile g.cpus with
        | none => .ok s
        | some text =>
          match parseCpuset e.T.maxOsCpu e.T.maxOsCpu text with
          | .error .hang => .error .hang
          | .error .invalid => .ok s
          | .ok cpus =>
            if cpus = [] then .ok s
            else
              let (primary, bitmap) := match cgReadFile g.mems with
                | some text => parseMems e.T text
                | none => (-1, 0)
              let (cpu, a) := s.cpu.cpuBindClaim e.Q e.T p.jobid cpus bitmap primary
              .ok ({ s with cpu := cpu }.modJob p.jobid fun p => { p with cpuAlloc := a.map CpuAlloc.ptr })
      else .ok s

/-- The last loop of `cgroups_restore_all_cpu_bind`, for one job: write the cpuset again. -/
def rewriteCpuset (p : Job) : Spool :=
  if (p.state = .running ∨ p.state = .pause) ∧ 0 < p.pid then
    match p.cpuAlloc with
    | none => s
    | some ptr =>
      match s.cpu.allocs.find? fun a => a.ptr = ptr with
      | none => s
      | some a => s.cgroupsSetCpuset e p.jobid p.pid a
  else s

/-- `cgroups_restore_all_cpu_bind`. -/
def cgroupsRestoreAllCpuBind : Except Fatal Spool := do
  let s ← s.cgroups.foldlM (fun s g => s.restoreCgroup e g) s
  .ok (s.activeJobs.foldl (fun s p => s.rewriteCpuset e p) s)

/-! ### The start -/

/-- The server process before it has read anything; what is on disk stays. -/
def boot : Spool :=
  { users := fun _ => { name := "Root" }
    nusers := 1
    maxJobs := e.getMaxDescriptors - 5
    dbJobs := s.dbJobs
    dbFinished := s.dbFinished
    dbJobids := s.dbJobids
    -- `cgroups_clean_all_finished`
    cgroups := s.cgroups.filter fun g => 0 < g.pid ∧ e.alive g.pid
    logdir := e.tmpdir
    events := s.events }

/-- `set_default_maxslots`. -/
def setDefaultMaxslots : Spool :=
  match e.tsSlots with
  | some n => s.sSetMaxSlots 0 n.natAbs
  | none => s

/-- No user but root may have more slots than there are. -/
def capUsers : Spool := s.onQueue fun q =>
  { q with
    users := fun i =>
      if i < q.nusers ∧ (q.users i).uid ≠ 0 ∧ q.maxSlots < (q.users i).maxSlots then
        { q.users i with maxSlots := q.maxSlots }
      else q.users i }

/-- `cpu_bind_init` and the switches of the command line; there are no more slots than CPUs. -/
def initCpuBind : Spool :=
  if e.cpuBind then
    let s := { s with cpu := { Bind.cpuBindInit e.T with
      disabled := e.noCpuBinding, defragDisabled := e.noBindDefrag } }
    let total := (e.T.nodes.map NodeInfo.numCores).sum
    if e.noCpuBinding = false ∧ (total : ℤ) < s.maxSlots then s.sSetMaxSlots 0 total else s
  else s

/-- `init_jobids_DB`: the ids in `Jobs` are overwritten by those in `Finished`. -/
def initJobidsDb (value : ℤ) : ℤ :=
  let maxId := (s.dbFinished.rows.map fun r => r.job.jobid).max?.getD 0
  if value ≤ 0 then (if 0 < maxId then maxId + 1 else 1000)
  else if value ≤ maxId then maxId + 1 else value

/-- The counter of job ids. -/
def initJobids : Spool :=
  if 0 < s.dbJobids then { s with jobids := s.dbJobids }
  else
    let n := s.initJobidsDb e.tsFirstJobid
    { s with jobids := n, dbJobids := n }

/-- `server_main`, up to the first count of the slots. -/
def reload : Spool :=
  let s := ((s.boot e).readUserFile e).setDefaultMaxslots e
  let s := s.capUsers.initCpuBind e
  ({ s with jobsortFlag := e.tsSortjobs ≠ 0 }.initJobids e).sReadSqlite e

/-- `server_main`, up to the server loop. -/
def serverMain : Except Fatal Spool := do
  let s ← (s.reload e).sUpdateSlotsUsage e
  if e.cpuBind then s.cgroupsRestoreAllCpuBind e else .ok s

end Spool

end TaskSpooler
