import TaskSpooler.Jobs.Requests

/-!
# The requests about users (`user.c`, `server_user.c`)

The user file, suspending and resuming a user, the lock of the server, and the requests that hold,
continue and requeue a job.
-/

namespace TaskSpooler

/-- `%04d`. -/
def fmtUid (n : ℕ) : String := "".pushn '0' (4 - (toString n).length) ++ toString n

/-- `%-20s`. -/
def fmtName (name : String) : String := name.pushn ' ' (20 - name.length)

/-- `enum ListFormat`. -/
inductive ListFormat
  | default
  | json
  | tab
  deriving DecidableEq, Repr

namespace Spool

variable (e : Env) (s : Spool)

/-! ### The user file -/

/-- One line of the user file; at most `USER_MAX = 100` users are kept. -/
def readUserLine (l : UserLine) : Spool :=
  match l with
  | .slots n => if 0 < n then s.sSetMaxSlots 0 n else s
  | .user name uid maxSlots =>
    match s.findUserByUid uid with
    | some u => s.modUser (some u) fun u => { u with maxSlots := maxSlots }
    | none =>
      if 100 ≤ s.nusers then s
      else
        s.onQueue fun q =>
          { q with
            users := Function.update q.users q.nusers { name := name, uid := uid, maxSlots := maxSlots }
            nusers := q.nusers + 1 }

/-- `read_user_file`. -/
def readUserFile : Spool := e.userFile.foldl readUserLine s

/-- The complaint of `s_refresh_users` about one of the users it had. -/
def refreshComplaint (old new : Spool) (i : ℕ) : Option String :=
  let uid := (old.users i).uid
  match new.findUserByUid uid with
  | none => some s!"Error: refresh would remove uid={uid}, rejected\n"
  | some u =>
    if (new.users u).maxSlots ≠ (old.users i).maxSlots then
      some s!"Error: slots for uid={uid} changed {(old.users i).maxSlots}->{(new.users u).maxSlots}, rejected\n"
    else none

/-- `s_refresh_users`. -/
def sRefreshUsers (socket : ℤ) : Except Fatal Spool :=
  let new := s.readUserFile e
  match (List.range s.nusers).findSome? (refreshComplaint s new) with
  | some text =>
    let back := new.onQueue fun q =>
      { q with
        nusers := s.nusers
        users := fun i => if i < s.nusers then { q.users i with maxSlots := (s.users i).maxSlots }
                          else q.users i }
    .ok (back.sendLine socket text)
  | none => (new.send socket (.line "refresh the list success!\n")).sUpdateSlotsUsage e

/-! ### Status lines -/

/-- `s_user_status`. -/
def sUserStatus (socket : ℤ) (u : ℕ) : Spool := s.send socket (.userStatus (s.users u))

/-- `s_user_status_all`. -/
def sUserStatusAll (socket : ℤ) : Spool :=
  ((List.range s.nusers).foldl (fun s i =>
      if (s.users i).maxSlots = 0 ∧ (s.users i).busy = 0 then s else s.sUserStatus socket i)
    (s.send socket (.line "-- Users ----------- \n"))).send socket
      (.line s!"Service at UID:{e.serverUid}\n")

/-- The jobs that `s_list` shows in the default format; without a user, all of them. -/
def listFor (user : Option ℕ) : Reply :=
  let shown := fun p : Job => user = none ∨ p.user = user ∨ user = some 0
  .listing (s.activeJobs.filter fun p => p.state ≠ .holdingClient ∧ shown p)
    (s.finishedJobs.filter shown)

/-- The answer of `s_list` about one job. -/
def listOne (jobid : ℤ) : Reply :=
  match s.findjob jobid with
  | some p => .listing ([p].filter fun p => p.state ≠ .holdingClient) []
  | none => .listing [] (s.findFinishedJob jobid).toList

/-- The jobs that `s_list` goes through for all users. -/
def listedJobs : List Job := s.activeJobs.filter (fun p => p.state ≠ .holdingClient) ++ s.finishedJobs

/-- `s_list`.  `plainprint_result` measures the name behind `USER(p->user)`; the macro takes an index
and gets an address, so that is a null pointer. -/
def sList (socket : ℤ) (user : Option ℕ) (format : ListFormat) (jobid : ℤ) :
    Except Fatal Spool := do
  let s ← s.sUpdateSlotsUsage e
  match format with
  | .default =>
    let s := s.send socket (s.listFor user)
    match user with
    | none => .ok (s.sUserStatusAll e socket)
    | some u => .ok (if u = 0 then s.sUserStatusAll e socket else s.sUserStatus socket u)
  | .json => .ok (s.send socket (if 0 < jobid then s.listOne jobid else s.listFor none))
  | .tab =>
    if s.listedJobs.any fun p => p.state = .finished then .error .nullPointer
    else .ok (s.send socket (s.listFor none))

/-! ### Suspending and resuming -/

/-- `s_resume_user`. -/
def sResumeUser (socket : ℤ) (u : ℕ) : Spool :=
  let s := s.modUser (some u) fun u => { u with maxSlots := u.maxSlots.natAbs, locked := false }
  let s := (s.activeJobs.map Job.jobid).foldl (fun s jobid =>
      match s.findjob jobid with
      | none => s
      | some p => if p.user = some u ∧ p.state = .pause ∧ p.pid ≠ 0 then s.configRunning e p else s) s
  s.sendLine socket s!"Resume user: [{fmtUid (s.users u).uid}] {fmtName (s.users u).name}\n"

/-- `s_suspend_user` for one job. -/
def suspendJob (socket : ℤ) (u : ℕ) (jobid : ℤ) : Spool :=
  match s.findjob jobid with
  | none => s
  | some p =>
    if p.user = some u ∧ p.state = .running then
      if p.pid ≠ 0 then (s.safePauseJob e p).modJob jobid (Job.setState .pause)
      else
        let label := p.label.getD "(...)"
        s.sendLine socket s!"Error in stop {(s.users u).name} [{jobid}] {label} | {p.command}\n"
    else s

/-- `s_suspend_user`. -/
def sSuspendUser (socket : ℤ) (u : ℕ) : Except Fatal Spool :=
  let s := s.modUser (some u) fun u => { u with maxSlots := -(u.maxSlots.natAbs : ℤ), locked := true }
  let s := (s.activeJobs.map Job.jobid).foldl (fun s jobid => s.suspendJob e socket u jobid) s
  (s.sendLine socket
    s!"Suspend user: [{fmtUid (s.users u).uid}] {fmtName (s.users u).name}\n").sUpdateSlotsUsage e

/-- `s_resume_user_all`: all users but the first one, which is root. -/
def sResumeUserAll (socket : ℤ) : Spool :=
  (List.range' 1 (s.nusers - 1)).foldl (fun s u => s.sResumeUser e socket u) s

/-- `s_suspend_user_all`. -/
def sSuspendUserAll (socket : ℤ) : Except Fatal Spool :=
  (List.range' 1 (s.nusers - 1)).foldlM (fun s u => s.sSuspendUser e socket u) s

/-- The user that `SUSPEND_USER` and `RESUME_USER` are about: root names one by his uid, or all
with `0`. -/
inductive Target
  | all
  | one (u : ℕ)
  /-- No user has that uid: the null pointer is used. -/
  | missing

/-- The users that a request of `user` about the uid `jobid` is for. -/
def target (user : ℕ) (jobid : ℤ) : Target :=
  if user ≠ 0 then .one user
  else if jobid = 0 then .all
  else
    -- `(uid_t)m.jobid`
    match s.findUserByUid (jobid % 2 ^ 32).toNat with
    | some u => .one u
    | none => .missing

/-- The request `SUSPEND_USER`. -/
def suspendUser (socket : ℤ) (user : ℕ) (jobid : ℤ) : Except Fatal Spool :=
  match s.target user jobid with
  | .all => do .ok ((← s.sSuspendUserAll e socket).sUserStatusAll e socket)
  | .one u => do .ok ((← s.sSuspendUser e socket u).sUserStatus socket u)
  | .missing => .error .nullPointer

/-- The request `RESUME_USER`. -/
def resumeUser (socket : ℤ) (user : ℕ) (jobid : ℤ) : Except Fatal Spool :=
  match s.target user jobid with
  | .all => .ok ((s.sResumeUserAll e socket).sUserStatusAll e socket)
  | .one u => .ok ((s.sResumeUser e socket u).sUserStatus socket u)
  | .missing => .error .nullPointer

/-! ### The lock of the server -/

/-- The lock that `client_read` finds: an old one is dropped. -/
def timeoutLock : Spool :=
  match s.userLocker with
  | none => s
  | some u =>
    if (if (s.users u).uid = 0 then 86400 else 30) < e.now - s.lockerTime then
      { s with userLocker := none }
    else s

/-- `s_check_locker`: the server is locked by another user. -/
def sCheckLocker (u : ℕ) : Spool × Bool :=
  let s := if s.userLocker.isSome ∧ 30 < e.now - s.lockerTime then { s with userLocker := none } else s
  (s, s.userLocker ≠ none ∧ s.userLocker ≠ some u)

/-- `s_lock_server`. -/
def sLockServer (socket : ℤ) (u : ℕ) : Except Fatal Spool :=
  let name := (s.users u).name
  let uid := (s.users u).uid
  if uid = 0 then do
    let s ← s.sUpdateSlotsUsage e
    .ok ({ s with userLocker := some 0, lockerTime := e.now }.sendLine socket
      "lock the task-spooler server by Root\n")
  else
    match s.userLocker with
    | none => .ok ({ s with userLocker := some u, lockerTime := e.now }.sendLine socket
        s!"lock the task-spooler server by [{uid}] `{name}`\n")
    | some l =>
      let lname := (s.users l).name
      let luid := (s.users l).uid
      .ok (s.sendLine socket (if l = u then
          s!"The task-spooler server has already been locked by [{luid}] `{lname}`\n"
        else s!"Error: the task-spooler server has already been locked by other user [{luid}] `{lname}`\n"))

/-- `s_unlock_server`. -/
def sUnlockServer (socket : ℤ) (u : ℕ) : Spool :=
  let name := (s.users u).name
  let uid := (s.users u).uid
  match s.userLocker with
  | none => s.sendLine socket "The task-spooler server has already been unlocked\n"
  | some l =>
    if uid = 0 then
      { s with userLocker := none }.sendLine socket "Unlock the task-spooler server by Root\n"
    else if l = u then
      { s with userLocker := none }.sendLine socket
        s!"Unlock the task-spooler server by [{uid}] `{name}`\n"
    else
      s.sendLine socket
        s!"Error: the task-spooler server locked by other user cannot be unlocked by [{uid}] `{name}`\n"

/-! ### Holding and continuing a job -/

/-- The user may act on the job: he owns it, or is root. -/
def ownerOrRoot (u : ℕ) (p : Job) : Bool := p.user = some u ∨ (s.users u).uid = 0

/-- `s_lock_queue` of a queued job. -/
def sLockQueue (p : Job) : Spool :=
  ((s.onQueue fun q => q.uncountQueued p.user).modJob p.jobid
    (Job.setState .locked)).updateDb p.jobid (Job.setState .locked)

/-- `s_unlock_queue` of a locked job. -/
def sUnlockQueue (p : Job) : Spool :=
  ((s.onQueue fun q => q.countQueued p.user).modJob p.jobid
    (Job.setState .queued)).updateDb p.jobid (Job.setState .queued)

/-- Write the wall time of a job and its column. -/
def setWallTime (jobid wallTime : ℤ) : Spool :=
  (s.modJob jobid (Job.setWallTime wallTime)).updateDb jobid (Job.setWallTime wallTime)

/-- `s_hold_job`. -/
def sHoldJob (socket jobid : ℤ) (u : ℕ) : Spool :=
  if (s.users u).maxSlots < 0 then
    s.sendLine socket s!"Error: The owner `{(s.users u).name}` is locked\n"
  else
    match s.findjob jobid with
    | none => s.sendLine socket s!"Error: cannot find job [{jobid}]\n"
    | some p =>
      if p.state = .queued then
        if s.ownerOrRoot u p then
          (s.sLockQueue p).sendLine socket s!"The queued job [{jobid}] is hold on.\n"
        else s.sendLine socket s!"Cannot hold on the queued job [{jobid}].\n"
      else if p.state = .locked then
        s.sendLine socket s!"The queued job [{jobid}] is already in locked.\n"
      else if p.state = .pause then
        if p.wallTime < 0 then
          (s.setWallTime jobid p.wallTime.natAbs).sendLine socket
            s!"To pause job [{jobid}] successfully (was timeout wait)!\n"
        else s.sendLine socket s!"The job [{jobid}] is already in PAUSE.\n"
      else if p.pid ≠ 0 ∧ s.ownerOrRoot u p then
        ((s.safePauseJob e p).modJob jobid (Job.setState .pause)).sendLine socket
          s!"To pause job [{jobid}] successfully!\n"
      else s.sendLine socket s!"Error: cannot pause job [{jobid}]\n"

/-- The part of `s_cont_job` for a job that has been started before. -/
def contStarted (socket : ℤ) (p : Job) (u : ℕ) : Spool :=
  let s := s.modJob p.jobid (Job.setWallTime p.wallTime.natAbs)
  if p.state = .running then
    if s.isSleep e p = 0 then s.sendLine socket s!"job [{p.jobid}] is already in RUNNING.\n"
    else (s.cgroupsThawJob p).sendLine socket s!"job [{p.jobid}] is continued.\n"
  else if p.pid ≠ 0 ∧ s.ownerOrRoot u p then
    if (s.users u).busy + p.numSlots ≤ (s.users u).maxSlots ∧
        s.busySlots + p.numSlots ≤ s.maxSlots then
      -- `config_running` refuses a job that is neither paused nor queued
      (if p.state = .pause then s.configRunning e (p.setWallTime p.wallTime.natAbs) else s).sendLine
        socket s!"To rerun job [{p.jobid}] successfully!\n"
    else
      (s.setWallTime p.jobid (-(p.wallTime.natAbs : ℤ))).sendLine socket
        s!"Not enough slots for job [{p.jobid}], set as time-out wait\n"
  else s.sendLine socket s!"Error: cannot rerun job [{p.jobid}]\n"

/-- `s_cont_job`. -/
def sContJob (socket jobid : ℤ) (u : ℕ) : Except Fatal Spool := do
  let s ← s.sUpdateSlotsUsage e
  if (s.users u).maxSlots < 0 then
    .ok (s.sendLine socket s!"Error: The owner `{(s.users u).name}` is locked\n")
  else
    match s.findjob jobid with
    | none => .ok (s.sendLine socket s!"Error: cannot find job [{jobid}]\n")
    | some p =>
      if p.state = .locked then
        if s.ownerOrRoot u p then
          .ok ((s.sUnlockQueue p).sendLine socket s!"The locked job [{jobid}] is in queue.\n")
        else .ok (s.sendLine socket s!"Cannot unlock the locked job [{jobid}].\n")
      else if p.state = .queued then
        .ok (s.sendLine socket s!"The job [{jobid}] is already in queue.\n")
      else .ok (s.contStarted e socket p u)

/-- `s_requeue_job`. -/
def sRequeueJob (socket jobid : ℤ) (u : ℕ) : Spool :=
  match s.findjob jobid with
  | none => s.sendLine socket s!"Error: cannot find job [{jobid}]\n"
  | some p =>
    if s.ownerOrRoot u p = false then
      s.sendLine socket s!"Error: job [{jobid}] belongs to another user\n"
    else if p.state ≠ .running ∧ p.state ≠ .pause then
      s.sendLine socket s!"Error: job [{jobid}] is not running or paused\n"
    else
      let s := s.sRelegateJob e p
      let s := s.onQueue fun q =>
        { q with
          activeJobs := Keyed.remove Job.jobid jobid q.activeJobs ++ (q.findjob jobid).toList }
      (s.movebottomDb jobid).sendLine socket s!"Job [{jobid}] requeued\n"

end Spool

end TaskSpooler
