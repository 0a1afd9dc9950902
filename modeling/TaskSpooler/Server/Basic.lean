import TaskSpooler.Jobs.Restore

/-!
# The server loop (`server.c`)

The table of connections and everything `client_read` does with it.  The table is the array
`client_cs`, with its entries behind `nconnections`: they keep what they held last, and the code
does look at them.  One step of the server is one of the things its loop can do: accept a
connection, handle a message or the end of a connection, the periodic checks, the scheduling at
the end of a round, and a restart of the process.
-/

namespace TaskSpooler

/-- `struct Client_conn`.  A connection without a user is never counted. -/
structure ClientConn where
  socket : ℤ := 0
  hasjob : Bool := false
  jobid : ℤ := 0
  user : ℕ := 0
  deriving DecidableEq, Repr

/-- The requests that concern the jobs and users only. -/
inductive Request
  | refreshUsers
  | lockServer
  | unlockServer
  | holdJob (jobid : ℤ)
  | contJob (jobid : ℤ)
  | requeueJob (jobid : ℤ)
  | suspendUser (jobid : ℤ)
  | resumeUser (jobid : ℤ)
  | list (format : ListFormat) (jobid : ℤ)
  | listAll (format : ListFormat) (jobid : ℤ)
  | info (jobid : ℤ)
  | lastId
  | getLabel (jobid : ℤ)
  | addWtime (jobid wallTime : ℤ)
  | getCmd (jobid : ℤ)
  | clearFinished
  | askOutput (jobid : ℤ)
  | waitjob (jobid : ℤ)
  | waitRunningJob (jobid : ℤ)
  | countRunning
  | urgent (jobid : ℤ)
  | setMaxSlots (n : ℤ)
  | getMaxSlots
  | swapJobs (jobid₁ jobid₂ : ℤ)
  | getState (jobid : ℤ)
  | getEnv (var : String)
  | setEnv (name value : String)
  | unsetEnv (var : String)
  | findPid (pid : ℤ) (deep : Bool)
  | bindOff
  | bindOn
  | getVersion
  | getLogdir
  | setLogdir (path : String)

/-- The server closes the connection after the answer. -/
def Request.closes : Request → Bool
  | lastId | getLabel _ | getCmd _ | clearFinished | askOutput _ | waitjob _ | waitRunningJob _
  | countRunning | getMaxSlots | getState _ | getEnv _ | setEnv .. | unsetEnv _ | findPid ..
  | getVersion | getLogdir => false
  | _ => true

/-- The messages of a client. -/
inductive Msg
  | newjob (m : NewJob)
  | runjobOk (ofilename : Option String) (pid : ℤ)
  | endjob (r : Result)
  | reconnect (jobid pid : ℤ)
  | removejob (jobid : ℤ)
  | killAll (format : ListFormat) (jobid : ℤ)
  | killServer
  | request (r : Request)
  /-- A message type the server does not know. -/
  | unknown

namespace Spool

variable (e : Env) (s : Spool)

/-- `s_get_job_user`. -/
def sGetJobUser (jobid : ℤ) : Option ℕ := (s.getJob jobid).bind Job.user

/-- `if (jobsort_flag) s_sort_jobs();`. -/
def sortIfAsked : Spool := if s.jobsortFlag then s.sSortJobs else s

/-- What `client_read` does for a request of a user, before it closes the connection. -/
def answer (socket : ℤ) (user : ℕ) : Request → Except Fatal Spool
  | .refreshUsers => if user = 0 then s.sRefreshUsers e socket else .ok s
  | .lockServer => s.sLockServer e socket user
  | .unlockServer => .ok (s.sUnlockServer socket user)
  | .holdJob jobid => .ok (s.sHoldJob e socket jobid user)
  | .contJob jobid => s.sContJob e socket jobid user
  | .requeueJob jobid => .ok (s.sRequeueJob e socket jobid user)
  | .suspendUser jobid => s.suspendUser e socket user jobid
  | .resumeUser jobid => s.resumeUser e socket user jobid
  | .list format jobid => s.sList e socket (some user) format jobid
  | .listAll format jobid => s.sList e socket none format jobid
  | .info jobid => s.sJobInfo socket jobid
  | .lastId => .ok (s.sSendLastId socket)
  | .getLabel jobid => .ok (s.sGetLabel socket jobid)
  | .addWtime jobid wallTime => .ok (if user = 0 then s.sAddWtime socket jobid wallTime else s)
  | .getCmd jobid => .ok (s.sSendCmd socket jobid)
  | .clearFinished => .ok (s.sClearFinished user)
  | .askOutput jobid => s.sSendOutput socket jobid
  | .waitjob jobid => .ok (s.sWaitJob socket jobid)
  | .waitRunningJob jobid => s.sWaitRunningJob socket jobid
  | .countRunning => .ok (s.sCountRunningJobs socket user)
  | .urgent jobid =>
    .ok (if user = 0 ∨ s.sGetJobUser jobid = some user then s.sMoveUrgent socket jobid
         else s).sortIfAsked
  | .setMaxSlots n => .ok (if user = 0 then s.sSetMaxSlots socket n else s)
  | .getMaxSlots => .ok (s.sGetMaxSlots socket)
  | .swapJobs jobid₁ jobid₂ =>
    .ok (if user = 0 ∨ (s.sGetJobUser jobid₁ = some user ∧ s.sGetJobUser jobid₂ = some user) then
           s.sSwapJobs socket jobid₁ jobid₂
         else s).sortIfAsked
  | .getState jobid => .ok (s.sSendState socket jobid)
  | .getEnv var => .ok (s.send socket (.env ((s.environment.lookup var).getD "")))
  | .setEnv name value =>
    .ok { s with environment := (name, value) :: s.environment.filter fun v => v.1 ≠ name }
  | .unsetEnv var => .ok { s with environment := s.environment.filter fun v => v.1 ≠ var }
  | .findPid pid deep => .ok (s.send socket (.findPidResult (s.sFindPid e pid deep)))
  | .bindOff => .ok (if user = 0 ∧ e.cpuBind then { s with cpu := { s.cpu with disabled := true } }
                     else s)
  | .bindOn => .ok (if user = 0 ∧ e.cpuBind then { s with cpu := { s.cpu with disabled := false } }
                    else s)
  | .getVersion => .ok (s.send socket .version)
  | .getLogdir => .ok (s.send socket (.logdir s.logdir))
  | .setLogdir path => .ok { s with logdir := path }

end Spool

/-- The state of the server process. -/
structure Server extends Spool where
  clientCs : ℕ → ClientConn := fun _ => {}
  nconnections : ℤ := 0
  maxDescriptors : ℕ := 1000
  keepLoop : Bool := true

namespace Server

variable (e : Env) (s : Server)

/-! ### The table of connections -/

/-- Change the jobs and users and nothing else. -/
def onSpool (f : Spool → Spool) : Server := { s with toSpool := f s.toSpool }

/-- Change the jobs and users by something that can fail. -/
def onSpoolM (f : Spool → Except Fatal Spool) : Except Fatal Server :=
  (f s.toSpool).map fun sp => { s with toSpool := sp }

/-- Write to an entry of `client_cs`. -/
def modConn (i : ℕ) (f : ClientConn → ClientConn) : Server :=
  { s with clientCs := Function.update s.clientCs i (f (s.clientCs i)) }

/-- The loop of `remove_connection`: the entries behind `index` move up by one. -/
def shift (index : ℕ) : Server :=
  { s with
    clientCs := fun j => if index ≤ j ∧ (j : ℤ) < s.nconnections - 1 then s.clientCs (j + 1)
                         else s.clientCs j
    nconnections := s.nconnections - 1 }

/-- `remove_connection`. -/
def removeConnection (index : ℕ) : Except Fatal Server := do
  let c := s.clientCs index
  let s ← if c.hasjob then s.onSpoolM fun sp => sp.sDeleteJob c.jobid else .ok s
  .ok (s.shift index)

/-- The result of a job whose client is gone. -/
def goneResult : Result := { errorlevel := -1, diedBySignal := true, signal := 9 }

/-- What `clean_after_client_disappeared` does about the job of a connection. -/
def cleanJob (sp : Spool) (jobid : ℤ) : Except Fatal Spool :=
  match sp.findjob jobid with
  | none => .ok sp
  | some p =>
    if p.state = .running ∨ p.state = .pause then do
      let sp ← sp.jobFinished e goneResult jobid
      sp.checkNotifyList jobid
    else sp.sDeleteJob jobid

/-- `clean_after_client_disappeared`. -/
def cleanAfterClientDisappeared (socket : ℤ) (index : ℕ) : Except Fatal Server := do
  let c := s.clientCs index
  let s ← if c.hasjob then do
      let s ← s.onSpoolM fun sp => cleanJob e sp c.jobid
      .ok (s.modConn index fun c => { c with hasjob := false })
    else .ok (s.onSpool fun sp => sp.sRemoveNotification socket)
  s.removeConnection index

/-- `job_is_running`. -/
def jobIsRunning (jobid : ℤ) : Bool :=
  match s.findjob jobid with
  | some p => p.state = .running
  | none => false

/-- The loop of `s_remove_all_queues` from the connection `i` on; every round moves on or removes
a connection. -/
def removeQueuesLoop (user : ℕ) : ℕ → ℕ → Server → Except Fatal Server
  | 0, _, s => .ok s
  | fuel + 1, i, s =>
    if (i : ℤ) < s.nconnections then
      if (user = 0 ∨ (s.clientCs i).user = user) ∧ s.jobIsRunning (s.clientCs i).jobid = false then do
        let s ← s.cleanAfterClientDisappeared e (s.clientCs i).socket i
        removeQueuesLoop user fuel i s
      else removeQueuesLoop user fuel (i + 1) s
    else .ok s

/-- `s_remove_all_queues`. -/
def sRemoveAllQueues (user : ℕ) : Except Fatal Server :=
  removeQueuesLoop e user s.nconnections.toNat 0 s

/-- The loop of `REMOVEJOB` over the connections: those of the removed job go. -/
def removeCarriersLoop (jobid : ℤ) : ℕ → ℕ → Server → Server
  | 0, _, s => s
  | fuel + 1, i, s =>
    if (i : ℤ) < s.nconnections then
      if (s.clientCs i).hasjob ∧ (s.clientCs i).jobid = jobid then
        removeCarriersLoop jobid fuel (i + 1)
          ((s.modConn i fun c => { c with hasjob := false }).shift i)
      else removeCarriersLoop jobid fuel (i + 1) s
    else s

/-! ### `client_read` -/

/-- The case `NEWJOB`. -/
def newjob (index : ℕ) (m : NewJob) : Except Fatal Server := do
  let c := s.clientCs index
  let (sp, locked) := s.sCheckLocker e c.user
  let s := { s with toSpool := sp }
  if locked then .ok s
  else do
    let (sp, jobid) ← s.sNewjob e c.socket m c.user
    let s := { s with toSpool := sp }.modConn index fun c => { c with jobid := jobid, hasjob := true }
    if jobid = -1 then
      ((s.onSpool fun sp => sp.send c.socket .newjobNok).modConn index fun c =>
        { c with hasjob := false }).cleanAfterClientDisappeared e c.socket index
    else if (s.findjob jobid).any fun p => p.state = .holdingClient then
      if m.waitEnqueuing then .ok s
      else
        (s.onSpool fun sp => sp.send c.socket .newjobNok).cleanAfterClientDisappeared e c.socket index
    else .ok (s.onSpool fun sp => sp.send c.socket (.newjobOk jobid))

/-- Take the job away from the other connections that carry it. -/
def clearCarriers (index : ℕ) (jobid : ℤ) : Server :=
  { s with
    clientCs := fun j =>
      if (j : ℤ) < s.nconnections ∧ j ≠ index ∧ (s.clientCs j).jobid = jobid then
        { s.clientCs j with hasjob := false }
      else s.clientCs j }

/-- The states of a job that a client may connect to again. -/
def mayReconnect (p : Job) : Bool :=
  p.state = .queued ∨ p.state = .delink ∨ p.state = .running ∨ p.state = .locked ∨ p.state = .wait

/-- The case `RECONNECT`. -/
def reconnect (index : ℕ) (jobid pid : ℤ) : Except Fatal Server :=
  let c := s.clientCs index
  let refuse := .ok (s.onSpool fun sp => sp.send c.socket (.errorInfo ""))
  match s.getJob jobid with
  | none => refuse
  | some p =>
    if p.state = .finished ∨ p.state = .skipped then refuse
    else if mayReconnect p ∧ p.user = some c.user then
      if p.pid ≠ 0 ∧ p.pid ≠ pid ∧ pid ≠ 0 then refuse
      else
        let state := if p.state = .delink then .running else p.state
        let s := (s.clearCarriers index jobid).onSpool fun sp => sp.onQueue fun q =>
          q.modAnyJob jobid (Job.reconnected state c.socket)
        let s := s.modConn index fun c => { c with hasjob := true, jobid := jobid }
        let s := s.onSpool fun sp => sp.send c.socket (.reconnectOk jobid)
        if state = .running ∧ p.pid = 0 then s.onSpoolM fun sp => sp.sSendRunjob c.socket jobid
        else .ok s
    else refuse

/-- The case `ENDJOB`. -/
def endjob (index : ℕ) (r : Result) : Except Fatal Server := do
  let c := s.clientCs index
  let s ← s.onSpoolM fun sp => sp.jobFinished e r c.jobid
  let s ← s.onSpoolM fun sp => sp.checkNotifyList c.jobid
  let s := s.onSpool fun sp => sp.send c.socket (.endjobOk c.jobid (sp.getJob c.jobid))
  .ok (s.modConn index fun c => { c with hasjob := false })

/-- The case `REMOVEJOB`. -/
def removejob (index : ℕ) (jobid : ℤ) : Except Fatal Server := do
  let c := s.clientCs index
  let (sp, removed) ← s.sRemoveJob e c.socket jobid c.user
  let s := { s with toSpool := sp }
  match removed with
  | none => .ok s
  | some jobid => .ok (removeCarriersLoop jobid s.nconnections.toNat 0 s)

/-- The case `KILL_ALL`, which falls through to the case `LIST`. -/
def killAll (index : ℕ) (format : ListFormat) (jobid : ℤ) : Except Fatal Server := do
  let c := s.clientCs index
  let s := s.onSpool fun sp => sp.sKillAllJobs c.socket c.user
  let s ← s.sRemoveAllQueues e c.user
  let s ← s.onSpoolM fun sp => sp.sList e c.socket (some c.user) format jobid
  s.removeConnection index

/-- A request that touches no other connection. -/
def handleRequest (index : ℕ) (r : Request) : Except Fatal Server := do
  let c := s.clientCs index
  let s ← s.onSpoolM fun sp => sp.answer e c.socket c.user r
  if r.closes then s.removeConnection index else .ok s

/-- The cases of `client_read`, and the closing of the connection in `server_loop` after an unknown
message. -/
def handle (index : ℕ) : Msg → Except Fatal Server
  | .newjob m => s.newjob e index m
  | .runjobOk ofilename pid =>
    if 0 < pid then
      s.onSpoolM fun sp => sp.sProcessRunjobOk e (s.clientCs index).jobid ofilename pid
    else .ok s
  | .endjob r => s.endjob e index r
  | .reconnect jobid pid => s.reconnect index jobid pid
  | .removejob jobid => s.removejob e index jobid
  | .killAll format jobid => s.killAll e index format jobid
  | .killServer => .ok (if (s.clientCs index).user = 0 then { s with keepLoop := false } else s)
  | .request r => s.handleRequest e index r
  | .unknown => s.cleanAfterClientDisappeared e (s.clientCs index).socket index

/-- `client_read` after a message has been received. -/
def clientRead (index : ℕ) (m : Msg) : Except Fatal Server :=
  (s.onSpool fun sp => sp.timeoutLock e).handle e index m

/-! ### The loop -/

/-- What the server loop can do next. -/
inductive Input
  | accept (socket : ℤ) (uid : ℕ)
  | message (index : ℕ) (m : Msg)
  /-- `recv_msg` finds the end of the connection. -/
  | disconnect (index : ℕ)
  | health
  | cleanup
  /-- The end of a round of the loop. -/
  | schedule
  /-- A new server process. -/
  | restart

/-- The entry of a new connection, behind those in the table; `jobid` is what it held before. -/
def enter (socket : ℤ) (uid : ℕ) : Server :=
  let n := s.nconnections.toNat
  let s' := s.modConn n fun c => { c with hasjob := false, socket := socket }
  match s.findUserByUid uid with
  | none => s'.onSpool fun sp =>
      sp.send socket (.errorInfo s!"Unauthorized connection from UID: {uid}\n")
  | some u => { s'.modConn n fun c => { c with user := u } with nconnections := s.nconnections + 1 }

/-- Accept a connection.  Where two places remove one entry each for the last connection,
`nconnections` is `-1`, and the entry is in front of the table. -/
def accept (socket : ℤ) (uid : ℕ) : Except Fatal Server :=
  if s.nconnections < 0 then .error .outOfBounds else .ok (s.enter socket uid)

theorem accept_spec {s s' : Server} {socket : ℤ} {uid : ℕ} (h : s.accept socket uid = .ok s') :
    0 ≤ s.nconnections ∧ s' = s.enter socket uid := by
  rw [accept] at h
  split_ifs at h with hneg
  cases h
  exact ⟨Int.not_lt.1 hneg, rfl⟩

/-- One step of the server. -/
def step : Input → Except Fatal Server
  | .accept socket uid => s.accept socket uid
  | .message index m => s.clientRead e index m
  | .disconnect index => s.cleanAfterClientDisappeared e (s.clientCs index).socket index
  | .health => .ok (s.onSpool fun sp => sp.sCheckRunningHealth e)
  | .cleanup => s.onSpoolM fun sp => sp.sCleanupOrphanQueued
  | .schedule => do
    let s ← s.onSpoolM fun sp => sp.nextRunJob e
    .ok (s.onSpool fun sp => sp.sCheckHoldon e)
  | .restart => do
    let sp ← s.serverMain e
    .ok { toSpool := sp, maxDescriptors := e.getMaxDescriptors }

/-- The step can be taken in this state: a message comes from a connection in the table, and
`accept` returns a new descriptor while there is room. -/
def Enabled : Input → Prop
  | .accept socket _ => s.nconnections < s.maxDescriptors ∧ 0 < socket ∧
      ∀ i : ℕ, i < s.nconnections → (s.clientCs i).socket ≠ socket
  | .message index _ => index < s.nconnections
  | .disconnect index => index < s.nconnections
  | _ => True

/-- The steps of the server on the machine `C`, each in the world it finds. -/
def Step (C : Config) (s : Server) (l : Env × Input) (s' : Server) : Prop :=
  l.1.toConfig = C ∧ s.Enabled l.2 ∧ s.step l.1 l.2 = .ok s'

end Server

end TaskSpooler
