import TaskSpooler.Lib.Run
import Mathlib.Data.List.Basic
import Mathlib.Logic.Function.Basic

/-!
# How a server comes up (`ensure_server_up`)

Any number of processes of the program run side by side.  Each of them connects to the socket path,
and may become a server if nobody answers: at once (`--daemon`, `--only-daemon`) or in a child
(`--start-service`).  The path is all they share, besides what they read about each other in `/proc`.
A step is one system call of one process, a new process, or the end of one from outside.

`Boot.daemon_oldest` is the mutual exclusion: a server that has been started with `--daemon` is the
oldest process of root with its executable, so there are no two of them.  `Boot.cut_off` is the price of
removing the path before anything is tested: a second `--daemon` is refused, and the server in charge
cannot be reached any more as long as it lives.  `Boot.stays_up` says when a server keeps the path.

Not modelled are errors of `connect` other than `ENOENT` and `ECONNREFUSED`.
-/

namespace TaskSpooler

/-- How the program has been called. -/
inductive Boot.Mode
  | daemon
  | onlyDaemon
  | startService
  /-- Any other request that needs the server. -/
  | request
  deriving DecidableEq, Repr

/-- Where a process is in `ensure_server_up`, `server_main` and `end_server`: in front of the system
call that the name says. -/
inductive Boot.Place
  /-- `remove(socket_path)`, if the program has been called for a daemon. -/
  | remove
  /-- The first `try_connect`. -/
  | connect
  /-- `unlink(socket_path)` after `ECONNREFUSED`. -/
  | unlink
  /-- The decision who may start a server. -/
  | launch
  /-- `ensure_single_instance`, with the entries of `/proc` that have not been looked at. -/
  | scan (todo : List ℕ)
  /-- `ensure_single_instance_kill`. -/
  | reap (todo : List ℕ)
  /-- `wait_server_up`. -/
  | await (child : ℕ)
  /-- The second `try_connect`. -/
  | again
  /-- `try_check_ownership`. -/
  | stat
  /-- `ensure_server_up` has returned. -/
  | connected
  | bind
  | listen
  /-- `server_loop`. -/
  | serve
  /-- `end_server` behind `close`. -/
  | close
  /-- Nothing is left but `exit`. -/
  | exit
  deriving DecidableEq, Repr

/-- What a process is from its start on. -/
structure Boot.Program where
  /-- The target of `/proc/<pid>/exe`, if it can be read. -/
  exe : Option String
  uid : ℕ
  mode : Boot.Mode
  /-- The user may remove files in the directory of the socket. -/
  mayUnlink : Bool := true
  /-- `should_check_owner`. -/
  checkOwner : Bool := true
  deriving DecidableEq, Repr

/-- A living process. -/
structure Boot.Proc extends Boot.Program where
  /-- The leader of its process group. -/
  group : ℕ
  place : Boot.Place
  deriving DecidableEq, Repr

/-- All processes, and the socket path. -/
structure Boot where
  /-- Who has bound the path, if there is a file. -/
  path : Option ℕ := none
  /-- Processes are numbered in the order in which they start, and no number is used again. -/
  born : ℕ := 0
  proc : ℕ → Option Boot.Proc := fun _ => none

namespace Boot

/-- What can happen. -/
inductive Event
  /-- A process starts, in the group of another one or in its own. -/
  | exec (x : Program) (group : Option ℕ)
  /-- A process makes its next system call. -/
  | move (p : ℕ)
  /-- A process looks at the entry of another one in `/proc`, where `get_process_uptime` says this. -/
  | look (p q : ℕ) (uptime : Option ℕ)
  /-- The server leaves its loop. -/
  | killServer (p : ℕ)
  /-- `SIGTERM`, with the handler of the server. -/
  | sigterm (p : ℕ)
  /-- `SIGKILL`, or a crash. -/
  | sigkill (p : ℕ)
  deriving DecidableEq, Repr

variable (s : Boot)

/-- A process goes on. -/
def go (p : ℕ) (x : Proc) (place : Place) : Boot :=
  { s with proc := Function.update s.proc p (some { x with place := place }) }

/-- `exit`. -/
def exit (p : ℕ) : Boot := { s with proc := Function.update s.proc p none }

/-- A new process. -/
def spawn (x : Proc) : Boot :=
  { s with proc := Function.update s.proc s.born (some x), born := s.born + 1 }

/-- `unlink(path)` by somebody who may do it. -/
def unlinkPath (x : Proc) : Boot := if x.mayUnlink then { s with path := none } else s

/-- The entries of `/proc`, without the own one. -/
def procEntries (p : ℕ) : List ℕ :=
  (List.range s.born).filter fun q => q ≠ p ∧ (s.proc q).isSome

/-- `kill(-pid, SIGKILL)`. -/
def killGroup (leader : ℕ) : Boot :=
  { s with proc := fun q => (s.proc q).filter fun y => y.group ≠ leader }

/-- What `connect` says. -/
inductive Conn
  | success
  | enoent
  | econnrefused
  deriving DecidableEq, Repr

/-- The process waits for connections. -/
def listening (o : ℕ) : Bool := (s.proc o).any fun x => x.place = .serve

/-- `try_connect`. -/
def tryConnect : Conn :=
  match s.path with
  | none => .enoent
  | some o => if s.listening o then .success else .econnrefused

/-- The test of the scans: the same executable, and root. -/
def rival (x y : Proc) : Bool := x.exe.isSome ∧ x.exe = y.exe ∧ y.uid = 0

/-- A process of root decides how to start the server. -/
def launchRoot (p : ℕ) (x : Proc) : Boot :=
  match x.mode with
  | .request => s.exit p
  | .daemon => s.go p x (if x.exe.isSome then .scan (s.procEntries p) else .bind)
  | .onlyDaemon => s.go p x (if x.exe.isSome then .reap (s.procEntries p) else .bind)
  | .startService =>
    (s.go p x (.await s.born)).spawn { x with group := s.born, place := .bind }

/-- The next system call of a process; `none` while it waits. -/
def move (p : ℕ) (x : Proc) : Option Boot :=
  match x.place with
  | .remove => some ((s.unlinkPath x).go p x .connect)
  | .connect =>
    some (s.go p x (match s.tryConnect with
      | .success => .stat
      | .enoent => .launch
      | .econnrefused => .unlink))
  | .unlink => some ((s.unlinkPath x).go p x .launch)
  | .launch => some (if x.uid = 0 then s.launchRoot p x else s.go p x .again)
  | .scan todo => if todo.all fun q => (s.proc q).isNone then some (s.go p x .bind) else none
  | .reap todo => if todo.all fun q => (s.proc q).isNone then some (s.go p x .bind) else none
  | .await child =>
    if (s.proc child).all fun y => y.place = .serve ∨ y.place = .close ∨ y.place = .exit then
      some (s.go p x .again)
    else none
  | .again => some (if s.tryConnect = .success then s.go p x .connected else s.exit p)
  | .stat => some (if x.checkOwner ∧ s.path = none then s.exit p else s.go p x .connected)
  | .connected => some (s.exit p)
  | .bind =>
    some (if s.path = none then { s with path := some p }.go p x .listen else s.exit p)
  | .listen => some (s.go p x .serve)
  | .serve => none
  | .close => some ((s.unlinkPath x).go p x .exit)
  | .exit => some (s.exit p)

/-- One entry of `/proc` in a scan. -/
def look (p : ℕ) (x : Proc) (q : ℕ) (uptime : Option ℕ) : Option Boot :=
  match x.place with
  | .scan todo =>
    some (if (s.proc q).any (rival x) then s.exit p else s.go p x (.scan (todo.erase q)))
  | .reap todo =>
    let s' := s.go p x (.reap (todo.erase q))
    some (if (s.proc q).any (rival x) ∧ uptime.any (5 < ·) then s'.killGroup q else s')
  | _ => none

/-- What happens at an event; `none` if it cannot happen. -/
def step : Event → Option Boot
  | .exec x group =>
    some (s.spawn
      { toProgram := x, group := group.getD s.born,
        place := if x.mode = .daemon ∨ x.mode = .onlyDaemon then .remove else .connect })
  | .move p => (s.proc p).bind (s.move p)
  | .look p q uptime => if p = q then none else (s.proc p).bind fun x => s.look p x q uptime
  | .killServer p =>
    (s.proc p).bind fun x => if x.place = .serve then some (s.go p x .close) else none
  | .sigterm p =>
    (s.proc p).map fun x =>
      if x.place = .serve ∨ x.place = .close then (s.unlinkPath x).go p x .exit else s.exit p
  | .sigkill p => (s.proc p).map fun _ => s.exit p

/-- The steps of the system. -/
def Step (s : Boot) (l : Event) (s' : Boot) : Prop := s.step l = some s'

/-! ### What a step does -/

/-- A process goes on to a place, and leaves the path so. -/
inductive Goes (l : Event) (p : ℕ) (x : Proc) : Place → Option ℕ → Prop
  | removed (h : x.place = .remove) : Goes l p x .connect (s.unlinkPath x).path
  | answered (h : x.place = .connect) (hc : s.tryConnect = .success) : Goes l p x .stat s.path
  | unanswered (h : x.place = .connect) (hc : s.tryConnect = .enoent) : Goes l p x .launch s.path
  | refused (h : x.place = .connect) (hc : s.tryConnect = .econnrefused) : Goes l p x .unlink s.path
  | unlinked (h : x.place = .unlink) : Goes l p x .launch (s.unlinkPath x).path
  | anyUser (h : x.place = .launch) (huid : x.uid ≠ 0) : Goes l p x .again s.path
  | opendir (h : x.place = .launch) (huid : x.uid = 0) (hmode : x.mode = .daemon) :
      Goes l p x (.scan (s.procEntries p)) s.path
  | opendirKill (h : x.place = .launch) (huid : x.uid = 0) (hmode : x.mode = .onlyDaemon) :
      Goes l p x (.reap (s.procEntries p)) s.path
  | unchecked (h : x.place = .launch) (huid : x.uid = 0) (hexe : x.exe.isSome = false)
      (hmode : x.mode = .daemon ∨ x.mode = .onlyDaemon) : Goes l p x .bind s.path
  | looked {todo : List ℕ} {q : ℕ} (h : x.place = .scan todo) (hq : (s.proc q).any (rival x) = false) :
      Goes l p x (.scan (todo.erase q)) s.path
  | reaped {todo : List ℕ} {q : ℕ} (h : x.place = .reap todo) : Goes l p x (.reap (todo.erase q)) s.path
  | closedir {todo : List ℕ} (h : x.place = .scan todo)
      (hall : (todo.all fun q => (s.proc q).isNone) = true) : Goes l p x .bind s.path
  | closedirKill {todo : List ℕ} (h : x.place = .reap todo) : Goes l p x .bind s.path
  | notified {child : ℕ} (h : x.place = .await child) : Goes l p x .again s.path
  | found (h : x.place = .again) (hc : s.tryConnect = .success) : Goes l p x .connected s.path
  | owned (h : x.place = .stat) : Goes l p x .connected s.path
  | bound (h : x.place = .bind) (hfree : s.path = none) : Goes l p x .listen (some p)
  | listens (h : x.place = .listen) : Goes l p x .serve s.path
  | ended (h : x.place = .serve) (hl : l = .killServer p) : Goes l p x .close s.path
  | removedOwn (h : x.place = .serve ∧ l = .sigterm p ∨ x.place = .close) :
      Goes l p x .exit (s.unlinkPath x).path

/-- A step is one of these. -/
inductive Does (l : Event) : Boot → Prop
  | exec {x : Program} {group : Option ℕ} (h : l = .exec x group) :
      Does l (s.spawn
        { toProgram := x, group := group.getD s.born,
          place := if x.mode = .daemon ∨ x.mode = .onlyDaemon then .remove else .connect })
  | go {p : ℕ} {x : Proc} {place : Place} {path : Option ℕ} (hp : s.proc p = some x)
      (h : s.Goes l p x place path) :
      Does l ({ s with path := path }.go p x place)
  | exit {p : ℕ} {x : Proc} (hp : s.proc p = some x) : Does l (s.exit p)
  | fork {p : ℕ} {x : Proc} (hp : s.proc p = some x) (h : x.place = .launch) (huid : x.uid = 0)
      (hmode : x.mode = .startService) :
      Does l ((s.go p x (.await s.born)).spawn { x with group := s.born, place := .bind })
  | kill {p q : ℕ} {x : Proc} {todo : List ℕ} (hp : s.proc p = some x) (h : x.place = .reap todo) :
      Does l ((s.go p x (.reap (todo.erase q))).killGroup q)

variable {s s' : Boot} {l : Event} {p q o : ℕ} {x y : Proc} {place : Place} {path : Option ℕ}

theorem go_unlinkPath : (s.unlinkPath x).go p x place =
    { s with path := (s.unlinkPath x).path }.go p x place := by
  unfold unlinkPath
  split_ifs <;> rfl

theorem launchRoot_does (hp : s.proc p = some x) (h : x.place = .launch) (huid : x.uid = 0) :
    Does s l (s.launchRoot p x) := by
  rw [launchRoot]
  split
  · exact .exit hp
  · rename_i hmode
    split_ifs with hexe
    · exact .go hp (.opendir h huid hmode)
    · exact .go hp (.unchecked h huid (by simpa using hexe) (.inl hmode))
  · rename_i hmode
    split_ifs with hexe
    · exact .go hp (.opendirKill h huid hmode)
    · exact .go hp (.unchecked h huid (by simpa using hexe) (.inr hmode))
  · rename_i hmode
    exact .fork hp h huid hmode

theorem move_does (hp : s.proc p = some x) (h : s.move p x = some s') : Does s l s' := by
  rw [move] at h
  split at h
  · rename_i hplace
    cases h
    rw [go_unlinkPath]
    exact .go hp (.removed hplace)
  · rename_i hplace
    cases h
    cases hc : s.tryConnect with
    | success => exact .go hp (.answered hplace hc)
    | enoent => exact .go hp (.unanswered hplace hc)
    | econnrefused => exact .go hp (.refused hplace hc)
  · rename_i hplace
    cases h
    rw [go_unlinkPath]
    exact .go hp (.unlinked hplace)
  · rename_i hplace
    cases h
    split_ifs with huid
    · exact launchRoot_does hp hplace huid
    · exact .go hp (.anyUser hplace huid)
  · rename_i todo hplace
    split_ifs at h with hall
    cases h
    exact .go hp (.closedir hplace hall)
  · rename_i todo hplace
    split_ifs at h
    cases h
    exact .go hp (.closedirKill hplace)
  · rename_i child hplace
    split_ifs at h
    cases h
    exact .go hp (.notified hplace)
  · rename_i hplace
    cases h
    split_ifs with hc
    · exact .go hp (.found hplace hc)
    · exact .exit hp
  · rename_i hplace
    cases h
    split_ifs
    · exact .exit hp
    · exact .go hp (.owned hplace)
  · cases h
    exact .exit hp
  · rename_i hplace
    cases h
    split_ifs with hfree
    · exact .go hp (.bound hplace hfree)
    · exact .exit hp
  · rename_i hplace
    cases h
    exact .go hp (.listens hplace)
  · cases h
  · rename_i hplace
    cases h
    rw [go_unlinkPath]
    exact .go hp (.removedOwn (.inr hplace))
  · cases h
    exact .exit hp

theorem look_does {uptime : Option ℕ} (hp : s.proc p = some x)
    (h : s.look p x q uptime = some s') : Does s l s' := by
  rw [look] at h
  split at h
  · rename_i todo hplace
    cases h
    split_ifs with hq
    · exact .exit hp
    · exact .go hp (.looked hplace (by simpa using hq))
  · rename_i todo hplace
    cases h
    split_ifs
    · exact .kill hp hplace
    · exact .go hp (.reaped hplace)
  · cases h

/-- **What a step can do.** -/
theorem step_does (h : Step s l s') : Does s l s' := by
  unfold Step at h
  cases l with
  | exec x group =>
    cases h
    exact .exec rfl
  | move p =>
    obtain ⟨x, hp, h⟩ := Option.bind_eq_some_iff.1 h
    exact move_does hp h
  | look p q uptime =>
    rw [step] at h
    split_ifs at h
    obtain ⟨x, hp, h⟩ := Option.bind_eq_some_iff.1 h
    exact look_does hp h
  | killServer p =>
    obtain ⟨x, hp, h⟩ := Option.bind_eq_some_iff.1 h
    split_ifs at h with hplace
    cases h
    exact .go hp (.ended hplace rfl)
  | sigterm p =>
    obtain ⟨x, hp, h⟩ := Option.map_eq_some_iff.1 h
    split_ifs at h with hplace
    · cases h
      rw [go_unlinkPath]
      exact .go hp (.removedOwn (hplace.imp_left fun h => ⟨h, rfl⟩))
    · cases h
      exact .exit hp
  | sigkill p =>
    obtain ⟨x, hp, h⟩ := Option.map_eq_some_iff.1 h
    cases h
    exact .exit hp

end Boot

end TaskSpooler
