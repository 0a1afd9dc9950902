import Mathlib.Computability.Language
import Mathlib.Data.List.Chain
import TaskSpooler.Server.Basic

/-!
# The client of a job (`client.c`, `execute.c`)

After `NEWJOB` the client waits until it is told to run the command, runs it, and reports the end until
the server has confirmed it.  When the connection breaks it connects again and claims its job with
`RECONNECT`: with the pid `0` before the command was run, and with the pid of the command afterwards.

`Client.step` is what happens between two calls of `recv_msg`, for whatever is received.  What the
client does in all that is a word of a language that does not look at the answers of the server
(`deeds_mem_session`):

    (connect RECONNECT(0))* [exec RUNJOB_OK ENDJOB (connect RECONNECT(pid) [ENDJOB])* [on-finish]]

So there is one child for the command at most, every `ENDJOB` carries the same result, and no connection
sees two of them.  The child runs the command again when it ends with an error soon, up to `n_retry`
times (`runChild`).
-/

namespace TaskSpooler

/-- The type of the message is `LIST_LINE`, and a text follows. -/
def Reply.isLine : Reply → Bool
  | line _ | listing _ _ | userStatus _ | wallTime _ _ | wallTimeOverflow _ _
  | wallTimeNegative _ _ _ | env _ | logdir _ => true
  | _ => false

namespace Client

/-- What `waitpid` says of the command. -/
inductive WaitStatus
  | exited (code : ℤ)
  | signaled (signal : ℤ)
  | other
  deriving DecidableEq, Repr

/-- An attempt of `run_child`: what `waitpid` says of the command, and how many seconds it has taken. -/
structure Attempt where
  status : WaitStatus
  elapsed : ℤ
  deriving DecidableEq, Repr

/-- What comes of the `fork` in `run_job`, with what comes of the attempts of the child; an attempt is
`none` if it fails to `fork`. -/
inductive Fork
  /-- It fails. -/
  | failed
  /-- The command may run, but its parent cannot read the name of its output file. -/
  | lost (attempt : ℕ → Option Attempt)
  | ran (pid : ℤ) (ofname : String) (attempt : ℕ → Option Attempt) (realSec userSec systemSec : ℤ)

/-- The call of `recv_msg` that the client is in, or how it has ended. -/
inductive Place
  /-- In `c_wait_newjob_ok`. -/
  | newjobOk
  /-- In `c_wait_server_commands`, at the start of the loop. -/
  | command
  /-- After `RECONNECT` with the pid `0`. -/
  | reclaim
  /-- After `ENDJOB`. -/
  | endjobOk (r : Result)
  /-- After `RECONNECT` with the pid of the command. -/
  | reconnectOk (r : Result)
  /-- `c_wait_server_commands` has returned. -/
  | returned (errorlevel : ℤ)
  /-- `exit` has been called. -/
  | exited (code : ℤ)
  deriving DecidableEq, Repr

/-- What the client does to the outside. -/
inductive Deed
  /-- Open a new connection. -/
  | connect
  | send (m : Msg)
  /-- Fork a process for a job, which runs the command so many times. -/
  | exec (jobid : ℤ) (times : ℕ)
  /-- Call the on-finish command of the user. -/
  | onFinish (jobid errorlevel pid : ℤ)

end Client

open Client

/-- The fields of `command_line` that say what is to be done about the command. -/
structure Client.Options where
  dependOnSize : ℕ := 0
  requireElevel : Bool := false
  storeOutput : Bool := true
  onFinishCmd : Bool := false
  nRetry : ℕ := 0
  jobid : ℤ := 0
  deriving DecidableEq, Repr

/-- The client of a job, after it has sent `NEWJOB`. -/
structure Client extends Client.Options where
  rtPid : ℤ := 0
  place : Place := .newjobOk
  deriving DecidableEq, Repr

namespace Client

variable (c : Client)

/-- Wait for something else, or end. -/
def goto (p : Place) : Client := { c with place := p }

/-- The command has ended soon with an error, and not because it could not be run. -/
def Attempt.again (a : Attempt) : Bool :=
  match a.status with
  | .exited code => code ≠ 0 ∧ code ≠ 126 ∧ code ≠ 127 ∧ a.elapsed ≤ 15
  | .signaled _ | .other => false

/-- How `run_child` ends after its last attempt. -/
def Attempt.last (a : Attempt) : WaitStatus :=
  match a.status with
  | .exited code => .exited code
  | .signaled signal => .signaled signal
  | .other => .exited 1

/-- The loop in `run_child`, from the attempt `k` on and with some retries left: how the child ends, and
how many times it runs the command. -/
def runChild (attempt : ℕ → Option Attempt) (k : ℕ) : ℕ → WaitStatus × ℕ
  | 0 => match attempt k with
    | none => (.exited 1, 0)
    | some a => (a.last, 1)
  | n + 1 => match attempt k with
    | none => (.exited 1, 0)
    | some a =>
      if a.again then
        let r := runChild attempt (k + 1) n
        (r.1, r.2 + 1)
      else (a.last, 1)

/-- There is a limit for the retries. -/
theorem runChild_le (attempt : ℕ → Option Attempt) (k n : ℕ) : (runChild attempt k n).2 ≤ n + 1 := by
  induction n generalizing k with
  | zero =>
    rw [runChild]
    split <;> simp
  | succ n ih =>
    rw [runChild]
    split
    · exact Nat.zero_le _
    · split_ifs
      · exact Nat.succ_le_succ (ih (k + 1))
      · exact Nat.le_add_left 1 (n + 1)

/-- **The command is run again only after it has ended soon with an error.** -/
theorem again_of_lt {attempt : ℕ → Option Attempt} {k n j : ℕ}
    (h : j + 1 < (runChild attempt k n).2) : ∃ a, attempt (k + j) = some a ∧ a.again := by
  induction n generalizing k j with
  | zero =>
    rw [runChild] at h
    split at h
    · exact absurd h (Nat.not_lt_zero _)
    · exact absurd h (by simp)
  | succ n ih =>
    rw [runChild] at h
    split at h
    · exact absurd h (Nat.not_lt_zero _)
    · rename_i a ha
      split_ifs at h with hagain
      · cases j with
        | zero => exact ⟨a, ha, hagain⟩
        | succ j =>
          obtain ⟨b, hb, hagain⟩ := ih (k := k + 1) (j := j) (Nat.lt_of_succ_lt_succ h)
          exact ⟨b, by rwa [Nat.add_assoc, Nat.add_comm 1 j] at hb, hagain⟩
      · exact absurd h (by simp)

/-- The end of `run_parent`: the result of a command. -/
def runParent (status : WaitStatus) (realSec userSec systemSec : ℤ) : Result :=
  let r : Result := match status with
    | .exited code => { errorlevel := code }
    | .signaled signal => { errorlevel := -1, diedBySignal := true, signal := signal }
    | .other => { errorlevel := -1 }
  { r with realSec := realSec, userSec := userSec, systemSec := systemSec }

/-- `reconnect_to_server`, and the message `RECONNECT`. -/
def reconnect (pid : ℤ) : List Deed := [.connect, .send (.reconnect c.jobid pid)]

/-- The result of a job that is not run because of its dependencies. -/
def skippedResult : Result := { errorlevel := -1, skipped := true }

/-- What the client does about `RUNJOB`, up to the call of `recv_msg` for `ENDJOB_OK`. -/
def runjob (jobid lastErrorlevel : ℤ) (f : Fork) : Client × List Deed :=
  if c.dependOnSize ≠ 0 ∧ c.requireElevel ∧ lastErrorlevel ≠ 0 then
    (c.goto (.endjobOk skippedResult),
      [.send (.runjobOk none (-1)), .send (.endjob skippedResult)])
  else
    match f with
    | .failed => (c.goto (.exited 1), [])
    | .lost attempt => (c.goto (.exited 1), [.exec jobid (runChild attempt 0 c.nRetry).2])
    | .ran pid ofname attempt realSec userSec systemSec =>
      let (status, times) := runChild attempt 0 c.nRetry
      let r := runParent status realSec userSec systemSec
      ({ c with rtPid := pid, place := .endjobOk r },
        [.exec jobid times, .send (.runjobOk (if c.storeOutput then some ofname else none) pid),
          .send (.endjob r)])

/-- From one call of `recv_msg` to the next one; `none` is the end of the connection.  `recv_msg` itself
calls `exit` for `ERROR_INFO`.  The text of a line is read in `c_wait_newjob_ok` only; elsewhere it is
what `recv_msg` finds next. -/
def step (r : Option Reply) (f : Fork) : Client × List Deed :=
  match c.place, r with
  | .returned _, _ | .exited _, _ => (c, [])
  | _, some (.errorInfo _) => (c.goto (.exited 1), [])
  | .newjobOk, some (.newjobOk jobid) => ({ c with jobid := jobid, place := .command }, [])
  | .newjobOk, some .newjobNok => (c.goto (.exited 2), [])
  | .newjobOk, some r => (if r.isLine then c else c.goto (.exited 1), [])
  | .newjobOk, none => (c.goto (.exited 1), [])
  | .command, none => (c.goto .reclaim, c.reconnect 0)
  | .command, some (.runjob jobid lastErrorlevel) => c.runjob jobid lastErrorlevel f
  | .command, some r => (if r.isLine then c.goto (.exited 1) else c, [])
  | .reclaim, some r => (c.goto (if r.isLine then .exited 1 else .command), [])
  | .reclaim, none => (c.goto .command, [])
  | .endjobOk r, some (.endjobOk _ _) => (c.goto (.returned r.errorlevel),
      if c.onFinishCmd then [.onFinish c.jobid r.errorlevel c.rtPid] else [])
  | .endjobOk r, _ => (c.goto (.reconnectOk r), c.reconnect c.rtPid)
  | .reconnectOk r, some (.reconnectOk _) => (c.goto (.endjobOk r), [.send (.endjob r)])
  | .reconnectOk r, _ => (c.goto (.reconnectOk r), c.reconnect c.rtPid)

/-- The client after everything that it has received, with all its deeds. -/
def run : List (Option Reply × Fork) → Client × List Deed → Client × List Deed
  | [], x => x
  | (r, f) :: l, x => run l ((x.1.step r f).1, x.2 ++ (x.1.step r f).2)

/-! ### The session -/

section

open Computability

variable (nRetry : ℕ) (jobid pid : ℤ) (r : Result)

/-- A connection on which the client claims its job again. -/
def claim : Language Deed := {[.connect, .send (.reconnect jobid pid)]}

/-- `RUNJOB_OK` and `ENDJOB`, for a command that is run or skipped. -/
inductive Runs (nRetry : ℕ) : List Deed → ℤ → Result → Prop
  | skipped : Runs nRetry [.send (.runjobOk none (-1)), .send (.endjob skippedResult)] 0 skippedResult
  | ran (k : ℤ) (n : ℕ) (hn : n ≤ nRetry + 1) (o : Option String) (pid : ℤ) (r : Result) :
      Runs nRetry [.exec k n, .send (.runjobOk o pid), .send (.endjob r)] pid r

/-- Everything up to the first `ENDJOB`. -/
def begun : Language Deed := {ds | ∃ a ∈ (claim jobid 0)∗, ∃ b, Runs nRetry b pid r ∧ ds = a ++ b}

/-- Everything up to an `ENDJOB`. -/
def told : Language Deed :=
  begun nRetry jobid pid r * (claim jobid pid * (1 + {[.send (.endjob r)]}))∗

/-- What the client of a job does, seen from outside. -/
def session : Language Deed :=
  {ds | ds ∈ (claim jobid 0)∗ ∨
    (∃ a ∈ (claim jobid 0)∗, ∃ k, ∃ n ≤ nRetry + 1, ds = a ++ [.exec k n]) ∨
    ∃ pid r, ds ∈ told nRetry jobid pid r ∨
      ∃ a ∈ told nRetry jobid pid r, ds = a ++ [.onFinish jobid r.errorlevel pid]}

variable {nRetry jobid pid r} {ds : List Deed}

theorem mem_claims (h : ds ∈ (claim jobid pid)∗) :
    ds ++ [.connect, .send (.reconnect jobid pid)] ∈ (claim jobid pid)∗ := by
  have hle : (claim jobid pid)∗ * claim jobid pid ≤ (claim jobid pid)∗ := kstar_mul_le_kstar
  exact hle (Language.append_mem_mul h rfl)

theorem mem_told_of_begun (h : ds ∈ begun nRetry jobid pid r) :
    ds ∈ told nRetry jobid pid r := by
  have happ : ds ++ [] ∈ told nRetry jobid pid r := Language.append_mem_mul h (Language.nil_mem_kstar _)
  rwa [List.append_nil] at happ

/-- `RECONNECT` has been sent after an `ENDJOB`. -/
theorem mem_told_of_claim (h : ds ∈ told nRetry jobid pid r * claim jobid pid) :
    ds ∈ told nRetry jobid pid r := by
  rw [told, mul_assoc] at h
  suffices hle : begun nRetry jobid pid r * ((claim jobid pid * (1 + {[.send (.endjob r)]}))∗ *
      claim jobid pid) ≤ told nRetry jobid pid r from hle h
  refine mul_le_mul_right ((mul_le_mul_right (fun x hx => ?_) _).trans kstar_mul_le_kstar) _
  have happ := Language.append_mem_mul hx (m := 1 + {[.send (.endjob r)]}) (.inl rfl)
  rwa [List.append_nil] at happ

theorem mem_told_again (h : ds ∈ told nRetry jobid pid r * claim jobid pid) :
    ds ++ [.send (.endjob r)] ∈ told nRetry jobid pid r := by
  rw [told, mul_assoc] at h
  have happ := Language.append_mem_mul h (m := 1 + {[.send (.endjob r)]}) (.inr rfl)
  rw [mul_assoc, mul_assoc] at happ
  suffices hle : begun nRetry jobid pid r * ((claim jobid pid * (1 + {[.send (.endjob r)]}))∗ *
      (claim jobid pid * (1 + {[.send (.endjob r)]}))) ≤ told nRetry jobid pid r from hle happ
  exact mul_le_mul_right kstar_mul_le_kstar _

end

/-! ### The invariant -/

open Computability in
/-- What the client has done when it waits for something. -/
def Course (c : Client) (ds : List Deed) : Prop :=
  match c.place with
  | .newjobOk => ds = [] ∧ c.rtPid = 0
  | .command | .reclaim => ds ∈ (claim c.jobid 0)∗ ∧ c.rtPid = 0
  | .endjobOk r => ds ∈ told c.nRetry c.jobid c.rtPid r
  | .reconnectOk r => ds ∈ told c.nRetry c.jobid c.rtPid r * claim c.jobid c.rtPid
  | .returned e => ∃ r : Result, r.errorlevel = e ∧ (ds ∈ told c.nRetry c.jobid c.rtPid r ∨
      ∃ a ∈ told c.nRetry c.jobid c.rtPid r, ds = a ++ [.onFinish c.jobid r.errorlevel c.rtPid])
  | .exited _ => ds ∈ session c.nRetry c.jobid

variable {c : Client} {ds : List Deed}

theorem Course.mem_session (h : c.Course ds) : ds ∈ session c.nRetry c.jobid := by
  rw [Course] at h
  split at h
  · exact .inl (h.1 ▸ Language.nil_mem_kstar _)
  · exact .inl h.1
  · exact .inl h.1
  · exact .inr (.inr ⟨_, _, .inl h⟩)
  · exact .inr (.inr ⟨_, _, .inl (mem_told_of_claim h)⟩)
  · obtain ⟨r, -, h⟩ := h
    exact .inr (.inr ⟨_, r, h⟩)
  · exact h

theorem course_runjob {jobid lastErrorlevel : ℤ} {f : Fork}
    (h : ds ∈ KStar.kstar (claim c.jobid 0)) (hpid : c.rtPid = 0) :
    (c.runjob jobid lastErrorlevel f).1.Course (ds ++ (c.runjob jobid lastErrorlevel f).2) := by
  unfold runjob
  by_cases hskip : c.dependOnSize ≠ 0 ∧ c.requireElevel ∧ lastErrorlevel ≠ 0
  · rw [if_pos hskip]
    refine mem_told_of_begun ⟨ds, h, _, ?_, rfl⟩
    show Runs _ _ c.rtPid _
    rw [hpid]
    exact .skipped
  · rw [if_neg hskip]
    cases f with
    | failed => exact .inl (by rwa [List.append_nil])
    | lost attempt => exact .inr (.inl ⟨ds, h, jobid, _, runChild_le attempt 0 c.nRetry, rfl⟩)
    | ran pid ofname attempt realSec userSec systemSec =>
      exact mem_told_of_begun ⟨ds, h, _, .ran jobid _ (runChild_le attempt 0 c.nRetry) _ pid _, rfl⟩

theorem Course.exit {code : ℤ} (h : c.Course ds) : (c.goto (.exited code)).Course (ds ++ []) := by
  rw [List.append_nil]
  exact h.mem_session

/-- **Every step keeps the course.** -/
theorem Course.step {r : Option Reply} {f : Fork} (h : c.Course ds) :
    (c.step r f).1.Course (ds ++ (c.step r f).2) := by
  have hexit : ∀ code, (c.goto (.exited code)).Course (ds ++ []) := fun _ => h.exit
  have hstay : c.Course (ds ++ []) := by rwa [List.append_nil]
  obtain ⟨o, pid, place⟩ := c
  cases place with
  | newjobOk =>
    cases r with
    | none => exact hexit 1
    | some r =>
      cases r with
      | newjobOk jobid =>
        obtain ⟨rfl, hpid⟩ := h
        exact ⟨Language.nil_mem_kstar _, hpid⟩
      | newjobNok => exact hexit 2
      | _ => first | exact hexit 1 | exact hstay
  | command =>
    cases r with
    | none => exact ⟨mem_claims h.1, h.2⟩
    | some r =>
      cases r with
      | runjob jobid lastErrorlevel => exact course_runjob h.1 h.2
      | _ => first | exact hexit 1 | exact hstay
  | reclaim =>
    cases r with
    | none => exact hstay
    | some r => cases r with
      | _ => first | exact hexit 1 | exact hstay
  | endjobOk res =>
    have hagain : (Client.goto ⟨o, pid, .endjobOk res⟩ (.reconnectOk res)).Course
        (ds ++ Client.reconnect ⟨o, pid, .endjobOk res⟩ pid) := Language.append_mem_mul h rfl
    cases r with
    | none => exact hagain
    | some r =>
      cases r with
      | errorInfo text => exact hexit 1
      | endjobOk jobid p =>
        by_cases hcmd : o.onFinishCmd
        · refine ⟨res, rfl, .inr ⟨ds, h, ?_⟩⟩
          simp only [Client.step, hcmd, if_true]
          rfl
        · refine ⟨res, rfl, .inl ?_⟩
          simp only [Client.step, hcmd, Bool.false_eq_true, if_false]
          exact hstay
      | _ => exact hagain
  | reconnectOk res =>
    have hagain : (Client.goto ⟨o, pid, .reconnectOk res⟩ (.reconnectOk res)).Course
        (ds ++ Client.reconnect ⟨o, pid, .reconnectOk res⟩ pid) :=
      Language.append_mem_mul (mem_told_of_claim h) rfl
    cases r with
    | none => exact hagain
    | some r =>
      cases r with
      | errorInfo text => exact hexit 1
      | reconnectOk jobid => exact mem_told_again h
      | _ => exact hagain
  | returned errorlevel => exact hstay
  | exited code => exact hstay

/-- What the client of a job does, after `NEWJOB`. -/
def life (o : Options) (l : List (Option Reply × Fork)) : Client × List Deed := run l ({ o with }, [])

theorem course_run {l : List (Option Reply × Fork)} (h : c.Course ds) :
    (run l (c, ds)).1.Course (run l (c, ds)).2 := by
  induction l generalizing c ds with
  | nil => exact h
  | cons i l ih => exact ih h.step

/-- **Whatever the client receives**, its deeds are a word of the session. -/
theorem deeds_mem_session (o : Options) (l : List (Option Reply × Fork)) :
    (life o l).2 ∈ session (life o l).1.nRetry (life o l).1.jobid :=
  (course_run (c := { o with }) ⟨rfl, rfl⟩).mem_session

/-! ### What follows for every session -/

namespace Deed

/-- A child for the command is forked. -/
def isExec : Deed → Bool
  | exec _ _ => true
  | _ => false

/-- `ENDJOB`. -/
def isEndjob : Deed → Bool
  | send (.endjob _) => true
  | _ => false

/-- A new connection, or `ENDJOB`. -/
def isMark : Deed → Bool
  | connect => true
  | d => d.isEndjob

end Deed

/-- A property of the words of a language, and of what is written behind a repetition of them. -/
theorem kstar_induction {α : Type*} {l : Language α} {P : List α → Prop} (hnil : P [])
    (happ : ∀ a b, P a → b ∈ l → P (a ++ b)) {x : List α} (h : x ∈ KStar.kstar l) : P x := by
  obtain ⟨L, rfl, hL⟩ := Language.mem_kstar.1 h
  induction L using List.reverseRecOn with
  | nil => exact hnil
  | append_singleton L b ih =>
    have hsub : ∀ y ∈ L, y ∈ l := fun y hy => hL y (List.mem_append_left _ hy)
    rw [List.flatten_append, List.flatten_singleton]
    exact happ _ _ (ih hsub (Language.mem_kstar.2 ⟨L, rfl, hsub⟩)) (hL b (by simp))

/-- There is one child for the command at most, which runs it `nRetry + 1` times at most, the server is
told one result, and only once on a connection. -/
structure Once (nRetry : ℕ) (r : Result) (ds : List Deed) : Prop where
  exec : ds.countP Deed.isExec ≤ 1
  times : ∀ k n, Deed.exec k n ∈ ds → n ≤ nRetry + 1
  result : ∀ r', Deed.send (.endjob r') ∈ ds → r' = r
  apart : (ds.filter Deed.isMark).IsChain fun a b => ¬(a.isEndjob ∧ b.isEndjob)

variable {nRetry : ℕ} {r : Result} {a b : List Deed}

theorem Once.append (ha : Once nRetry r a) (hexec : b.countP Deed.isExec = 0)
    (hresult : ∀ r', Deed.send (.endjob r') ∈ b → r' = r)
    (hapart : (b.filter Deed.isMark).IsChain fun a b => ¬(a.isEndjob ∧ b.isEndjob))
    (hhead : ∀ d ∈ (b.filter Deed.isMark).head?, d.isEndjob = false) : Once nRetry r (a ++ b) := by
  refine ⟨?_, fun k n hn => ?_, fun r' hr' => ?_, ?_⟩
  · rw [List.countP_append, hexec]
    exact ha.exec
  · refine (List.mem_append.1 hn).elim (ha.times k n) fun hn => ?_
    exact absurd rfl (List.countP_eq_zero.1 hexec _ hn)
  · exact (List.mem_append.1 hr').elim (ha.result r') (hresult r')
  · rw [List.filter_append, List.isChain_append]
    refine ⟨ha.apart, hapart, fun x _ y hy hxy => ?_⟩
    rw [hhead y hy] at hxy
    exact Bool.false_ne_true hxy.2

/-- Nothing has been said about the end of the job. -/
def Silent (ds : List Deed) : Prop := ∀ d ∈ ds, d.isExec = false ∧ d.isEndjob = false

theorem silent_of_claims {jobid pid : ℤ} (h : ds ∈ KStar.kstar (claim jobid pid)) : Silent ds := by
  refine kstar_induction (P := Silent) (by simp [Silent]) (fun a b ha hb d hd => ?_) h
  rw [show b = _ from hb, List.mem_append, List.mem_cons, List.mem_singleton] at hd
  obtain hd | rfl | rfl := hd
  · exact ha d hd
  · exact ⟨rfl, rfl⟩
  · exact ⟨rfl, rfl⟩

theorem Silent.once_append (ha : Silent a) (hexec : b.countP Deed.isExec ≤ 1)
    (htimes : ∀ k n, Deed.exec k n ∈ b → n ≤ nRetry + 1)
    (hresult : ∀ r', Deed.send (.endjob r') ∈ b → r' = r)
    (hapart : (b.filter Deed.isMark).IsChain fun a b => ¬(a.isEndjob ∧ b.isEndjob)) :
    Once nRetry r (a ++ b) := by
  have hnone : a.countP Deed.isExec = 0 :=
    List.countP_eq_zero.2 fun d hd => by rw [(ha d hd).1]; exact Bool.false_ne_true
  have hmark : ∀ d ∈ a.filter Deed.isMark, d.isEndjob = false := fun d hd =>
    (ha d (List.mem_of_mem_filter hd)).2
  refine ⟨?_, fun k n hn => ?_, fun r' hr' => ?_, ?_⟩
  · rw [List.countP_append, hnone, Nat.zero_add]
    exact hexec
  · refine (List.mem_append.1 hn).elim (fun hn => ?_) (htimes k n)
    exact absurd (ha _ hn).1 (by simp [Deed.isExec])
  · obtain hr' | hr' := List.mem_append.1 hr'
    · exact absurd (ha _ hr').2 (by simp [Deed.isEndjob])
    · exact hresult r' hr'
  · rw [List.filter_append, List.isChain_append]
    refine ⟨?_, hapart, fun x hx y _ hxy => ?_⟩
    · refine List.Pairwise.isChain (List.pairwise_of_forall_mem_list fun x hx y _ hxy => ?_)
      rw [hmark x hx] at hxy
      exact Bool.false_ne_true hxy.1
    · rw [hmark x (List.mem_of_mem_getLast? hx)] at hxy
      exact Bool.false_ne_true hxy.1

theorem once_told {jobid pid : ℤ} (h : ds ∈ told nRetry jobid pid r) : Once nRetry r ds := by
  obtain ⟨x, ⟨a, ha, b, hb, rfl⟩, y, hy, rfl⟩ := Language.mem_mul.1 h
  have hstart : Once nRetry r (a ++ b) := by
    cases hb with
    | skipped =>
      exact (silent_of_claims ha).once_append (Nat.zero_le 1) (by simp) (by simp) (.singleton _)
    | ran k n hn o pid r =>
      exact (silent_of_claims ha).once_append (Nat.le_refl 1) (by simpa using hn) (by simp)
        (.singleton _)
  refine kstar_induction (P := fun y => Once nRetry r (a ++ b ++ y)) (by rwa [List.append_nil])
    (fun y z hy hz => ?_) hy
  rw [← List.append_assoc]
  -- another connection, with or without `ENDJOB`
  obtain ⟨u, rfl, v, hv, rfl⟩ := Language.mem_mul.1 hz
  obtain rfl | rfl : v = [] ∨ v = [.send (.endjob r)] := hv
  · exact hy.append rfl (by simp) (.singleton _) fun d hd => by cases hd; rfl
  · refine hy.append rfl (by simp) ?_ fun d hd => by cases hd; rfl
    exact .cons_cons (fun h => Bool.false_ne_true h.1) (.singleton _)

theorem once_finished {jobid pid : ℤ} {e : ℤ} (h : ds ∈ told nRetry jobid pid r) :
    Once nRetry r (ds ++ [.onFinish jobid e pid]) :=
  (once_told h).append rfl (by simp) .nil fun d hd => by cases hd

theorem endjob_mem_told {jobid pid : ℤ} (h : ds ∈ told nRetry jobid pid r) : .send (.endjob r) ∈ ds := by
  obtain ⟨x, ⟨a, -, b, hb, rfl⟩, y, -, rfl⟩ := Language.mem_mul.1 h
  refine List.mem_append_left _ (List.mem_append_right _ ?_)
  cases hb <;> simp

theorem once_of_session {jobid : ℤ} (h : ds ∈ session nRetry jobid) : ∃ r, Once nRetry r ds := by
  obtain h | ⟨a, h, k, n, hn, rfl⟩ | ⟨pid, r, h | ⟨a, h, rfl⟩⟩ := h
  · refine ⟨{}, ?_⟩
    have happ : Once nRetry {} (ds ++ []) :=
      (silent_of_claims h).once_append (Nat.zero_le 1) (by simp) (by simp) .nil
    rwa [List.append_nil] at happ
  · exact ⟨{}, (silent_of_claims h).once_append (Nat.le_refl 1) (by simpa using hn) (by simp) .nil⟩
  · exact ⟨r, once_told h⟩
  · exact ⟨r, once_finished h⟩

/-- The number of retries is the one of the command line. -/
theorem nRetry_run {l : List (Option Reply × Fork)} (x : Client × List Deed) :
    (run l x).1.nRetry = x.1.nRetry := by
  induction l generalizing x with
  | nil => rfl
  | cons i l ih =>
    refine (ih _).trans ?_
    show (x.1.step i.1 i.2).1.nRetry = x.1.nRetry
    unfold step runjob
    repeat' split
    all_goals rfl

/-- **Once**: whatever the client receives, it forks one child for the command at most, which runs it
once and `n_retry` times more at most; it tells the server one result only and at most once on a
connection, and returns the error level that it has told. -/
theorem life_once (o : Options) (l : List (Option Reply × Fork)) : ∃ r, Once o.nRetry r (life o l).2 ∧
    ∀ e, (life o l).1.place = .returned e → r.errorlevel = e ∧ .send (.endjob r) ∈ (life o l).2 := by
  have hcourse : (life o l).1.Course (life o l).2 := course_run (c := { o with }) ⟨rfl, rfl⟩
  have hretry : (life o l).1.nRetry = o.nRetry := nRetry_run _
  rw [← hretry]
  cases hplace : (life o l).1.place with
  | returned e =>
    rw [Course, hplace] at hcourse
    obtain ⟨r, he, h | ⟨a, h, ha⟩⟩ := hcourse
    · exact ⟨r, once_told h, fun e' he' => ⟨he.trans (Place.returned.inj he'), endjob_mem_told h⟩⟩
    · refine ⟨r, ha ▸ once_finished h, fun e' he' => ⟨he.trans (Place.returned.inj he'), ?_⟩⟩
      rw [ha]
      exact List.mem_append_left _ (endjob_mem_told h)
  | _ =>
    obtain ⟨r, hr⟩ := once_of_session hcourse.mem_session
    exact ⟨r, hr, fun e he => by cases he⟩

end Client

end TaskSpooler
