import TaskSpooler.Ops.Runs
import TaskSpooler.Ops.Utters
import TaskSpooler.Process.Tree

/-!
# The job of a process (`FIND_PID`)

A client asks to which job a process belongs, and `s_find_pid` goes down from the process of each
running job.  `find_pid_answer` says what the answer means: a running job that has the process below
its main threads, or none if there is no such job; and a signal that `kill_pids` sends to that job
reaches the process.  As long as no job has been started from within another one, this is the only job
that the process is below.
-/

namespace TaskSpooler

open Relation Descend Process

variable {P : Processes} {e : Env} {n : ℕ} {target : ℤ}

/-- A job that `s_find_pid` looks at. -/
def Job.Runs (p : Job) : Prop := (p.state = .running ∨ p.state = .pause) ∧ 0 < p.pid

namespace Process

/-- What `is_descendant_pid` tells is read from the processes, and all of it is read. -/
structure Seen (P : Processes) (n : ℕ) (e : Env) : Prop where
  descendant : e.descendant = isDescendantPid P.procFs n
  deep : ∀ pid, P.rank pid ≤ n
  fits : ∀ pid, P.Fits pid

theorem Processes.alive_of_below {pid : ℤ} (h : ReflTransGen (Child P.mainKids) pid target)
    (halive : P.threads target ≠ []) : P.threads pid ≠ [] := by
  obtain h | ⟨c, hc, -⟩ := ReflTransGen.cases_head_iff.1 h
  · rwa [h]
  · intro hnil
    rw [Child, Threads.mainKids, hnil, if_neg List.not_mem_nil] at hc
    exact List.not_mem_nil hc

end Process

namespace Spool

variable {s : Spool}

/-- No running job has been started from within another one. -/
def Apart (s : Spool) (P : Processes) : Prop :=
  ∀ p ∈ s.activeJobs, ∀ q ∈ s.activeJobs, p.Runs → q.Runs →
    ReflTransGen (Child P.mainKids) p.pid q.pid → p = q

/-- The test of `s_find_pid` on one job. -/
theorem looked_iff (hseen : Seen P n e) (p : Job) :
    decide ((p.state = .running ∨ p.state = .pause) ∧ 0 < p.pid ∧
        (p.pid = target ∨ (true = true ∧ e.descendant p.pid target = true))) = true ↔
      p.Runs ∧ ReflTransGen (Child P.mainKids) p.pid target := by
  rw [decide_eq_true_eq, hseen.descendant,
    Processes.isDescendantPid_iff P (hseen.deep p.pid) fun x _ => hseen.fits x, reflTransGen_iff_eq_or_transGen,
    Job.Runs, and_assoc]
  simp [eq_comm]

/-- **`s_find_pid` finds a job above the process**, if there is one. -/
theorem sFindPid_cases (hseen : Seen P n e) (htarget : 0 < target) :
    (∃ p ∈ s.activeJobs, p.Runs ∧ ReflTransGen (Child P.mainKids) p.pid target ∧
      s.sFindPid e target true = p.jobid) ∨
    (s.sFindPid e target true = -1 ∧
      ∀ p ∈ s.activeJobs, p.Runs → ¬ReflTransGen (Child P.mainKids) p.pid target) := by
  rw [sFindPid, if_neg (not_le.2 htarget)]
  split
  · rename_i p hp
    have htest := List.find?_some hp
    obtain ⟨hruns, hbelow⟩ := (looked_iff hseen p).1 htest
    exact .inl ⟨p, List.mem_of_find?_eq_some hp, hruns, hbelow, rfl⟩
  · rename_i hnone
    refine .inr ⟨rfl, fun p hp hruns hbelow => ?_⟩
    exact List.find?_eq_none.1 hnone p hp ((looked_iff hseen p).2 ⟨hruns, hbelow⟩)

theorem sFindPid_of_apart (hseen : Seen P n e) (htarget : 0 < target) (hapart : s.Apart P) {p : Job}
    (hp : p ∈ s.activeJobs) (hruns : p.Runs)
    (hbelow : ReflTransGen (Child P.mainKids) p.pid target) : s.sFindPid e target true = p.jobid := by
  obtain ⟨q, hq, hqruns, hqbelow, hanswer⟩ | ⟨-, hnone⟩ := sFindPid_cases (s := s) hseen htarget
  · -- both jobs are above the process, so one of them is above the other
    have hparent : ∀ a a' b, b ∈ P.mainKids a → b ∈ P.mainKids a' → a = a' := fun a a' b ha ha' =>
      P.forest.parent a a' b (Processes.mem_kids_of_mem_mainKids ha)
        (Processes.mem_kids_of_mem_mainKids ha')
    obtain h | h := comparable hparent hbelow hqbelow
    · rw [hapart p hp q hq hruns hqruns h, hanswer]
    · rw [← hapart q hq p hp hqruns hruns h, hanswer]
  · exact absurd hbelow (hnone p hp hruns)

end Spool

namespace Server

variable {C : Config} {s s' : Server} {index : ℕ}

/-- **The answer to `FIND_PID`.**  It is a running job above the process, which `kill_pids` reaches from
there with any signal, or `-1` if no running job is above it.  If no job has been started from within
another one, the answer is the one job that is above the process. -/
theorem find_pid_answer (hst : Step C s (e, .message index (.request (.findPid target true))) s')
    (hseen : Seen P n e) (htarget : 0 < target) (halive : P.threads target ≠ []) :
    ∃ jobid, s'.sent = ((s.clientCs index).socket, .findPidResult jobid) :: s.sent ∧
      ((∃ p ∈ s.activeJobs, p.Runs ∧ p.jobid = jobid ∧
          ReflTransGen (Child P.mainKids) p.pid target ∧
          ∀ signal, 0 ≤ signal → .kill target signal ∈ killPids P.procFs signal none (n + 1) p.pid) ∨
        (jobid = -1 ∧
          ∀ p ∈ s.activeJobs, p.Runs → ¬ReflTransGen (Child P.mainKids) p.pid target)) ∧
      (s.Apart P → ∀ p ∈ s.activeJobs, p.Runs →
        ReflTransGen (Child P.mainKids) p.pid target → jobid = p.jobid) := by
  obtain ⟨-, -, hst⟩ := hst
  refine ⟨s.sFindPid e target true, ?_, ?_, fun hapart p hp hruns hbelow =>
    Spool.sFindPid_of_apart hseen htarget hapart hp hruns hbelow⟩
  · cases hst
    obtain hsp | hsp := Spool.timeoutLock_cases e s.toSpool
    · simp only [onSpool, hsp]
      rfl
    · simp only [onSpool, hsp]
      rfl
  · obtain ⟨p, hp, hruns, hbelow, hanswer⟩ | hnone :=
      Spool.sFindPid_cases (s := s.toSpool) hseen htarget
    · have hlive : P.threads p.pid ≠ [] := Processes.alive_of_below hbelow halive
      exact .inl ⟨p, hp, hruns, hanswer.symm, hbelow, fun signal hsignal =>
        Processes.kill_mem_killPids hlive (Nat.lt_succ_of_le (hseen.deep p.pid)) hsignal
          (Processes.below_of_main hbelow)⟩
    · exact .inr hnone

/-- The process of the only job has a child. -/
def familyWorld : Env :=
  { world 5 with descendant := isDescendantPid Processes.threeGenerations.procFs 2 }

theorem seen_familyWorld : Seen Processes.threeGenerations 2 familyWorld where
  descendant := rfl
  deep pid := by
    show (if pid = 77 then 2 else if pid = 79 then 1 else 0) ≤ 2
    split_ifs
    · decide
    · decide
    · decide
  fits pid := by
    rw [Processes.Fits, Threads.mainKids]
    show (childrenText (if pid ∈ Processes.threeGenerations.threads pid then
      (if pid = 77 ∧ pid = 77 then [81] else if pid = 77 ∧ pid = 78 then [79]
        else if pid = 79 ∧ pid = 79 then [80] else []) else [])).length ≤ 4095
    split_ifs
    all_goals decide +kernel

/-- Somebody asks for the child. -/
theorem find_pid_answer_familyWorld : ∃ s' : Server,
    s'.sent = ((oneWithPid.clientCs 0).socket, .findPidResult 1000) :: oneWithPid.sent := by
  have hst : Step plainConfig oneWithPid (familyWorld, .message 0 (.request (.findPid 81 true)))
      (oneWithPid.after (familyWorld, .message 0 (.request (.findPid 81 true)))) :=
    ⟨rfl, by decide +kernel, step_after (by decide +kernel)⟩
  obtain ⟨jobid, hsent, hfound | ⟨-, hnone⟩, -⟩ :=
    find_pid_answer hst seen_familyWorld (by decide) (by decide)
  · obtain ⟨p, hp, -, rfl, -⟩ := hfound
    have hjobid : ∀ p ∈ oneWithPid.activeJobs, p.jobid = 1000 := by decide +kernel
    exact ⟨_, by rw [hsent, hjobid p hp]⟩
  · have hrunning : ∃ p ∈ oneWithPid.activeJobs, p.state = .running ∧ p.pid = 77 := by
      decide +kernel
    obtain ⟨p, hp, hstate, hpid⟩ := hrunning
    refine absurd (.single ?_) (hnone p hp ⟨.inl hstate, by rw [hpid]; decide⟩)
    rw [hpid]
    show (81 : ℤ) ∈ Processes.threeGenerations.mainKids 77
    decide

end Server

end TaskSpooler
