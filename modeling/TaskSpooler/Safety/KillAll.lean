import TaskSpooler.Ops.Sent
import TaskSpooler.Server.Runs

/-!
# Killing all jobs of a user

For `KILL_ALL` the server sends the number of the running jobs and then the pid of each, and the
client kills the process group of every pid that it reads.  A job is in the state `RUNNING` from the
moment it is dispatched; its pid comes with `RUNJOB_OK`, and until then it is zero.  The client then
calls `kill(0, SIGTERM)`, which addresses its own process group.

`kill_all_iff` says that the request does what it should exactly if all those jobs have a pid.
-/

namespace TaskSpooler

/-- The pid that `recv` finds in the place of a message. -/
def Reply.pidOf : Reply → Option ℤ
  | pid n => some n
  | _ => none

/-- The loop of `c_kill_all_jobs`: the first arguments of `kill`, one after the other. -/
def killLoop : ℕ → List Reply → Option (List ℤ)
  | 0, _ => some []
  | _ + 1, [] => none
  | n + 1, r :: rest => do
    let pid ← r.pidOf
    let kills ← killLoop n rest
    some (-pid :: kills)

/-- `c_kill_all_jobs`, with what it reads from its socket; `none` if it stops with an error. -/
def cKillAllJobs : List Reply → Option (List ℤ)
  | .countRunning n :: rest => killLoop n rest
  | _ => none

namespace Spool

variable (s : Spool)

/-- What has been sent to a socket since `s`, in the order in which it is read. -/
def repliesSince (s s' : Spool) (socket : ℤ) : List Reply :=
  ((s.sentSince s').reverse.filter fun y => y.1 = socket).map Prod.snd

/-- A running job of the user; root is a user of all jobs. -/
def Runs (user : ℕ) (p : Job) : Prop := p.state = .running ∧ (user = 0 ∨ p.user = some user)

instance (user : ℕ) : DecidablePred (Runs user) := fun p =>
  inferInstanceAs (Decidable (p.state = .running ∧ (user = 0 ∨ p.user = some user)))

/-- The answer to `KILL_ALL` lists the pids of the jobs `jobs` behind their number.  These are running
jobs of the user, each listed once and with a positive pid, and none that has been started is left out.
The client, whatever else it finds on its socket, kills process groups of others only. -/
structure KillsAll (socket : ℤ) (user : ℕ) (jobs : List Job) : Prop where
  sent : s.repliesSince (s.sKillAllJobs socket user) socket =
    .countRunning jobs.length :: jobs.map fun p => .pid p.pid
  once : (jobs.map Job.jobid).Nodup
  running : ∀ p ∈ jobs, p ∈ s.activeJobs ∧ Runs user p ∧ 0 < p.pid
  complete : ∀ p ∈ s.activeJobs, Runs user p → p.pid ≠ 0 → p ∈ jobs
  client : ∀ rest, ∃ kills,
    cKillAllJobs (s.repliesSince (s.sKillAllJobs socket user) socket ++ rest) = some kills ∧
      ∀ a ∈ kills, a < 0

variable {s} {socket : ℤ} {user : ℕ}

theorem sent_foldl_pid (l : List Job) (s : Spool) :
    (l.foldl (fun s p => s.send socket (.pid p.pid)) s).sent =
      (l.map fun p => (socket, Reply.pid p.pid)).reverse ++ s.sent := by
  induction l generalizing s with
  | nil => rfl
  | cons p l ih =>
    rw [List.foldl_cons, ih, List.map_cons, List.reverse_cons, List.append_assoc]
    rfl

/-- **What `s_kill_all_jobs` sends**: the number of the running jobs, and their pids. -/
theorem repliesSince_sKillAllJobs :
    s.repliesSince (s.sKillAllJobs socket user) socket =
      .countRunning (s.activeJobs.filter (Runs user)).length ::
        (s.activeJobs.filter (Runs user)).map fun p => .pid p.pid := by
  set jobs := s.activeJobs.filter (Runs user) with hjobs
  have hsent : (s.sKillAllJobs socket user).sent =
      (jobs.map fun p => (socket, Reply.pid p.pid)).reverse ++
        (socket, .countRunning jobs.length) :: s.sent := by
    have hcount : s.activeJobs.countP (Runs user) = jobs.length := List.countP_eq_length_filter
    rw [← hcount]
    exact sent_foldl_pid _ _
  have hsince : s.sentSince (s.sKillAllJobs socket user) =
      (jobs.map fun p => (socket, Reply.pid p.pid)).reverse ++
        [(socket, .countRunning jobs.length)] := by
    rw [sentSince, hsent, List.append_cons, List.length_append, Nat.add_sub_cancel, List.take_left]
  -- everything has gone to one socket
  have hall : (jobs.map fun p => (socket, Reply.pid p.pid)).filter (fun y => y.1 = socket) =
      jobs.map fun p => (socket, Reply.pid p.pid) := by
    refine List.filter_eq_self.2 fun y hy => ?_
    obtain ⟨p, -, rfl⟩ := List.mem_map.1 hy
    exact decide_eq_true rfl
  rw [repliesSince, hsince, List.reverse_append, List.reverse_reverse, List.reverse_singleton,
    List.singleton_append, List.filter_cons_of_pos (by simp), hall, List.map_cons, List.map_map]
  rfl

/-- The client reads the pids that have been announced. -/
theorem killLoop_pids (jobs : List Job) (rest : List Reply) :
    killLoop jobs.length ((jobs.map fun p => .pid p.pid) ++ rest) =
      some (jobs.map fun p => -p.pid) := by
  induction jobs with
  | nil => rfl
  | cons p jobs ih =>
    rw [List.map_cons, List.cons_append, List.length_cons, killLoop, Reply.pidOf, ih]
    rfl

/-- If all running jobs have a pid, the answer is as it should be. -/
theorem killsAll_of_pos (hids : s.view.Ids) (h : ∀ p ∈ s.activeJobs, Runs user p → 0 < p.pid) :
    s.KillsAll socket user (s.activeJobs.filter (Runs user)) := by
  have hrun : ∀ p ∈ s.activeJobs.filter (Runs user), p ∈ s.activeJobs ∧ Runs user p ∧ 0 < p.pid := by
    intro p hp
    obtain ⟨hp, hr⟩ := List.mem_filter.1 hp
    exact ⟨hp, of_decide_eq_true hr, h p hp (of_decide_eq_true hr)⟩
  refine ⟨repliesSince_sKillAllJobs, ?_, hrun, fun p hp hr _ => ?_, fun rest => ?_⟩
  · exact (nodup_of_ids hids).sublist (List.filter_sublist.map _)
  · exact List.mem_filter.2 ⟨hp, decide_eq_true hr⟩
  · refine ⟨(s.activeJobs.filter (Runs user)).map fun p => -p.pid, ?_, fun a ha => ?_⟩
    · rw [repliesSince_sKillAllJobs]
      exact killLoop_pids _ rest
    · obtain ⟨p, hp, rfl⟩ := List.mem_map.1 ha
      have hpos := (hrun p hp).2.2
      omega

/-- The pid of every running job is sent. -/
theorem pos_of_killsAll {jobs : List Job} (h : s.KillsAll socket user jobs) {p : Job}
    (hp : p ∈ s.activeJobs) (hr : Runs user p) : 0 < p.pid := by
  have hsent := h.sent
  rw [repliesSince_sKillAllJobs] at hsent
  have hmem : Reply.pid p.pid ∈ (s.activeJobs.filter (Runs user)).map fun p => Reply.pid p.pid :=
    List.mem_map_of_mem (List.mem_filter.2 ⟨hp, decide_eq_true hr⟩)
  rw [(List.cons.inj hsent).2] at hmem
  obtain ⟨p', hp', he⟩ := List.mem_map.1 hmem
  rw [← Reply.pid.inj he]
  exact (h.running p' hp').2.2

end Spool

namespace Server

open Spool

variable {C : Config} {ok : Env × Input → Server → Prop} {s₀ s : Server}

/-- **When all jobs of a user are killed as they should be.**  In every state of a run, exactly if
every running job of the user has reported its pid. -/
theorem kill_all_iff (h₀ : s₀.Fresh) (h : Run (Step C) ok s₀ s) (socket : ℤ) (user : ℕ) :
    (∃ jobs, s.KillsAll socket user jobs) ↔ ∀ p ∈ s.activeJobs, Runs user p → 0 < p.pid := by
  constructor
  · rintro ⟨jobs, hjobs⟩ p hp hr
    exact pos_of_killsAll hjobs hp hr
  · intro hpos
    exact ⟨_, killsAll_of_pos (Run.sound h₀.sound h).ids hpos⟩

/-- A job has been dispatched and has reported the pid 77. -/
theorem started_job_is_killed : ∃ (s : Server) (jobs : List Job), jobs ≠ [] ∧ s.KillsAll 5 0 jobs := by
  obtain ⟨s, hr, hP⟩ := exists_run plainConfig anyInput started
    (fun s => (s.activeJobs.all fun p => decide (0 < p.pid)) &&
      s.activeJobs.any fun p => decide (Runs 0 p))
    [(world 1, .accept 5 1000), (world 2, .message 0 (.newjob {})), (world 3, .schedule),
      (world 4, .message 0 (.runjobOk none 77))]
    (by simp [world]) (by decide +kernel)
  rw [Bool.and_eq_true, List.all_eq_true, List.any_eq_true] at hP
  obtain ⟨hpos, p, hp, hrun⟩ := hP
  obtain ⟨jobs, hjobs⟩ := (kill_all_iff fresh_started hr 5 0).2
    fun p hp _ => of_decide_eq_true (hpos p hp)
  have hpid : 0 < p.pid := of_decide_eq_true (hpos p hp)
  have hmem := hjobs.complete p hp (of_decide_eq_true hrun) hpid.ne'
  exact ⟨s, jobs, List.ne_nil_of_mem hmem, hjobs⟩

/-- A job has been dispatched and has not reported its pid: its pid is sent as zero. -/
theorem dispatched_job_without_pid : ¬∀ (C : Config) (s₀ s : Server) (socket : ℤ) (user : ℕ),
    s₀.Fresh → Run (Step C) anyInput s₀ s → ∃ jobs, s.KillsAll socket user jobs := by
  intro hall
  obtain ⟨s, hr, hP⟩ := exists_run plainConfig anyInput started
    (fun s => s.activeJobs.any fun p => decide (Runs 0 p) && decide (p.pid = 0))
    [(world 1, .accept 5 1000), (world 2, .message 0 (.newjob {})), (world 3, .schedule)]
    (by simp [world]) (by decide +kernel)
  obtain ⟨p, hp, hzero⟩ := List.any_eq_true.1 hP
  rw [Bool.and_eq_true, decide_eq_true_iff, decide_eq_true_iff] at hzero
  obtain ⟨jobs, hjobs⟩ := hall _ _ _ 5 0 fresh_started hr
  have hpos := pos_of_killsAll hjobs hp hzero.1
  rw [hzero.2] at hpos
  exact absurd hpos (Int.lt_irrefl 0)

end Server

end TaskSpooler
