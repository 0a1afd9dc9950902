import TaskSpooler.Safety.Dispatch
import TaskSpooler.Sched.Recount

/-!
# Starting on an earlier database

A new process looks up the owner of every job it reads, by the process of the job or by the uid
that was saved.  `s_add_job` puts a job back whether or not there is one, and the first recount uses
him.  So the start completes exactly if no job without an owner is left to be counted
(`startup_completes_iff`): a paused job whose process has died is finished before that.  A job of a
user who has been taken out of the user file brings the server down (`removed_user_crashes`).
-/

namespace TaskSpooler

namespace Spool

variable {e : Env} {s s' s₀ : Spool} {r : Row} {l : List Row} {p : Job} {jobid : ℤ}

/-! ### The jobs that are read -/

/-- The record that `s_add_job` puts back for a row, if it does. -/
def restoredJob (e : Env) (s : Spool) (r : Row) : Option Job :=
  (restoredState e r.job).map fun st =>
    { s.readDb e r true with
      state := st
      info := if r.job.state = .pause ∧ r.job.info.pauseTime = 0 then
          { (s.readDb e r true).info with pauseTime := e.now }
        else (s.readDb e r true).info }

theorem activeJobs_sAddJob : (s.sAddJob e (s.readDb e r true)).activeJobs =
    s.activeJobs ++ (restoredJob e s r).toList := by
  have hread : restoredState e (s.readDb e r true) = restoredState e r.job := rfl
  rw [sAddJob, restoredJob, hread]
  cases hst : restoredState e r.job with
  | none =>
    dsimp only
    split_ifs <;> simp [deleteJobsDb]
  | some st =>
    have hcount : (if (s.readDb e r true).state = .queued ∨ (s.readDb e r true).state = .locked then
        s.onQueue fun q => q.countQueued (s.readDb e r true).user else s).activeJobs =
          s.activeJobs := by
      split_ifs
      · exact Queue.activeJobs_modUser
      · rfl
    exact congrArg (· ++ _) hcount

theorem findUserByUid_sAddJob {j : Job} {uid : ℕ} :
    (s.sAddJob e j).findUserByUid uid = s.findUserByUid uid := by
  have hcount : (s.countQueued j.user).findUserByUid uid = s.findUserByUid uid := by
    have hn : (s.countQueued j.user).nusers = s.nusers := by cases j.user <;> rfl
    rw [Queue.findUserByUid, Queue.findUserByUid, hn]
    congr 1
    funext i
    rw [(countQueued_keeps i).1]
  rw [sAddJob]
  split
  · split_ifs <;> rfl
  · dsimp only
    split_ifs
    all_goals first
      | exact hcount
      | rfl

theorem readDb_congr {jobs : Bool} (h : ∀ uid, s'.findUserByUid uid = s.findUserByUid uid) :
    s'.readDb e r jobs = s.readDb e r jobs := by
  have hfun : s'.findUserByUid = s.findUserByUid := funext h
  simp only [readDb, restoredUser, getUserByPid, hfun]

theorem activeJobs_readJobs :
    (l.foldl (fun s r => s.sAddJob e (s.readDb e r true)) s).activeJobs =
      s.activeJobs ++ l.filterMap (restoredJob e s) := by
  induction l generalizing s with
  | nil => simp
  | cons r l ih =>
    have hsame : restoredJob e (s.sAddJob e (s.readDb e r true)) = restoredJob e s := by
      funext r'
      simp only [restoredJob, readDb_congr fun _ => findUserByUid_sAddJob]
    rw [List.foldl_cons, ih, hsame, activeJobs_sAddJob, List.append_assoc, List.filterMap_cons]
    cases restoredJob e s r <;> rfl

/-- **The active jobs of a new process.** -/
theorem activeJobs_reload : (s₀.reload e).activeJobs =
    (rowsInOrder e s₀.dbJobs).filterMap (restoredJob e (opened e s₀)) := by
  have hs : Started s₀ (opened e s₀) := started_opened
  have hfin : ∀ (l : List Row) (s : Spool), (l.foldl (fun s r => s.onQueue fun q =>
      { q with finishedJobs := q.finishedJobs ++ [s.readDb e r false] }) s).activeJobs =
        s.activeJobs := by
    intro l
    induction l with
    | nil => exact fun _ => rfl
    | cons r l ih => exact fun s => (ih _).trans rfl
  rw [reload_eq, sReadSqlite, hfin, activeJobs_readJobs, hs.activeJobs, hs.dbJobs, List.nil_append]

end Spool

namespace Spool

variable {e : Env} {s s' s₀ : Spool} {p : Job}

/-! ### The start -/

theorem covered_reload : (s₀.reload e).view.Covered := by
  have hrel : Reloaded e s₀ (s₀.reload e) := reload_reloaded
  have hzero : ∀ p ∈ (s₀.reload e).view.activeJobs, Queue.freedSlots p = 0 := by
    intro p' hp'
    obtain ⟨p, hp, rfl⟩ := List.mem_map.1 hp'
    obtain ⟨r, -, hfrom⟩ := hrel.restored p hp
    exact if_pos hfrom.numAllocated
  refine ⟨hrel.ids, fun p hp => (hzero p hp).ge, ?_⟩
  have hsum : (s₀.reload e).view.freed = 0 := by
    refine List.sum_eq_zero fun x hx => ?_
    obtain ⟨p, hp, rfl⟩ := List.mem_map.1 hx
    exact hzero p hp
  exact hsum.trans_le hrel.busySlots.ge

/-- The row is read back as a job without an owner, and the sweep does not take it away: it is not a
paused job whose process has died. -/
def Orphan (e : Env) (s₀ : Spool) (r : Row) : Prop :=
  restoredState e r.job ≠ none ∧ (opened e s₀).restoredUser e r true = none ∧
    ¬(r.job.state = .pause ∧ 0 < r.job.pid ∧ e.alive r.job.pid = false)

theorem orphan_restoredJob {r : Row} (h : restoredJob e (opened e s₀) r = some p) :
    p.user = none ∧ ¬isDead e p ↔ Orphan e s₀ r := by
  rw [restoredJob, Option.map_eq_some_iff] at h
  obtain ⟨st, hst, rfl⟩ := h
  rw [Orphan, hst]
  simp only [isDead, decide_eq_true_eq, ne_eq, reduceCtorEq, not_false_eq_true, true_and]
  refine and_congr Iff.rfl (not_congr ?_)
  show ((st = .running ∨ st = .pause ∨ st = .abnormal) ∧ 0 < r.job.pid ∧ e.alive r.job.pid = false) ↔ _
  obtain ⟨hj, rfl⟩ | ⟨hrun, hpid, halive, rfl⟩ := restoredState_some hst
  · obtain hj | hj | hj := hj <;> simp [hj]
  · simp [hrun, halive]

/-- **The start on an earlier database completes, with an owner for every job, exactly if no row is
an orphan.** -/
theorem startup_completes_iff (e : Env) (s₀ : Spool) :
    (∃ s', (s₀.reload e).sUpdateSlotsUsage e = .ok s' ∧
      ∀ p ∈ s'.activeJobs, ∃ u < s'.nusers, p.user = some u) ↔
    ∀ r ∈ s₀.dbJobs.rows, ¬Orphan e s₀ r := by
  have hiff : (s₀.reload e).view.orphans e = 0 ↔ ∀ r ∈ s₀.dbJobs.rows, ¬Orphan e s₀ r := by
    rw [View.orphans_eq_zero]
    constructor
    · intro h r hr hor
      obtain ⟨st, hst⟩ := Option.ne_none_iff_exists'.1 hor.1
      obtain ⟨p, hp⟩ : ∃ p, restoredJob e (opened e s₀) r = some p := by
        rw [restoredJob, hst]
        exact ⟨_, rfl⟩
      obtain ⟨huser, hdead⟩ := (orphan_restoredJob hp).2 hor
      refine hdead (h p.strip (List.mem_map_of_mem ?_) huser)
      rw [activeJobs_reload]
      exact List.mem_filterMap.2 ⟨r, (e.Q.perm _ _).mem_iff.2 hr, hp⟩
    · intro h p' hp' huser
      obtain ⟨p, hp, rfl⟩ := List.mem_map.1 hp'
      rw [activeJobs_reload] at hp
      obtain ⟨r, hr, hfrom⟩ := List.mem_filterMap.1 hp
      by_contra hdead
      exact h r ((e.Q.perm _ _).mem_iff.1 hr) ((orphan_restoredJob hfrom).1 ⟨huser, hdead⟩)
  rw [← hiff, ← sUpdateSlotsUsage_ok_iff covered_reload]
  constructor
  · rintro ⟨s', h, -⟩
    exact ⟨s', h⟩
  · rintro ⟨s', h⟩
    have hq := queued_of_usage (sUpdateSlotsUsage_usage reload_reloaded.ids h)
    exact ⟨s', h, fun p hp => hq.owner p.strip (List.mem_map_of_mem hp)⟩

end Spool

namespace Server

/-- The world after the user 1000 has been taken out of the user file. -/
def emptyWorld (now : ℤ) : Env := { world now with userFile := [] }

/-- A user submits a job and is taken out of the user file; the next start uses a null pointer. -/
theorem removed_user_crashes : ¬∀ (C : Config) (s₀ s : Server) (e : Env), s₀.Fresh →
    Run (Step C) anyInput s₀ s → e.toConfig = C →
    ∃ s', (s.reload e).sUpdateSlotsUsage e = .ok s' ∧
      ∀ p ∈ s'.activeJobs, ∃ u < s'.nusers, p.user = some u := by
  intro hall
  obtain ⟨s, hr, hP⟩ := exists_run plainConfig anyInput started
    (fun s => match (s.reload (emptyWorld 3)).sUpdateSlotsUsage (emptyWorld 3) with
      | .ok _ => false
      | .error err => err = .nullPointer)
    [(world 1, .accept 5 1000), (world 2, .message 0 (.newjob {}))]
    (by simp [world]) (by decide +kernel)
  obtain ⟨s', h, -⟩ := hall _ _ s (emptyWorld 3) fresh_started hr rfl
  rw [h] at hP
  cases hP

end Server

end TaskSpooler
