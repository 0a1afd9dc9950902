import TaskSpooler.Store.Entries

/-!
# Putting a job first

`s_move_urgent` resolves the id `-1` to the last job of the queue, and then looks for the job with
the id that was asked for once more.  So an active job is put first if it is asked for by its id
(`sMoveUrgent_iff`), but `-1` is refused (`last_job_not_urged`).
-/

namespace TaskSpooler

namespace Spool

variable {s : Spool} {p : Job} {jobid socket : ℤ}

/-- The job that `URGENT` asks for. -/
def urgentJob (s : Spool) (jobid : ℤ) : Option Job :=
  if jobid = -1 then s.activeJobs.getLast? else s.findjob jobid

/-- The job is first in the queue, the others follow as before, and its row is before theirs. -/
structure PutsFirst (s s' : Spool) (socket : ℤ) (p : Job) : Prop where
  answer : s'.sent = (socket, .urgentOk) :: s.sent
  queue : s'.activeJobs = p :: s.activeJobs.filter fun p' => p'.jobid ≠ p.jobid
  row : ∀ n, s'.dbJobs.order p.jobid = some n →
    ∀ k ≠ p.jobid, ∀ n', s'.dbJobs.order k = some n' → n < n'
  others : ∀ k ≠ p.jobid, s'.dbJobs.order k = s.dbJobs.order k

/-- What the request should do. -/
def Urges (s s' : Spool) (socket jobid : ℤ) : Prop :=
  match s.urgentJob jobid with
  | some p => s.PutsFirst s' socket p
  | none => s'.toQueue = s.toQueue ∧ s'.dbJobs = s.dbJobs

theorem sMoveUrgent_of_none (h : s.findjob jobid = none) : s.sMoveUrgent socket jobid =
    s.sendLine socket s!"The job {jobid} cannot be urged.\n" := by
  rw [sMoveUrgent, h]

/-- **A job that is asked for by its id is put first.** -/
theorem putsFirst_of_findjob (hnd : (s.activeJobs.map Job.jobid).Nodup)
    (hp : s.findjob jobid = some p) : s.PutsFirst (s.sMoveUrgent socket jobid) socket p := by
  obtain rfl := findjob_jobid hp
  have hs' : s.sMoveUrgent socket p.jobid =
      ((s.onQueue fun q => { q with
        activeJobs := p :: Keyed.remove Job.jobid p.jobid q.activeJobs }).movetopDb p.jobid).send
        socket .urgentOk := by
    rw [sMoveUrgent, hp]
  have horder : ∀ k, (s.sMoveUrgent socket p.jobid).dbJobs.order k =
      (s.dbJobs.order k).map fun m => if k = p.jobid then s.minOrderId - 1 else m := by
    intro k
    rw [hs']
    exact congrFun Table.order_setOrder k
  have hothers : ∀ k ≠ p.jobid, (s.sMoveUrgent socket p.jobid).dbJobs.order k = s.dbJobs.order k := by
    intro k hk
    rw [horder]
    simp only [if_neg hk, Option.map_id_fun', id]
  refine ⟨?_, ?_, fun n hn k hk n' hn' => ?_, hothers⟩
  · rw [hs']
    rfl
  · rw [hs']
    exact congrArg (p :: ·) (Keyed.remove_eq_filter hnd)
  · rw [hothers k hk] at hn'
    rw [horder] at hn
    obtain ⟨m, -, rfl⟩ := Option.map_eq_some_iff.1 hn
    have hle : s.minOrderId ≤ n' := Table.min_le hn'
    rw [if_pos rfl]
    omega

/-- **When an urgent job is put first.**  `s_move_urgent` does what it should exactly if the id is
not `-1`, or there is no job, or the last job has the id `-1`. -/
theorem sMoveUrgent_iff (hnd : (s.activeJobs.map Job.jobid).Nodup) (socket jobid : ℤ) :
    s.Urges (s.sMoveUrgent socket jobid) socket jobid ↔
      (jobid = -1 → ∀ p ∈ s.activeJobs.getLast?, p.jobid = -1) := by
  have hnone : ∀ jobid, s.findjob jobid = none →
      (s.sMoveUrgent socket jobid).toQueue = s.toQueue ∧
      (s.sMoveUrgent socket jobid).dbJobs = s.dbJobs := by
    intro jobid h
    rw [sMoveUrgent_of_none h]
    exact ⟨rfl, rfl⟩
  rw [Urges, urgentJob]
  by_cases hid : jobid = -1
  · subst hid
    rw [if_pos rfl]
    cases hlast : s.activeJobs.getLast? with
    | none =>
      have hnil := List.getLast?_eq_none_iff.1 hlast
      refine iff_of_true (hnone _ ?_) fun _ p hp => by cases hp
      rw [Queue.findjob, hnil]
      rfl
    | some p =>
      have hmem := List.mem_of_getLast? hlast
      constructor
      · rintro h - p' hp'
        obtain rfl := Option.some.inj hp'
        cases hfind : s.findjob (-1) with
        | none =>
          have hsent := h.answer
          rw [sMoveUrgent_of_none hfind] at hsent
          exact absurd (Prod.mk.inj (List.cons.inj hsent).1).2 (by simp)
        | some p₁ =>
          have hqueue := h.queue.symm.trans (putsFirst_of_findjob hnd hfind).queue
          rw [(List.cons.inj hqueue).1]
          exact findjob_jobid hfind
      · intro h
        have hpid := h rfl p rfl
        refine putsFirst_of_findjob hnd ?_
        rw [← hpid]
        exact Keyed.lookup_of_mem hnd hmem
  · rw [if_neg hid]
    refine iff_of_true ?_ fun h => absurd h hid
    cases hfind : s.findjob jobid with
    | none => exact hnone jobid hfind
    | some p => exact putsFirst_of_findjob hnd hfind

/-- Three jobs in the queue. -/
def threeJobs : Spool := { activeJobs := [{ jobid := 1000 }, { jobid := 1001 }, { jobid := 1002 }] }

/-- The second of three jobs is put first. -/
theorem second_job_urged : threeJobs.Urges (threeJobs.sMoveUrgent 5 1001) 5 1001 ↔
    ((1001 : ℤ) = -1 → ∀ p ∈ threeJobs.activeJobs.getLast?, p.jobid = -1) :=
  sMoveUrgent_iff (by decide) 5 1001

/-- `ts -u` without an id is refused. -/
theorem last_job_not_urged : ¬∀ (s : Spool) (socket jobid : ℤ),
    (s.activeJobs.map Job.jobid).Nodup → s.Urges (s.sMoveUrgent socket jobid) socket jobid := by
  intro hall
  have hlast : threeJobs.urgentJob (-1) = some { jobid := 1002 } := by
    rw [urgentJob, if_pos rfl]
    rfl
  have hurges := hall threeJobs 5 (-1) (by decide)
  rw [Urges, hlast] at hurges
  have hqueue := congrArg (fun l => (l.map Job.jobid).head?) hurges.queue
  rw [sMoveUrgent_of_none rfl] at hqueue
  exact absurd hqueue (by decide)

end Spool

end TaskSpooler
