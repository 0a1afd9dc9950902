import TaskSpooler.Jobs.Restore

/-!
# The seed of the job ids (`init_jobids_DB`)

At its start the server asks both tables for their largest id, so that no id is given twice.  Both
answers go to one variable through `callback`, and the second one overwrites the first: the seed is
compared with the ids in `Finished` only.  `seed_clears_iff` says when the counter is beyond the ids
in `Jobs` all the same.

The ids are taken to be smaller than `INT_MAX`, so that `max_id + 1` is an `int`.
-/

namespace TaskSpooler

namespace Spool

variable (s : Spool)

/-- The value of `SELECT MAX(jobid)`, which is `NULL` for an empty table. -/
def selectMax (t : Table) : Option ℤ := (t.rows.map fun r => r.job.jobid).max?

/-- `callback`: what is in the variable after the row. -/
def maxCallback (argv : Option ℤ) (_maxId : ℤ) : ℤ := argv.getD 0

/-- `init_jobids_DB`, with the value it returns. -/
def initJobidsDB (value : ℤ) : Spool × ℤ :=
  let maxId := 0
  let maxId := maxCallback (selectMax s.dbJobs) maxId
  let maxId := maxCallback (selectMax s.dbFinished) maxId
  let value :=
    if value ≤ 0 then (if 0 < maxId then maxId + 1 else 1000)
    else if value ≤ maxId then maxId + 1
    else value
  -- `INSERT OR REPLACE INTO Global`
  ({ s with dbJobids := value }, value)

/-- `s_init_jobids`. -/
def sInitJobids (i : ℤ) : Spool :=
  let (s, actual) := s.initJobidsDB i
  { s with jobids := if 0 < actual then actual else if 0 < i then i else 1000 }

variable {s} {t : Table} {value : ℤ}

/-! ### The largest id -/

theorem le_selectMax {r : Row} (h : r ∈ t.rows) : r.job.jobid ≤ (selectMax t).getD 0 := by
  have hmem : r.job.jobid ∈ t.rows.map fun r => r.job.jobid := List.mem_map_of_mem h
  cases hmax : selectMax t with
  | none =>
    rw [selectMax, List.max?_eq_none_iff] at hmax
    rw [hmax] at hmem
    cases hmem
  | some m => exact (List.max?_le_iff hmax).1 le_rfl _ hmem

/-- The largest id is that of a row, or it is zero and there is no row. -/
theorem selectMax_cases (t : Table) :
    (∃ r ∈ t.rows, (selectMax t).getD 0 = r.job.jobid) ∨
      (t.rows = [] ∧ (selectMax t).getD 0 = 0) := by
  cases hmax : selectMax t with
  | none =>
    rw [selectMax, List.max?_eq_none_iff, List.map_eq_nil_iff] at hmax
    exact Or.inr ⟨hmax, rfl⟩
  | some m =>
    obtain ⟨r, hr, hm⟩ := List.mem_map.1 (List.max?_mem hmax)
    exact Or.inl ⟨r, hr, hm.symm⟩

/-! ### The counter -/

/-- The value is that of the start of the server. -/
theorem initJobidsDB_eq :
    s.initJobidsDB value = ({ s with dbJobids := s.initJobidsDb value }, s.initJobidsDb value) :=
  rfl

/-- What comes out of the three cases of the seed. -/
theorem initJobidsDb_cases (s : Spool) (value : ℤ) :
    let maxId := (selectMax s.dbFinished).getD 0
    (value ≤ 0 ∧ 0 < maxId ∧ s.initJobidsDb value = maxId + 1) ∨
      (value ≤ 0 ∧ maxId ≤ 0 ∧ s.initJobidsDb value = 1000) ∨
      (0 < value ∧ value ≤ maxId ∧ s.initJobidsDb value = maxId + 1) ∨
      (0 < value ∧ maxId < value ∧ s.initJobidsDb value = value) := by
  intro maxId
  have hdef : s.initJobidsDb value =
      if value ≤ 0 then (if 0 < maxId then maxId + 1 else 1000)
      else if value ≤ maxId then maxId + 1 else value := rfl
  rw [hdef]
  split_ifs <;> omega

theorem initJobidsDb_pos : 0 < s.initJobidsDb value := by
  have hcases := initJobidsDb_cases s value
  dsimp only at hcases
  omega

/-- The counter is the value in `Global`. -/
theorem sInitJobids_eq : s.sInitJobids value =
    { s with dbJobids := s.initJobidsDb value, jobids := s.initJobidsDb value } := by
  rw [sInitJobids, initJobidsDB_eq]
  simp only [if_pos initJobidsDb_pos]

/-- A server that finds no counter in the database begins with the seed of its environment. -/
theorem initJobids_eq (e : Env) (h : ¬ 0 < s.dbJobids) :
    s.initJobids e = s.sInitJobids e.tsFirstJobid := by
  rw [sInitJobids_eq, initJobids, if_neg h]

/-- The ids in `Finished` are smaller than the value in every case. -/
theorem finished_lt_initJobidsDb {r : Row} (h : r ∈ s.dbFinished.rows) :
    r.job.jobid < s.initJobidsDb value := by
  have hle := le_selectMax h
  have hcases := initJobidsDb_cases s value
  dsimp only at hcases
  omega

/-- What the comment above `init_jobids_DB` promises: the value that is returned, written to `Global`
and taken as the counter is greater than the ids in both tables, and it is the seed if the seed was
good. -/
structure SeedClears (s : Spool) (value : ℤ) : Prop where
  jobs : ∀ r ∈ s.dbJobs.rows, r.job.jobid < (s.initJobidsDB value).2
  finished : ∀ r ∈ s.dbFinished.rows, r.job.jobid < (s.initJobidsDB value).2
  seed : 0 < value → (∀ r ∈ s.dbJobs.rows, r.job.jobid < value) →
    (∀ r ∈ s.dbFinished.rows, r.job.jobid < value) → (s.initJobidsDB value).2 = value
  stored : (s.initJobidsDB value).1 = { s with dbJobids := (s.initJobidsDB value).2 }
  counter : (s.sInitJobids value).jobids = (s.initJobidsDB value).2

/-- A job of `Jobs` that `init_jobids_DB` cannot run into although it does not look at it: one in
`Finished` has the same id or a greater one, or the seed is greater, or the server begins with 1000. -/
def Passed (s : Spool) (value jobid : ℤ) : Prop :=
  (∃ r ∈ s.dbFinished.rows, jobid ≤ r.job.jobid) ∨ (0 < value ∧ jobid < value) ∨
    (value ≤ 0 ∧ (∀ r ∈ s.dbFinished.rows, r.job.jobid ≤ 0) ∧ jobid < 1000)

theorem lt_initJobidsDb_iff (jobid : ℤ) :
    jobid < s.initJobidsDb value ↔ Passed s value jobid := by
  have hcases := initJobidsDb_cases s value
  dsimp only at hcases
  constructor
  · intro hlt
    by_cases hle : ∃ r ∈ s.dbFinished.rows, jobid ≤ r.job.jobid
    · exact Or.inl hle
    · push Not at hle
      -- the largest id in `Finished` is smaller than this one, or there is none
      have hmax : (selectMax s.dbFinished).getD 0 < jobid ∨ (selectMax s.dbFinished).getD 0 = 0 := by
        obtain ⟨r, hr, hm⟩ | ⟨-, hm⟩ := selectMax_cases s.dbFinished
        · exact Or.inl (by rw [hm]; exact hle r hr)
        · exact Or.inr hm
      by_cases hvalue : 0 < value
      · exact Or.inr (Or.inl ⟨hvalue, by omega⟩)
      · refine Or.inr (Or.inr ⟨by omega, fun r hr => ?_, by omega⟩)
        have hr' := le_selectMax hr
        omega
  · rintro (⟨r, hr, hle⟩ | ⟨hvalue, hlt⟩ | ⟨hvalue, hfinished, hlt⟩)
    · have hr' := le_selectMax hr
      omega
    · omega
    · have hmax : (selectMax s.dbFinished).getD 0 ≤ 0 := by
        obtain ⟨r, hr, hm⟩ | ⟨-, hm⟩ := selectMax_cases s.dbFinished
        · exact hm.trans_le (hfinished r hr)
        · exact hm.le
      omega

/-- **When the seed clears both tables**: exactly if no job of `Jobs` has an id that is greater than
all of those in `Finished` and not below the seed, where 1000 counts as the seed if there is none and
no finished job. -/
theorem seed_clears_iff (s : Spool) (value : ℤ) :
    SeedClears s value ↔ ∀ r ∈ s.dbJobs.rows, Passed s value r.job.jobid := by
  constructor
  · intro h r hr
    exact (lt_initJobidsDb_iff _).1 (h.jobs r hr)
  · intro h
    refine ⟨fun r hr => (lt_initJobidsDb_iff _).2 (h r hr), fun r hr => finished_lt_initJobidsDb hr,
      fun hvalue _ hfinished => ?_, rfl, ?_⟩
    · have hcases := initJobidsDb_cases s value
      dsimp only at hcases
      show s.initJobidsDb value = value
      obtain ⟨r, hr, hm⟩ | ⟨-, hm⟩ := selectMax_cases s.dbFinished
      · have hlt := hfinished r hr
        omega
      · omega
    · rw [sInitJobids_eq]
      rfl

/-- A queued job with the id 2000 and no finished job: the server begins with 1000, and gives the id
2000 again. -/
theorem queued_id_not_cleared :
    ¬ SeedClears { dbJobs := { rows := [⟨{ jobid := 2000 }, 0, 0⟩] } } 1000 := by
  intro h
  have hlt := h.jobs ⟨{ jobid := 2000 }, 0, 0⟩ (by simp)
  revert hlt
  decide

end Spool

end TaskSpooler
