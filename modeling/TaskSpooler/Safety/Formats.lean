import TaskSpooler.Server.Runs

/-!
# The three formats of a list

`LIST_ALL` goes through the same jobs in every format, with renderers of its own: two for the table
(`print_noresult`, `print_result`), two for the tab-separated text (`plainprint_noresult`,
`plainprint_result`) and one for the JSON array.  They look the owner of a job up in different ways.
The plain renderers use `USER(p->user)`; the macro expects the index of a user and gets the address of
one, so `vec_get` returns a null pointer.  `plainprint_result` measures the name behind it, and
`plainprint_noresult` hands it to `snprintf`.

* `default_json_agree`: the table and the array always agree.
* `formats_agree_iff`: the tab-separated text agrees with them only if there is nothing to list.
-/

namespace TaskSpooler

/-- What a line says about its job.  The owner is `none` where there is no name: `null` in the array,
a null pointer in the text. -/
structure Line where
  jobid : ℤ
  owner : Option String
  slots : ℤ
  deriving DecidableEq, Repr

namespace Spool

variable (s : Spool) (addr : ℕ → ℕ)

/-! ### The renderers -/

/-- `vec_get(&users_vec, index)`. -/
def usersVecGet (index : ℕ) : Option User := if index < s.nusers then some (s.users index) else none

/-- `USER(p->user)`, with the address of the user as the index. -/
def userMacro (p : Job) : Option User := s.usersVecGet (p.user.elim 0 addr)

/-- `(p->user != NULL) ? p->user->name : "???"`. -/
def uname (p : Job) : String := p.user.elim "???" fun u => (s.users u).name

/-- `print_noresult`. -/
def printNoresult (p : Job) : Line := { jobid := p.jobid, owner := s.uname p, slots := p.numSlots }

/-- `print_result`. -/
def printResult (p : Job) : Line := { jobid := p.jobid, owner := s.uname p, slots := p.numSlots }

/-- `plainprint_noresult`. -/
def plainprintNoresult (p : Job) : Line where
  jobid := p.jobid
  owner := (s.userMacro addr p).map User.name
  slots := p.numSlots

/-- `plainprint_result`: `strlen` of a null pointer is the end of the server. -/
def plainprintResult (p : Job) : Except Fatal Line :=
  match s.userMacro addr p with
  | none => .error .nullPointer
  | some u => .ok { jobid := p.jobid, owner := some u.name, slots := p.numSlots }

/-- `joblist_line`. -/
def joblistLine (p : Job) : Line :=
  if p.state = .finished then s.printResult p else s.printNoresult p

/-- `joblist_line_plain`. -/
def joblistLinePlain (p : Job) : Except Fatal Line :=
  if p.state = .finished then s.plainprintResult addr p else .ok (s.plainprintNoresult addr p)

/-- `add_job_to_json_array`. -/
def addJobToJsonArray (p : Job) : Line where
  jobid := p.jobid
  owner := p.user.map fun u => (s.users u).name
  slots := p.numSlots

/-! ### The lists -/

/-- The jobs of the JSON array. -/
def jsonJobs (jobid : ℤ) : List Job :=
  if 0 < jobid then
    match s.findjob jobid with
    | some p => [p].filter fun p => p.state ≠ .holdingClient
    | none => (s.findFinishedJob jobid).toList
  else s.listedJobs

/-- What `s_list` does for all users, behind the recount. -/
def listLines (format : ListFormat) (jobid : ℤ) : Except Fatal (List Line) :=
  match format with
  | .default => .ok (s.listedJobs.map s.joblistLine)
  | .json => .ok ((s.jsonJobs jobid).map s.addJobToJsonArray)
  | .tab => s.listedJobs.mapM (s.joblistLinePlain addr)

/-- The line that a job should have. -/
def jobLine (p : Job) : Line where
  jobid := p.jobid
  owner := p.user.map fun u => (s.users u).name
  slots := p.numSlots

/-- The request completes in every format, with a line for every job of the queue but the held
clients, and then for every finished job. -/
def FormatsAgree (e : Env) (jobid : ℤ) : Prop :=
  ∃ s', s.sUpdateSlotsUsage e = .ok s' ∧
    ∀ format, s'.listLines addr format jobid = .ok (s'.listedJobs.map s'.jobLine)

variable {s addr} {e : Env} {p : Job} {jobid : ℤ} {l : List Job}

/-! ### The table and the array -/

theorem joblistLine_eq (h : p.user ≠ none) : s.joblistLine p = s.jobLine p := by
  obtain ⟨u, hu⟩ := Option.ne_none_iff_exists'.1 h
  rw [joblistLine, printResult, printNoresult, uname, jobLine, hu]
  split_ifs <;> rfl

/-- **The table and the array agree**, whatever the jobs are, if every job has an owner. -/
theorem default_json_agree (hjobid : jobid ≤ 0) (h : ∀ p ∈ s.listedJobs, p.user ≠ none) :
    s.listLines addr .default jobid = .ok (s.listedJobs.map s.jobLine) ∧
      s.listLines addr .json jobid = .ok (s.listedJobs.map s.jobLine) := by
  constructor
  · rw [listLines, List.map_congr_left fun p hp => joblistLine_eq (h p hp)]
  · rw [listLines, jsonJobs, if_neg (not_lt.2 hjobid)]
    rfl

/-! ### The text -/

/-- An address is no index of a user. -/
theorem userMacro_none (haddr : ∀ u, s.nusers ≤ addr u) (h : p.user ≠ none) :
    s.userMacro addr p = none := by
  obtain ⟨u, hu⟩ := Option.ne_none_iff_exists'.1 h
  rw [userMacro, usersVecGet, hu, Option.elim_some]
  exact if_neg (not_lt.2 (haddr u))

/-- The text stops at a job that is over, and leaves out the name of any other. -/
theorem joblistLinePlain_ne (haddr : ∀ u, s.nusers ≤ addr u) (h : p.user ≠ none) :
    s.joblistLinePlain addr p ≠ .ok (s.jobLine p) := by
  obtain ⟨u, hu⟩ := Option.ne_none_iff_exists'.1 h
  have hmacro := userMacro_none haddr h
  rw [joblistLinePlain]
  split_ifs
  · rw [plainprintResult, hmacro]
    intro hok
    cases hok
  · intro hok
    have howner := congrArg Line.owner (Except.ok.inj hok)
    rw [plainprintNoresult, jobLine, hmacro, hu] at howner
    cases howner

theorem mapM_joblistLinePlain_ne {rest : List Line} (h : s.joblistLinePlain addr p ≠ .ok (s.jobLine p)) :
    (p :: l).mapM (s.joblistLinePlain addr) ≠ .ok (s.jobLine p :: rest) := by
  rw [List.mapM_cons]
  intro hok
  obtain ⟨line, hline, hok⟩ := Except.bind_eq_ok.1 hok
  obtain ⟨lines, -, hok⟩ := Except.bind_eq_ok.1 hok
  obtain ⟨rfl, -⟩ := List.cons.inj (Except.ok.inj hok)
  exact h hline

theorem jsonJobs_of_nil (h : s.listedJobs = []) : s.jsonJobs jobid = [] := by
  obtain ⟨hactive, hfinished⟩ := List.append_eq_nil_iff.1 h
  rw [jsonJobs]
  split_ifs
  · cases hp : s.findjob jobid with
    | none =>
      dsimp only
      rw [Queue.findFinishedJob, hfinished]
      rfl
    | some p =>
      dsimp only
      rw [List.filter_eq_nil_iff]
      intro q hq
      obtain rfl := List.mem_singleton.1 hq
      exact List.filter_eq_nil_iff.1 hactive q (Keyed.mem_of_lookup hp)
  · exact h

/-- What `s_list` does behind the recount is the same in every format exactly if there is nothing to
list. -/
theorem listLines_iff (haddr : ∀ u, s.nusers ≤ addr u) :
    (∀ format, s.listLines addr format jobid = .ok (s.listedJobs.map s.jobLine)) ↔
      s.listedJobs = [] := by
  constructor
  · intro h
    cases hl : s.listedJobs with
    | nil => rfl
    | cons p l =>
      have hdefault : Except.ok (s.listedJobs.map s.joblistLine) = .ok (s.listedJobs.map s.jobLine) :=
        h .default
      have htab : s.listedJobs.mapM (s.joblistLinePlain addr) = .ok (s.listedJobs.map s.jobLine) :=
        h .tab
      rw [hl] at hdefault htab
      -- without an owner the table has a name that is none
      have howner : p.user ≠ none := by
        intro hnone
        have hline := (List.cons.inj (Except.ok.inj hdefault)).1
        have hname := congrArg Line.owner hline
        rw [joblistLine, printResult, printNoresult, uname, jobLine, hnone] at hname
        split_ifs at hname <;> cases hname
      exact absurd htab (mapM_joblistLinePlain_ne (joblistLinePlain_ne haddr howner))
  · intro hl format
    cases format with
    | default => rw [listLines, hl]; rfl
    | json => rw [listLines, jsonJobs_of_nil hl, hl]; rfl
    | tab => rw [listLines, hl]; rfl

/-- The text is completed where the requests of the server say so: if no job that is listed is over. -/
theorem listLines_tab_ok_iff (haddr : ∀ u, s.nusers ≤ addr u)
    (h : ∀ p ∈ s.listedJobs, p.user ≠ none) :
    (∃ lines, s.listLines addr .tab jobid = .ok lines) ↔
      (s.listedJobs.any fun p => p.state = .finished) = false := by
  rw [listLines]
  generalize s.listedJobs = l at h
  induction l with
  | nil => exact iff_of_true ⟨[], rfl⟩ rfl
  | cons p l ih =>
    have htail := ih fun q hq => h q (List.mem_cons_of_mem p hq)
    have hmacro := userMacro_none haddr (h p (by simp))
    rw [List.mapM_cons, List.any_cons, Bool.or_eq_false_iff, ← htail]
    by_cases hp : p.state = .finished
    · have hline : s.joblistLinePlain addr p = .error .nullPointer := by
        rw [joblistLinePlain, if_pos hp, plainprintResult, hmacro]
      rw [hline]
      refine iff_of_false ?_ fun hbad => by simp [hp] at hbad
      rintro ⟨lines, hok⟩
      cases hok
    · have hline : s.joblistLinePlain addr p = .ok (s.plainprintNoresult addr p) := if_neg hp
      rw [hline]
      constructor
      · rintro ⟨lines, hok⟩
        obtain ⟨line, -, hok⟩ := Except.bind_eq_ok.1 hok
        obtain ⟨lines', hlines, -⟩ := Except.bind_eq_ok.1 hok
        exact ⟨by simpa using hp, lines', hlines⟩
      · rintro ⟨-, lines, hlines⟩
        exact ⟨_ :: lines, Except.bind_eq_ok.2 ⟨_, rfl, Except.bind_eq_ok.2 ⟨lines, hlines, rfl⟩⟩⟩

end Spool

namespace Server

open Spool

variable {C : Config} {ok : Env × Input → Server → Prop} {s₀ s : Server}

/-- **When the three formats agree.**  In every state of a run, exactly if the recount at the
beginning of the request returns and leaves no job to list: the text has no owner for any job. -/
theorem formats_agree_iff (h₀ : s₀.Fresh) (h : Run (Step C) ok s₀ s) (e : Env) (jobid : ℤ)
    (addr : ℕ → ℕ) (haddr : ∀ u, s.nusers ≤ addr u) :
    s.FormatsAgree addr e jobid ↔
      ∃ s', s.sUpdateSlotsUsage e = .ok s' ∧ s'.listedJobs = [] := by
  have hids := (Run.sound h₀.sound h).ids
  have hiff : ∀ s', s.sUpdateSlotsUsage e = .ok s' →
      ((∀ format, s'.listLines addr format jobid = .ok (s'.listedJobs.map s'.jobLine)) ↔
        s'.listedJobs = []) := by
    intro s' hs'
    have hn : s'.nusers = s.nusers := (sUpdateSlotsUsage_usage hids hs').nusers_eq
    exact listLines_iff fun u => hn ▸ haddr u
  constructor
  · rintro ⟨s', hs', hlines⟩
    exact ⟨s', hs', (hiff s' hs').1 hlines⟩
  · rintro ⟨s', hs', hnil⟩
    exact ⟨s', hs', (hiff s' hs').2 hnil⟩

/-- A client is held at a server with room for no job: the job is in no list. -/
theorem held_client_formats_agree : ∃ s : Server, s.activeJobs.map Job.state = [.holdingClient] ∧
    s.FormatsAgree (fun u => 4096 + u) (world 3) 0 := by
  obtain ⟨s, hr, hP⟩ := exists_run plainConfig anyInput
    { started with maxJobs := 1, maxDescriptors := 6 }
    (fun s => decide (s.activeJobs.map Job.state = [.holdingClient] ∧ s.nusers = 2) &&
      (s.sUpdateSlotsUsage (world 3)).toOption.any fun s' => s'.listedJobs = [])
    [(world 1, .accept 5 1000), (world 2, .message 0 (.newjob { waitEnqueuing := true }))]
    (by simp [world]) (by decide +kernel)
  rw [Bool.and_eq_true, decide_eq_true_eq] at hP
  obtain ⟨⟨hheld, husers⟩, hlist⟩ := hP
  have hfresh : Fresh { started with maxJobs := 1, maxDescriptors := 6 } :=
    ⟨rfl, rfl, rfl, rfl, fresh_started.uids, fresh_started.counters, fresh_started.maxSlots, rfl⟩
  refine ⟨s, hheld, (formats_agree_iff hfresh hr (world 3) 0 _ fun u => by omega).2 ?_⟩
  cases hs : s.sUpdateSlotsUsage (world 3) with
  | ok s' =>
    rw [hs] at hlist
    exact ⟨s', rfl, of_decide_eq_true hlist⟩
  | error f =>
    rw [hs] at hlist
    cases hlist

/-- One queued job: its line in the text has no owner. -/
theorem queued_job_without_owner : ¬∀ (C : Config) (s₀ s : Server) (e : Env) (jobid : ℤ)
    (addr : ℕ → ℕ), s₀.Fresh → Run (Step C) anyInput s₀ s → (∀ u, s.nusers ≤ addr u) →
    (∀ p ∈ s.activeJobs ++ s.finishedJobs, p.user ≠ none) → s.FormatsAgree addr e jobid := by
  intro hall
  obtain ⟨s, hr, hP⟩ := exists_run plainConfig anyInput started
    (fun s => ((s.activeJobs ++ s.finishedJobs).all fun p => p.user ≠ none) &&
      (s.sUpdateSlotsUsage (world 3)).toOption.all fun s' => s'.listedJobs ≠ [])
    [(world 1, .accept 5 1000), (world 2, .message 0 (.newjob {}))]
    (by simp [world]) (by decide +kernel)
  rw [Bool.and_eq_true, List.all_eq_true] at hP
  obtain ⟨howner, hlist⟩ := hP
  obtain ⟨s', hs', hlines⟩ := hall _ _ _ (world 3) 0 (fun u => s.nusers + u) fresh_started hr
    (fun u => Nat.le_add_right _ u) fun p hp => of_decide_eq_true (howner p hp)
  have hn : s'.nusers = s.nusers :=
    (sUpdateSlotsUsage_usage (Run.sound fresh_started.sound hr).ids hs').nusers_eq
  rw [hs'] at hlist
  refine of_decide_eq_true hlist ((listLines_iff fun u => ?_).1 hlines)
  rw [hn]
  exact Nat.le_add_right _ u

end Server

end TaskSpooler
