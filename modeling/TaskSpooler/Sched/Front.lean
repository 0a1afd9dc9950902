import TaskSpooler.Sched.Slots

/-!
# The front of the queue

Some requests look at the first job of the queue.  `front` is the id and the state of that job, and
`RunsFirst` says that it runs.

* `Act.front_apply`: if the first job runs, it is first and runs after every move that does not stop
  it and does not reorder the queue.
* `Act.runsFirst_started`, `Act.runsFirst_stopped`, `Act.runsFirst_removed`: when the first job runs
  after the other moves.
-/

namespace TaskSpooler

/-! ### The first job of a list -/

/-- The id and the state of the first job. -/
def front (l : List Job) : Option (ℤ × Jobstate) := l.head?.map fun p => (p.jobid, p.state)

/-- The first job runs. -/
def RunsFirst (l : List Job) : Prop := ∃ k, front l = some (k, .running)

/-- The job with this id is the first one. -/
def StandsFirst (k : ℤ) (l : List Job) : Prop := ∃ st, front l = some (k, st)

/-- The first job runs and has another id. -/
def RunsBefore (k : ℤ) (l : List Job) : Prop := ∃ j ≠ k, front l = some (j, .running)

/-- The jobs but the one with this id. -/
def others (k : ℤ) (l : List Job) : List Job := l.filter fun p => p.jobid ≠ k

/-- The jobs but those with these ids. -/
def staying (ids : List ℤ) (l : List Job) : List Job := l.filter fun p => p.jobid ∉ ids

section Front

variable {l l' : List Job} {p p' : Job} {k : ℤ} {f : Job → Job}

theorem runsFirst_congr (h : front l' = front l) : RunsFirst l' ↔ RunsFirst l := by
  rw [RunsFirst, RunsFirst, h]

theorem front_cons : front (p :: l) = some (p.jobid, p.state) := rfl

theorem runsFirst_iff : RunsFirst l ↔ ∃ p rest, l = p :: rest ∧ p.state = .running := by
  cases l with
  | nil => simp [RunsFirst, front]
  | cons p l =>
    rw [RunsFirst, front_cons]
    constructor
    · rintro ⟨k, hk⟩
      exact ⟨p, l, rfl, congrArg Prod.snd (Option.some.inj hk)⟩
    · rintro ⟨x, rest, heq, hx⟩
      obtain ⟨rfl, -⟩ := List.cons.inj heq
      exact ⟨p.jobid, by rw [hx]⟩

/-- The first job of a list that begins with another one. -/
theorem front_append : front (l ++ l') = (front l).or (front l') := by
  cases l with
  | nil => rfl
  | cons p l => rfl

theorem front_map (hid : ∀ p, (f p).jobid = p.jobid) (hst : ∀ p, (f p).state = p.state) :
    front (l.map f) = front l := by
  cases l with
  | nil => rfl
  | cons p l => rw [List.map_cons, front_cons, front_cons, hid, hst]

theorem front_plain : front (l.map Job.plain) = front l := front_map (fun _ => rfl) fun _ => rfl

theorem front_strip : front (l.map Job.strip) = front l := front_map (fun _ => rfl) fun _ => rfl

theorem others_map (hid : ∀ p, (f p).jobid = p.jobid) : others k (l.map f) = (others k l).map f := by
  rw [others, others, List.filter_map]
  congr 2
  funext p
  simp only [Function.comp_apply, hid]

theorem staying_map {ids : List ℤ} (hid : ∀ p, (f p).jobid = p.jobid) :
    staying ids (l.map f) = (staying ids l).map f := by
  rw [staying, staying, List.filter_map]
  congr 2
  funext p
  simp only [Function.comp_apply, hid]

/-- A job that does not stay is changed. -/
theorem staying_modify {ids : List ℤ} (hk : k ∈ ids) (hid : p'.jobid = k) :
    staying ids (Keyed.modify Job.jobid k (fun _ => p') l) = staying ids l := by
  induction l with
  | nil => rfl
  | cons p l ih =>
    rw [Keyed.modify, List.map_cons]
    by_cases hp : p.jobid = k
    · rw [if_pos hp, staying, staying, List.filter_cons_of_neg (by simp [hid, hk]),
        List.filter_cons_of_neg (by simp [hp, hk])]
      exact ih
    · rw [if_neg hp, staying, staying, List.filter_cons, List.filter_cons]
      exact congrArg (fun r => if decide (p.jobid ∉ ids) = true then p :: r else r) ih

/-- The first job stays first if another one is taken out. -/
theorem front_others {j : ℤ} {st : Jobstate} (h : front l = some (j, st)) (hj : j ≠ k) :
    front (others k l) = some (j, st) := by
  cases l with
  | nil => cases h
  | cons p l =>
    have hp := Option.some.inj h
    have hid : p.jobid = j := congrArg Prod.fst hp
    rw [others, List.filter_cons_of_pos (by simp [hid, hj])]
    exact h

theorem RunsBefore.others (h : RunsBefore k l) : RunsFirst (others k l) := by
  obtain ⟨j, hj, hfront⟩ := h
  exact ⟨j, front_others hfront hj⟩

/-- The job with the id of the first one has its state. -/
theorem state_of_front {st : Jobstate} (h : front l = some (k, st)) (hp : p ∈ l)
    (hnd : (l.map Job.jobid).Nodup) (hid : p.jobid = k) : p.state = st := by
  cases l with
  | nil => cases h
  | cons x l =>
    have hx := Option.some.inj h
    have hxid : x.jobid = k := congrArg Prod.fst hx
    rw [Keyed.eq_of_key hnd hp List.mem_cons_self (hid.trans hxid.symm)]
    exact congrArg Prod.snd hx

/-- A job that does not run is not the one that runs first. -/
theorem RunsFirst.before (h : RunsFirst l) (hp : p ∈ l) (hnd : (l.map Job.jobid).Nodup)
    (hst : p.state ≠ .running) : RunsBefore p.jobid l := by
  obtain ⟨x, rest, rfl, hx⟩ := runsFirst_iff.1 h
  refine ⟨x.jobid, fun hid => hst ?_, by rw [front_cons, hx]⟩
  rw [← Keyed.eq_of_key hnd List.mem_cons_self hp hid]
  exact hx

/-- A job is written to one place of the list. -/
theorem runsFirst_set {i : ℕ} (hi : i < l.length) (hp : i = 0 → p.state = .running)
    (hl : i ≠ 0 → RunsFirst l) : RunsFirst (l.set i p) := by
  cases l with
  | nil => exact absurd hi (Nat.not_lt_zero i)
  | cons x l =>
    cases i with
    | zero => exact runsFirst_iff.2 ⟨p, l, rfl, hp rfl⟩
    | succ i =>
      obtain ⟨y, rest, heq, hy⟩ := runsFirst_iff.1 (hl (Nat.succ_ne_zero i))
      obtain ⟨rfl, -⟩ := List.cons.inj heq
      exact runsFirst_iff.2 ⟨x, _, rfl, hy⟩

/-- Another job takes the place of the one with the id `k`. -/
theorem front_modify (hid : p'.jobid = k) : front (Keyed.modify Job.jobid k (fun _ => p') l) =
    (front l).map fun x => if x.1 = k then (k, p'.state) else x := by
  cases l with
  | nil => rfl
  | cons p l =>
    show some _ = some _
    by_cases hp : p.jobid = k
    · simp only [hp, if_true, hid]
    · simp only [hp, if_false]

theorem remove_eq_others (hnd : (l.map Job.jobid).Nodup) : Keyed.remove Job.jobid k l = others k l :=
  Keyed.remove_eq_filter hnd

end Front

/-! ### The front after a move -/

namespace Act

variable {v : View} {a : Act} {p p' : Job}

theorem front_changed (hids : v.Ids) (hg : a.Guard v) (hold : a.old v = some p)
    (hnew : a.new v = some p') : front (a.apply v).activeJobs =
      (front v.activeJobs).map fun x => if x.1 = p.jobid then (p.jobid, p'.state) else x := by
  rw [← front_plain, ← front_plain (l := v.activeJobs)]
  have hid : p'.jobid = p.jobid := jobid_new hg hold hnew
  exact (congrArg front (plain_changed hids hg hold hnew)).trans (front_modify hid)

/-- A job is started: it runs first if it stands first. -/
theorem runsFirst_started (hids : v.Ids) (hg : a.Guard v) (hold : a.old v = some p)
    (hnew : a.new v = some p') (hst : p'.state = .running) :
    RunsFirst (a.apply v).activeJobs ↔ RunsFirst v.activeJobs ∨ StandsFirst p.jobid v.activeJobs := by
  rw [RunsFirst, RunsFirst, StandsFirst, front_changed hids hg hold hnew, hst]
  cases front v.activeJobs with
  | none => simp
  | some x =>
    obtain ⟨k, st⟩ := x
    by_cases hk : k = p.jobid <;> simp [hk]

/-- A job is stopped: the first job runs if it is another one that does. -/
theorem runsFirst_stopped (hids : v.Ids) (hg : a.Guard v) (hold : a.old v = some p)
    (hnew : a.new v = some p') (hst : p'.state ≠ .running) :
    RunsFirst (a.apply v).activeJobs ↔ RunsBefore p.jobid v.activeJobs := by
  rw [RunsFirst, RunsBefore, front_changed hids hg hold hnew]
  cases front v.activeJobs with
  | none => simp
  | some x =>
    obtain ⟨k, st⟩ := x
    by_cases hk : k = p.jobid
    · simp [hk, hst]
    · simp [hk]

theorem runsFirst_removed (hids : v.Ids) (hg : a.Guard v) (hold : a.old v = some p)
    (hnew : a.new v = none) :
    RunsFirst (a.apply v).activeJobs ↔ RunsFirst (others p.jobid v.activeJobs) := by
  refine runsFirst_congr ?_
  have hnd : (v.plain.map Job.jobid).Nodup := by
    rw [Queue.plain, List.map_map]
    exact hids.nodup
  have hplain : (a.apply v).plain = (others p.jobid v.activeJobs).map Job.plain :=
    (plain_removed hids hg hold hnew).trans ((remove_eq_others hnd).trans (others_map fun _ => rfl))
  rw [← front_plain, ← front_plain (l := others p.jobid v.activeJobs)]
  exact congrArg front hplain

/-- **A move that leaves the first job in its state** leaves it in front. -/
theorem front_apply {k : ℤ} {st : Jobstate} (hids : v.Ids) (hg : a.Guard v) (hre : ∀ l, a ≠ reorder l)
    (hkeep : ∀ p, a.old v = some p → p.jobid = k → p.state = st →
      ∃ p', a.new v = some p' ∧ p'.state = st)
    (h : front v.activeJobs = some (k, st)) :
    front (a.apply v).activeJobs = some (k, st) := by
  cases hold : a.old v with
  | none =>
    rw [← front_plain] at h ⊢
    cases hnew : a.new v with
    | none => exact (congrArg front (plain_same hold hnew hre)).trans h
    | some p' =>
      refine (congrArg front (plain_added hg hold hnew)).trans ?_
      rw [front_append, Queue.plain, h]
      rfl
  | some p =>
    have hrun : p.jobid = k → p.state = st := fun hid =>
      state_of_front (p := p.strip) h (has_old hg hold).mem hids.nodup hid
    cases hnew : a.new v with
    | none =>
      have hne : k ≠ p.jobid := by
        rintro rfl
        obtain ⟨p', hp', -⟩ := hkeep p hold rfl (hrun rfl)
        rw [hnew] at hp'
        cases hp'
      have hnd : (v.plain.map Job.jobid).Nodup := by
        rw [Queue.plain, List.map_map]
        exact hids.nodup
      rw [← front_plain] at h ⊢
      refine (congrArg front (plain_removed hids hg hold hnew)).trans ?_
      rw [remove_eq_others hnd]
      exact front_others h hne
    | some p' =>
      rw [front_changed hids hg hold hnew, h, Option.map_some]
      by_cases hid : k = p.jobid
      · obtain ⟨x, hx, rfl⟩ := hkeep p hold hid.symm (hrun hid.symm)
        rw [hnew] at hx
        cases hx
        rw [if_pos hid, hid]
      · rw [if_neg hid]

end Act

end TaskSpooler
