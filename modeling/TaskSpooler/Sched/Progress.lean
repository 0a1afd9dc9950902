import TaskSpooler.Sched.Rounds

/-!
# `next_run_job` returns

`next_run_job` goes on as long as it finds a job to start.  A job can be woken, started from the
queue and started after a timeout, in this order and once each, so every dispatch lowers
`View.turns`.  Hence the loop ends (`nextRunJob_ok`): the scheduler neither hangs nor fails.
-/

namespace TaskSpooler

/-! ### The turns that are left -/

/-- How often `next_run_job` can still do something about a job before it returns. -/
def Job.turns (p : Job) : ℤ :=
  match p.state with
  | .holdingClient => 3
  | .queued => 2
  | .pause => 1
  | _ => 0

/-- The turns of all jobs. -/
def View.turns (v : View) : ℤ := (v.activeJobs.map Job.turns).sum

theorem Job.turns_nonneg (p : Job) : 0 ≤ p.turns := by
  unfold turns
  split <;> omega

theorem Job.turns_le (p : Job) : p.turns ≤ 3 := by
  unfold turns
  split <;> omega

theorem View.turns_le (v : View) : v.turns ≤ 3 * v.activeJobs.length := by
  unfold turns
  induction v.activeJobs with
  | nil => simp
  | cons p l ih =>
    have := p.turns_le
    rw [List.map_cons, List.sum_cons, List.length_cons]
    push_cast
    omega

theorem View.turns_nonneg (v : View) : 0 ≤ v.turns := by
  refine List.sum_nonneg fun x hx => ?_
  obtain ⟨p, -, rfl⟩ := List.mem_map.1 hx
  exact p.turns_nonneg

/-- **A move of the scheduler uses up a turn.** -/
theorem Act.turns_apply {e : Env} {v : View} {a : Act} (hids : v.Ids) (ha : a.ofSchedule e)
    (hg : a.Guard v) : (a.apply v).turns < v.turns := by
  have hsum := sum_apply (w := Job.turns) (fun _ => rfl) hids hg
  suffices hlt : (a.new v).elim 0 Job.turns < (a.old v).elim 0 Job.turns by
    rw [View.turns, View.turns, hsum]
    omega
  obtain ⟨uid, p, q, rfl, -⟩ | ⟨uid, p, q, rfl, -⟩ | ⟨p, rfl⟩ := ofSchedule_cases ha
  · obtain ⟨-, -, -, -, -, -, -, -, ⟨hst, -⟩ | ⟨hst, -⟩⟩ := hg
    · simp [new, old, Job.turns, Job.started, hst]
    · simp [new, old, Job.turns, Job.started, hst]
  · obtain ⟨-, -, -, -, -, -, hst, -⟩ := hg
    simp [new, old, Job.turns, Job.setState, hst]
  · simp [new, old, Job.turns, Job.setState, hg.2]

theorem Moves.turns_le {e : Env} {v v' : View} (hids : v.Ids)
    (h : Moves (fun a _ => a.ofSchedule e) v v') : v'.turns ≤ v.turns :=
  (h.invariant (I := fun w => w.Ids ∧ w.turns ≤ v.turns) ⟨hids, le_rfl⟩ fun hI ha hg =>
    ⟨Act.ids_apply hI.1 hg, (Act.turns_apply hI.1 ha hg).le.trans hI.2⟩).2

namespace Spool

variable {e : Env} {s s' : Spool} {p : Job} {uid : ℕ}

/-! ### One dispatch -/

theorem sMarkJobRunning_ok (hp : s.findjob p.jobid = some p) (hstate : p.state = .queued) :
    ∃ s', s.sMarkJobRunning e p.jobid = .ok s' := by
  simp only [sMarkJobRunning, hp]
  split_ifs with hsleep hst
  · exact ⟨_, rfl⟩
  · exact ⟨_, rfl⟩
  · exact absurd (.inr hstate) hst

theorem takeJob_ok (hp : s.findjob p.jobid = some p) : ∃ s', s.takeJob e uid p = .ok s' := by
  rw [takeJob]
  split_ifs with hstate
  · exact sMarkJobRunning_ok hp hstate
  · exact ⟨_, rfl⟩

theorem findjob_takeJob (hp : s.findjob p.jobid = some p) (h : s.takeJob e uid p = .ok s') :
    ∃ p', s'.findjob p.jobid = some p' := by
  suffices hsome : (s'.view.findjob p.jobid).isSome by
    rw [view_findjob, Option.isSome_map] at hsome
    exact Option.isSome_iff_exists.1 hsome
  have hhas : (s.view.findjob p.jobid).isSome := by
    rw [view_has hp]
    rfl
  have hmod : ∀ (q : Queue) (f : Job → Job), (∀ x : Job, (f x).jobid = x.jobid) →
      (q.findjob p.jobid).isSome → ((q.modJob p.jobid f).findjob p.jobid).isSome := by
    intro q f hf hq
    rw [Queue.findjob_modJob fun x hx => (hf x).trans hx, if_pos rfl, Option.isSome_map]
    exact hq
  have huncount : ((s.view.uncountQueued (some uid)).findjob p.jobid).isSome := hhas
  have hstart : ∀ q : Queue, (q.findjob p.jobid).isSome → ((q.start p).findjob p.jobid).isSome := by
    intro q hq
    refine hmod _ Job.started (fun _ => rfl) ?_
    cases p.user <;> exact hq
  obtain hv | ⟨hv, -, -⟩ := takeJob_spec hp h
  · rw [hv]
    refine hstart _ ?_
    split_ifs
    · exact huncount
    · exact hhas
  · rw [hv]
    exact hmod _ (Job.setState .pause) (fun _ => rfl) huncount

/-- The job that was found can be started. -/
theorem dispatch_ok (hp : s.findjob p.jobid = some p) : ∃ s', s.dispatch e uid p = .ok s' := by
  obtain ⟨s₁, h₁⟩ : ∃ s₁, s.takeJob e uid p = .ok s₁ := takeJob_ok hp
  obtain ⟨p', hp'⟩ := findjob_takeJob hp h₁
  have hsend : s₁.sSendRunjob p.clientSocket p.jobid =
      .ok (s₁.send p.clientSocket (.runjob p.jobid p'.dependencyErrorlevel)) := by
    simp only [sSendRunjob, hp']
  simp only [dispatch, Except.bind_eq_ok]
  exact ⟨_, s₁, h₁, _, hsend, rfl⟩

/-! ### The loops -/

theorem round_ok {l : List ℕ} {found : Bool} (hids : s.view.Ids) (hn : ∀ i ∈ l, i < s.nusers) :
    ∃ r, round e l (s, found) = .ok r := by
  induction l generalizing s found with
  | nil => exact ⟨_, rfl⟩
  | cons i l ih =>
    have hn' : ∀ j ∈ l, j < s.nusers := fun j hj => hn j (List.mem_cons_of_mem _ hj)
    have huid : (s.lastUid + i) % s.nusers < s.nusers :=
      Nat.mod_lt _ ((Nat.zero_le _).trans_lt (hn i List.mem_cons_self))
    rw [round]
    split_ifs with hqueue hroom
    · exact ih hids hn'
    · exact ⟨_, rfl⟩
    · split
      · exact ih hids hn'
      · rename_i p hp
        have hmem := List.mem_of_find?_eq_some hp
        obtain ⟨s₁, h₁⟩ : ∃ s₁, s.dispatch e ((s.lastUid + i) % s.nusers) p = .ok s₁ :=
          dispatch_ok (findjob_of_mem hids hmem)
        have hm := dispatch_moves hids huid hqueue (by omega) hmem (List.find?_some hp) h₁
        have hnusers : s₁.nusers = s.nusers := hm.nusers_eq fun _ _ _ h => h
        obtain ⟨r, hr⟩ : ∃ r, round e l (s₁, true) = .ok r := ih (hm.ids hids) (by rwa [hnusers])
        refine ⟨r, ?_⟩
        rw [Except.bind_eq_ok]
        exact ⟨s₁, h₁, hr⟩

/-- The first job that a round starts is started in the queue as the round found it. -/
theorem round_first {l : List ℕ} (hn : ∀ i ∈ l, i < s.nusers)
    (h : round e l (s, false) = .ok (s', true)) :
    ∃ uid < s.nusers, (s.users uid).queue ≠ 0 ∧ 0 < s.maxSlots - s.busySlots ∧
      ∃ p ∈ s.activeJobs, s.eligible e uid p ∧ ∃ s₁, s.dispatch e uid p = .ok s₁ ∧
      ∃ l', (∀ i ∈ l', i < s.nusers) ∧ round e l' (s₁, true) = .ok (s', true) := by
  induction l with
  | nil => cases h
  | cons i l ih =>
    have hn' : ∀ j ∈ l, j < s.nusers := fun j hj => hn j (List.mem_cons_of_mem _ hj)
    have huid : (s.lastUid + i) % s.nusers < s.nusers :=
      Nat.mod_lt _ ((Nat.zero_le _).trans_lt (hn i List.mem_cons_self))
    rw [round] at h
    split_ifs at h with hqueue hroom
    · exact ih hn' h
    · cases h
    · split at h
      · exact ih hn' h
      · rename_i p hp
        rw [Except.bind_eq_ok] at h
        obtain ⟨s₁, h₁, h⟩ := h
        exact ⟨_, huid, hqueue, by omega, p, List.mem_of_find?_eq_some hp, List.find?_some hp, s₁,
          h₁, l, hn', h⟩

/-- A round that starts a job uses up a turn. -/
theorem round_turns {l : List ℕ} (hids : s.view.Ids) (hn : ∀ i ∈ l, i < s.nusers)
    (h : round e l (s, false) = .ok (s', true)) : s'.view.turns < s.view.turns := by
  obtain ⟨uid, huid, hqueue, hroom, p, hmem, hel, s₁, h₁, l', hn', h⟩ := round_first hn h
  obtain ⟨a, ha, hg, hv⟩ := dispatch_act hids huid hqueue hroom hmem hel h₁
  have hsched : a.ofSchedule e := by
    obtain rfl | rfl := ha
    · exact hel
    · exact hel
  have hids₁ : s₁.view.Ids := by
    rw [hv]
    exact Act.ids_apply hids hg
  have hm := dispatch_moves hids huid hqueue hroom hmem hel h₁
  have hnusers : s₁.nusers = s.nusers := hm.nusers_eq fun _ _ _ h => h
  have hrest := round_moves hids₁ (by rwa [hnusers]) h
  calc s'.view.turns
      ≤ s₁.view.turns := (hrest.mono fun _ _ ha => ha.ofSchedule).turns_le hids₁
    _ = (a.apply s.view).turns := by rw [hv]
    _ < s.view.turns := Act.turns_apply hids hsched hg

theorem nextRunLoop_ok {fuel : ℕ} (hids : s.view.Ids) (hfuel : s.view.turns < fuel) :
    ∃ s', nextRunLoop e fuel s = .ok s' := by
  induction fuel generalizing s with
  | zero =>
    have := s.view.turns_nonneg
    omega
  | succ fuel ih =>
    rw [nextRunLoop]
    split_ifs
    · exact ⟨_, rfl⟩
    · obtain ⟨⟨s₁, found⟩, h₁⟩ : ∃ r, round e (List.range s.nusers) (s, false) = .ok r :=
        round_ok hids fun i hi => List.mem_range.1 hi
      simp only [h₁]
      cases found with
      | false => exact ⟨s₁, rfl⟩
      | true =>
        have hids₁ := (round_schedules hids h₁).ids hids
        have hwake := wakeAll_schedules (e := e) hids₁
        have hlt := round_turns hids (fun i hi => List.mem_range.1 hi) h₁
        have hle := hwake.turns_le hids₁
        refine ih (s := s₁.wakeAllHeldClients) (hwake.ids hids₁) ?_
        push_cast at hfuel
        omega

/-- **`next_run_job` returns.** -/
theorem nextRunJob_ok (hids : s.view.Ids) : ∃ s', s.nextRunJob e = .ok s' := by
  refine nextRunLoop_ok hids ?_
  have hlen : s.view.activeJobs.length = s.activeJobs.length := List.length_map _
  have := s.view.turns_le
  push_cast
  omega

end Spool

end TaskSpooler
