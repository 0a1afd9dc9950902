import TaskSpooler.Sched.Rounds
import TaskSpooler.Sched.Slots

/-!
# Held clients

A client whose job finds the queue full is held: its job has the state `HOLDING_CLIENT` until
`next_run_job` wakes it.  Only a round that starts a job wakes clients, and then it wakes all of
them.  So when `next_run_job` returns, clients are held exactly while the queue is full if and only
if `Spool.RoomForHeld` was true when it was called (`clients_held_exactly_while_full`).
-/

namespace TaskSpooler

namespace Spool

variable {e : Env} {s s' : Spool}

/-- The jobs whose client is held. -/
def held (s : Spool) : ℕ := s.activeJobs.countP fun p => p.state = .holdingClient

/-- The jobs that are in the queue. -/
def admitted (s : Spool) : ℕ := s.activeJobs.countP fun p => p.state ≠ .holdingClient

/-- Fewer than `max_jobs` jobs are in the queue, and clients are held only if there is no place for
another one. -/
def HeldWhileFull (s : Spool) : Prop :=
  s.admitted < s.maxJobs ∧ (0 < s.held → s.maxJobs - 1 ≤ s.admitted)

/-- If a job can be started, which wakes all clients, then there is a place for all of them.  If
none can be started, then the queue is full, or nobody is held. -/
def RoomForHeld (e : Env) (s : Spool) : Prop :=
  (s.Startable e → (s.admitted + s.held : ℤ) < s.maxJobs) ∧
  (¬s.Startable e → s.admitted < s.maxJobs ∧ (s.held = 0 ∨ s.maxJobs - 1 ≤ s.admitted))

instance : Decidable s.HeldWhileFull :=
  inferInstanceAs (Decidable (s.admitted < s.maxJobs ∧ (0 < s.held → s.maxJobs - 1 ≤ s.admitted)))

instance : Decidable (s.RoomForHeld e) :=
  inferInstanceAs (Decidable ((s.Startable e → (s.admitted + s.held : ℤ) < s.maxJobs) ∧
    (¬s.Startable e → s.admitted < s.maxJobs ∧ (s.held = 0 ∨ s.maxJobs - 1 ≤ s.admitted))))

theorem admitted_add_held : s.admitted + s.held = s.activeJobs.length := by
  rw [admitted, held, add_comm]
  have h := List.length_eq_countP_add_countP (l := s.activeJobs) fun p => p.state = .holdingClient
  simpa using h.symm

/-! ### The limit on jobs -/

theorem maxJobs_bindCpus (p : Job) : (s.bindCpus e p).maxJobs = s.maxJobs := by
  unfold bindCpus
  split
  · unfold cgroupsSetCpuset
    split_ifs
    · rfl
    · show ((mkdirCgroup _ _ _).modCgroup _ _ _).maxJobs = _
      unfold mkdirCgroup
      split_ifs <;> rfl
  · rfl

theorem maxJobs_configRunning (p : Job) : (s.configRunning e p).maxJobs = s.maxJobs := by
  have hrerun : ∀ s : Spool, (s.rerunJobConfig e p).maxJobs = s.maxJobs := by
    intro s
    unfold rerunJobConfig
    split_ifs <;> rfl
  have hthaw : (if s.isSleep e p = 1 then s.cgroupsThawJob p else s).maxJobs = s.maxJobs := by
    split_ifs <;> rfl
  rw [configRunning, apply_ite maxJobs, maxJobs_bindCpus, ite_self, hrerun]
  exact hthaw

theorem maxJobs_dispatch {uid : ℕ} {p : Job} (h : s.dispatch e uid p = .ok s') :
    s'.maxJobs = s.maxJobs := by
  simp only [dispatch, Except.bind_eq_ok] at h
  obtain ⟨s₁, h₁, s₂, h₂, h⟩ := h
  cases h
  obtain ⟨_, -, rfl⟩ := sSendRunjob_spec h₂
  show s₁.maxJobs = s.maxJobs
  rw [takeJob] at h₁
  split_ifs at h₁
  · rw [sMarkJobRunning] at h₁
    split at h₁
    · cases h₁
    · dsimp only at h₁
      split_ifs at h₁
      · cases h₁
        rfl
      · cases h₁
        exact maxJobs_configRunning _
  · cases h₁
    exact maxJobs_configRunning _

theorem maxJobs_round {l : List ℕ} {found found' : Bool}
    (h : round e l (s, found) = .ok (s', found')) : s'.maxJobs = s.maxJobs := by
  induction l generalizing s found with
  | nil =>
    cases h
    rfl
  | cons i l ih =>
    rw [round] at h
    split_ifs at h
    · exact ih h
    · cases h
      rfl
    · split at h
      · exact ih h
      · rw [Except.bind_eq_ok] at h
        obtain ⟨s₁, h₁, h⟩ := h
        exact (ih h).trans (maxJobs_dispatch h₁)

theorem maxJobs_wakeHeld {fuel : ℕ} : (wakeHeld fuel s).maxJobs = s.maxJobs := by
  induction fuel generalizing s with
  | zero => rfl
  | succ fuel ih =>
    rw [wakeHeld]
    split
    · rfl
    · dsimp only
      split_ifs
      · rfl
      · split
        · exact ih
        · exact ih

/-! ### Counting the held clients -/

theorem held_view : (s.view.activeJobs.countP fun p => p.state = .holdingClient) = s.held := by
  show ((s.activeJobs.map Job.strip).countP _) = _
  rw [List.countP_map]
  rfl

theorem ids_view : s.view.activeJobs.map Job.jobid = s.activeJobs.map Job.jobid := by
  show (s.activeJobs.map Job.strip).map Job.jobid = _
  rw [List.map_map]
  rfl

theorem length_view : s.view.activeJobs.length = s.activeJobs.length := List.length_map _

end Spool

/-- A held client, as a number. -/
def Job.heldCount (p : Job) : ℤ := if p.state = .holdingClient then 1 else 0

theorem sum_heldCount (l : List Job) :
    (l.map Job.heldCount).sum = (l.countP fun p => p.state = .holdingClient : ℕ) := by
  induction l with
  | nil => rfl
  | cons p l ih =>
    rw [List.map_cons, List.sum_cons, ih, List.countP_cons, Job.heldCount]
    split_ifs <;> simp_all
    omega

/-- A round starts jobs that are not held. -/
theorem Moves.held_eq {e : Env} {v v' : View} (hids : v.Ids)
    (h : Moves (fun a _ => a.ofRound e) v v') :
    (v'.activeJobs.map Job.heldCount).sum = (v.activeJobs.map Job.heldCount).sum ∧
      v'.activeJobs.length = v.activeJobs.length := by
  refine (h.invariant (I := fun w => w.Ids ∧
      (w.activeJobs.map Job.heldCount).sum = (v.activeJobs.map Job.heldCount).sum ∧
      w.activeJobs.length = v.activeJobs.length) ⟨hids, rfl, rfl⟩ fun {w a} hI ha hg => ?_).2
  obtain ⟨hids, hheld, hlen⟩ := hI
  have hsum := Act.sum_apply (w := Job.heldCount) (fun _ => rfl) hids hg
  have hperm := (Act.perm_apply hids hg).length_eq
  simp only [Queue.plain, List.length_append, List.length_map] at hperm
  refine ⟨Act.ids_apply hids hg, ?_, ?_⟩
  all_goals
    cases a with
    | dispatch uid p q =>
      obtain ⟨-, -, -, -, -, -, -, -, ⟨hst, -⟩ | ⟨hst, -⟩⟩ := hg
      all_goals
        simp only [Act.old, Act.new, Option.elim, Option.toList_some, List.length_singleton,
          Job.heldCount, Job.started, hst, reduceCtorEq, if_false] at hsum hperm
        omega
    | asleep uid p q =>
      obtain ⟨-, -, -, -, -, -, hst, -⟩ := hg
      simp only [Act.old, Act.new, Option.elim, Option.toList_some, List.length_singleton,
        Job.heldCount, Job.setState, hst, reduceCtorEq, if_false] at hsum hperm
      omega
    | _ => exact ha.elim

theorem Moves.ids_of_round {e : Env} {v v' : View} {x : ℤ} (hids : v.Ids)
    (h : Moves (fun a _ => a.ofRound e) v v') (hx : x ∈ v'.activeJobs.map Job.jobid) :
    x ∈ v.activeJobs.map Job.jobid := by
  refine (h.invariant (I := fun w => w.Ids ∧ ∀ x ∈ w.activeJobs.map Job.jobid,
    x ∈ v.activeJobs.map Job.jobid) ⟨hids, fun _ hx => hx⟩ fun {w a} hI ha hg => ?_).2 x hx
  refine ⟨Act.ids_apply hI.1 hg, fun x hx => ?_⟩
  obtain hx | ⟨p, ds, n, m, q, rfl, -⟩ := Act.mem_ids_apply hI.1 hg hx
  · exact hI.2 x hx
  · exact ha.elim

namespace Spool

variable {e : Env} {s s' : Spool}

theorem held_round {l : List ℕ} {found found' : Bool} (hids : s.view.Ids)
    (hn : ∀ i ∈ l, i < s.nusers) (h : round e l (s, found) = .ok (s', found')) :
    s'.held = s.held ∧ s'.activeJobs.length = s.activeJobs.length := by
  obtain ⟨hheld, hlen⟩ := (round_moves hids hn h).held_eq hids
  rw [sum_heldCount, sum_heldCount, held_view, held_view] at hheld
  rw [length_view, length_view] at hlen
  exact ⟨by exact_mod_cast hheld, hlen⟩

/-- `wake_all_held_clients` wakes one client with every unit of fuel. -/
theorem held_wakeHeld (fuel : ℕ) (hnd : (s.activeJobs.map Job.jobid).Nodup)
    (hid : -1 ∉ s.activeJobs.map Job.jobid) :
    (wakeHeld fuel s).held = s.held - fuel ∧
      (wakeHeld fuel s).activeJobs.map Job.jobid = s.activeJobs.map Job.jobid := by
  induction fuel generalizing s with
  | zero => exact ⟨rfl, rfl⟩
  | succ fuel ih =>
    rw [wakeHeld]
    split
    · rename_i hnone
      have hzero : s.held = 0 := by
        rw [held, List.countP_eq_zero]
        exact List.find?_eq_none.1 hnone
      exact ⟨by rw [hzero, Nat.zero_sub], rfl⟩
    · rename_i p hp
      have hmem := List.mem_of_find?_eq_some hp
      have hstate : p.state = .holdingClient := by simpa using List.find?_some hp
      have hids : (s.modJob p.jobid (Job.setState .queued)).activeJobs.map Job.jobid =
          s.activeJobs.map Job.jobid := Keyed.map_modify fun _ _ _ => rfl
      have hheld : (s.modJob p.jobid (Job.setState .queued)).held + 1 = s.held := by
        have hsum := Keyed.sum_modify (f := Job.setState .queued) Job.heldCount hnd hmem
        rw [sum_heldCount, sum_heldCount] at hsum
        simp only [Job.heldCount, Job.setState, hstate, reduceCtorEq, if_false, if_true] at hsum
        have : ((s.modJob p.jobid (Job.setState .queued)).held : ℤ) = _ := hsum
        show _ = (s.activeJobs.countP fun p => p.state = .holdingClient)
        omega
      have hne : p.jobid ≠ -1 := fun h => hid (h ▸ List.mem_map_of_mem hmem)
      dsimp only
      rw [if_neg hne]
      have hrest : ∀ s₁ : Spool,
          s₁.activeJobs = (s.modJob p.jobid (Job.setState .queued)).activeJobs →
          (wakeHeld fuel s₁).held = s.held - (fuel + 1) ∧
            (wakeHeld fuel s₁).activeJobs.map Job.jobid = s.activeJobs.map Job.jobid := by
        intro s₁ hs₁
        rw [← hs₁] at hids
        have h₁ : s₁.held + 1 = s.held := by
          rw [held, hs₁]
          exact hheld
        obtain ⟨hw, hw'⟩ := ih (s := s₁) (hids ▸ hnd) (hids ▸ hid)
        exact ⟨by omega, hw'.trans hids⟩
      split
      · exact hrest _ rfl
      · exact hrest _ rfl

theorem held_wakeAll (hnd : (s.activeJobs.map Job.jobid).Nodup)
    (hid : -1 ∉ s.activeJobs.map Job.jobid) : s.wakeAllHeldClients.held = 0 ∧
      s.wakeAllHeldClients.activeJobs.map Job.jobid = s.activeJobs.map Job.jobid := by
  obtain ⟨hheld, hids⟩ := held_wakeHeld s.activeJobs.length hnd hid
  exact ⟨hheld.trans (Nat.sub_eq_zero_of_le List.countP_le_length), hids⟩

/-- **`next_run_job` wakes all held clients if it starts a job, and none otherwise.** -/
theorem held_nextRunLoop {fuel : ℕ} (hids : s.view.Ids) (hid : -1 ∉ s.activeJobs.map Job.jobid)
    (h : nextRunLoop e fuel s = .ok s') :
    s'.activeJobs.length = s.activeJobs.length ∧ s'.maxJobs = s.maxJobs ∧
      (s.Startable e → s'.held = 0) ∧ (¬s.Startable e ∨ s.held = 0 → s'.held = s.held) := by
  induction fuel generalizing s with
  | zero => cases h
  | succ fuel ih =>
    rw [nextRunLoop] at h
    split_ifs at h with hnil
    · cases h
      exact ⟨rfl, rfl, fun hst => absurd hst (not_startable_of_nil hnil), fun _ => rfl⟩
    · rw [Except.bind_eq_ok] at h
      obtain ⟨⟨s₁, found⟩, h₁, h⟩ := h
      have hn : ∀ i ∈ List.range s.nusers, i < s.nusers := fun i hi => List.mem_range.1 hi
      have hmoves := round_moves hids hn h₁
      obtain ⟨hheld₁, hlen₁⟩ := held_round hids hn h₁
      have hmax₁ := maxJobs_round h₁
      have hfound := round_found_iff h₁
      dsimp only at h
      split_ifs at h with hf
      · have hids₁ := hmoves.ids hids
        have hid₁ : -1 ∉ s₁.activeJobs.map Job.jobid := by
          rw [← ids_view] at hid ⊢
          exact fun hmem => hid (hmoves.ids_of_round hids hmem)
        obtain ⟨hzero, hw'⟩ := held_wakeAll (nodup_of_ids hids₁) hid₁
        have hlen₂ : s₁.wakeAllHeldClients.activeJobs.length = s₁.activeJobs.length := by
          have := congrArg List.length hw'
          rw [List.length_map, List.length_map] at this
          exact this
        have hids₂ : s₁.wakeAllHeldClients.view.Ids :=
          (wakeHeld_moves s₁.activeJobs.length hids₁).ids hids₁
        obtain ⟨hlen, hmax, -, hkeep⟩ := ih hids₂ (hw' ▸ hid₁) h
        have hend : s'.held = 0 := (hkeep (.inr hzero)).trans hzero
        refine ⟨hlen.trans (hlen₂.trans hlen₁), hmax.trans (maxJobs_wakeHeld.trans hmax₁),
          fun _ => hend, fun hor => ?_⟩
        obtain hno | hz := hor
        · exact absurd (hfound.1 hf) hno
        · exact hend.trans hz.symm
      · cases h
        exact ⟨hlen₁, hmax₁, fun hst => absurd (hfound.2 hst) hf, fun _ => hheld₁⟩

end Spool

/-! ### The calls of `next_run_job` in a run -/

namespace Spool

variable {e : Env} {s s' : Spool}

/-- **What a call of `next_run_job` leaves.** -/
theorem heldWhileFull_nextRunJob (hids : s.view.Ids) (hid : -1 ∉ s.activeJobs.map Job.jobid)
    (h : s.nextRunJob e = .ok s') : s'.HeldWhileFull ↔ s.RoomForHeld e := by
  obtain ⟨hlen, hmax, hall, hnone⟩ := held_nextRunLoop hids hid h
  have hsum := admitted_add_held (s := s)
  have hsum' := admitted_add_held (s := s')
  rw [HeldWhileFull, RoomForHeld, hmax]
  by_cases hst : s.Startable e
  · have hzero := hall hst
    simp only [hst, hzero, true_imp_iff, not_true_eq_false, false_imp_iff, and_true, lt_irrefl]
    omega
  · have hsame := hnone (.inl hst)
    simp only [hst, hsame, true_imp_iff, not_false_eq_true, false_imp_iff, true_and]
    omega

theorem heldWhileFull_congr (hact : s'.activeJobs = s.activeJobs) (hmax : s'.maxJobs = s.maxJobs) :
    s'.HeldWhileFull ↔ s.HeldWhileFull := by
  rw [HeldWhileFull, HeldWhileFull, admitted, admitted, held, held, hact, hmax]

theorem sCheckHoldon_keeps :
    (s.sCheckHoldon e).activeJobs = s.activeJobs ∧ (s.sCheckHoldon e).maxJobs = s.maxJobs := by
  have hfold : ∀ (l : List Job) (s : Spool),
      (l.foldl (fun s p =>
        if p.pid ≠ 0 ∧ p.state = .pause ∧ s.isSleep e p = 0 then s.cgroupsFreezeJob p
        else s) s).activeJobs = s.activeJobs ∧
      (l.foldl (fun s p =>
        if p.pid ≠ 0 ∧ p.state = .pause ∧ s.isSleep e p = 0 then s.cgroupsFreezeJob p
        else s) s).maxJobs = s.maxJobs := by
    intro l
    induction l with
    | nil => exact fun s => ⟨rfl, rfl⟩
    | cons p l ih =>
      intro s
      rw [List.foldl_cons]
      obtain ⟨h₁, h₂⟩ := ih (if p.pid ≠ 0 ∧ p.state = .pause ∧ s.isSleep e p = 0 then
        s.cgroupsFreezeJob p else s)
      rw [h₁, h₂]
      split_ifs <;> exact ⟨rfl, rfl⟩
  exact hfold _ _

end Spool

namespace Server

variable {e : Env} {s s' s₀ : Server} {C : Config}

/-- The server is not started again, there is room for another id, and no client chooses the id `-1`,
which `wake_all_held_clients` takes for "none". -/
def noMinusOne (l : Env × Input) (s : Server) : Prop :=
  roomForId l s ∧ (match l.2 with
    | .message _ (.newjob m) => m.jobid ≠ -1
    | .restart => false
    | _ => true) = true

instance : ∀ l s, Decidable (noMinusOne l s) := fun l s =>
  inferInstanceAs (Decidable (roomForId l s ∧ _ = true))

/-- No job has the id `-1`, and the next ones are not negative. -/
structure NoMinusOne (v : View) : Prop where
  active : -1 ∉ v.activeJobs.map Job.jobid
  jobids : 0 ≤ v.jobids

theorem NoMinusOne.apply {v : View} {a : Act} (hids : v.Ids) (h : NoMinusOne v) (hg : a.Guard v)
    (hsubmit : ∀ p ds n m q, a = .submit p ds n m q → m.jobid ≠ -1) : NoMinusOne (a.apply v) := by
  refine ⟨fun hmem => ?_, h.jobids.trans (Act.jobids_apply hg)⟩
  obtain hmem | ⟨p, ds, n, m, q, rfl, hp⟩ := Act.mem_ids_apply hids hg hmem
  · exact h.active hmem
  · obtain ⟨-, -, -, -, -, -, -, -, -, -, hid, -⟩ := hg
    have hm := hsubmit p ds n m q rfl
    have hpos := h.jobids
    rw [← hp] at hid
    split_ifs at hid
    · exact hm hid.symm
    · omega

theorem noMinusOne_step {l : Env × Input} (hs : s.Sound) (hv : NoMinusOne s.view)
    (hok : noMinusOne l s) (h : Step C s l s') : NoMinusOne s'.view := by
  obtain ⟨e, i⟩ := l
  obtain ⟨-, hen, h⟩ := h
  have hi : i ≠ .restart := by
    rintro rfl
    cases hok.2
  have hmoves := (step_course (K := fun _ => True) hs hen hi (fun _ _ => trivial) h).toMoves
  refine (hmoves.invariant (I := fun w => w.Ids ∧ NoMinusOne w) ⟨hs.ids, hv⟩
    fun {w a} hI ha hg => ?_).2
  refine ⟨Act.ids_apply hI.1 hg, hI.2.apply hI.1 hg ?_⟩
  rintro p ds n m q rfl
  obtain ha | ha | ha | ha := ha
  · obtain ⟨index, next, rfl, -⟩ := ha.submit
    exact of_decide_eq_true hok.2
  · exact ha.elim
  · cases ha
  · exact ha.1.elim

theorem noMinusOne_run (h₀ : s₀.Fresh) (hpos : 0 < s₀.jobids) (h : Run (Step C) noMinusOne s₀ s) :
    s.Sound ∧ NoMinusOne s.view := by
  refine h.invariant (I := fun s => s.Sound ∧ NoMinusOne s.view) ⟨h₀.sound, ?_, hpos.le⟩
    fun hI hok hst => ⟨hst.sound hI.1, noMinusOne_step hI.1 hI.2 hok hst⟩
  rw [h₀.view_activeJobs]
  exact List.not_mem_nil

/-- **Clients are held exactly while the queue is full** whenever `next_run_job` has returned, if
and only if there was room for the held clients when it was called: at the end of every round of
the server loop, and in every call that a recount makes. -/
theorem clients_held_exactly_while_full (h₀ : s₀.Fresh) (hpos : 0 < s₀.jobids)
    (h : Run (Step C) noMinusOne s₀ s) :
    (∀ e s', Step C s (e, .schedule) s' → (s'.HeldWhileFull ↔ s.RoomForHeld e)) ∧
    ∀ e (sp sp' : Spool), sp.view.Ids → -1 ∉ sp.activeJobs.map Job.jobid →
      sp.nextRunJob e = .ok sp' → (sp'.HeldWhileFull ↔ sp.RoomForHeld e) := by
  obtain ⟨hs, hno⟩ := noMinusOne_run h₀ hpos h
  refine ⟨fun e s' hst => ?_, fun e sp sp' hids hid h => Spool.heldWhileFull_nextRunJob hids hid h⟩
  have hst := hst.2.2
  dsimp only at hst
  rw [step, Except.bind_eq_ok] at hst
  obtain ⟨s₁, h₁, hst⟩ := hst
  rw [onSpoolM, Except.map_eq_ok] at h₁
  obtain ⟨sp, hsp, rfl⟩ := h₁
  cases hst
  obtain ⟨hact, hmax⟩ := Spool.sCheckHoldon_keeps (e := e) (s := sp)
  exact (Spool.heldWhileFull_congr hact hmax).trans
    (Spool.heldWhileFull_nextRunJob hs.ids (Spool.ids_view ▸ hno.active) hsp)

/-- A server that takes two jobs. -/
def smallServer : Server := { started with maxJobs := 2 }

theorem fresh_smallServer : smallServer.Fresh := by
  obtain ⟨h₁, h₂, h₃, h₄, h₅, h₆, h₇, h₈⟩ := fresh_started
  exact ⟨h₁, h₂, h₃, h₄, h₅, h₆, h₇, h₈⟩

/-- One job runs, and the client of another one is held: the queue is full. -/
theorem one_client_held : ∃ s s' : Server, Step plainConfig s (world 5, .schedule) s' ∧
    s'.held = 1 ∧ s.RoomForHeld (world 5) ∧ s'.HeldWhileFull := by
  obtain ⟨s, s', hr, hst, hs⟩ := exists_run_step noMinusOne smallServer
    (fun s s' => s.RoomForHeld (world 5) ∧ s'.held = 1) (world 5, .schedule)
    [(world 1, .accept 5 1000), (world 2, .message 0 (.newjob {})), (world 3, .schedule),
      (world 4, .accept 6 1000), (world 4, .message 1 (.newjob { waitEnqueuing := true }))]
    (by simp [world]) (by decide +kernel)
  obtain ⟨hroom, hheld⟩ := of_decide_eq_true hs
  exact ⟨s, s', hst, hheld, hroom, ((clients_held_exactly_while_full fresh_smallServer
    (by decide) hr).1 _ _ hst).2 hroom⟩

/-- The running job ends while a client is held.  Nothing can be started, so nobody wakes it. -/
theorem held_client_stranded : ¬∀ (C : Config) (s₀ s s' : Server) (e : Env), s₀.Fresh →
    0 < s₀.jobids → Run (Step C) noRestart s₀ s → Step C s (e, .schedule) s' →
    s'.HeldWhileFull := by
  intro hall
  obtain ⟨s, s', hr, hst, hs⟩ := exists_run_step noRestart smallServer
    (fun _ s' => ¬s'.HeldWhileFull) (world 7, .schedule)
    [(world 1, .accept 5 1000), (world 2, .message 0 (.newjob {})), (world 3, .schedule),
      (world 4, .accept 6 1000), (world 4, .message 1 (.newjob { waitEnqueuing := true })),
      (world 5, .message 0 (.runjobOk none 100)), (world 6, .message 0 (.endjob { realSec := 1 }))]
    (by simp [world]) (by decide +kernel)
  exact of_decide_eq_true hs (hall _ _ _ _ _ fresh_smallServer (by decide) hr hst)

end Server

end TaskSpooler
