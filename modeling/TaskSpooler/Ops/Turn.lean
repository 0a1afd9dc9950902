import TaskSpooler.Ops.Front
import TaskSpooler.Ops.Usage
import TaskSpooler.Sched.Rounds

/-!
# The first job and the scheduler

`next_run_job` goes through the users, and starts the first job in the queue that it can start for
each.  So the job it starts first need not be the first one of the queue.

* `round_skip` : the users that have no job to start are passed over.
* `FirstInTurn.nextRunJob` : if the first job is the one that is started first, it is a running job in
  front from then on.
-/

namespace TaskSpooler

namespace Spool

variable {e : Env} {s s' : Spool} {found : Bool} {k : ℤ}

/-- The user whose turn is at the place `i` of a round, as long as no job has been started in it. -/
def turn (s : Spool) (i : ℕ) : ℕ := (s.lastUid + i) % s.nusers

/-- Nothing is started for this user. -/
def Skips (e : Env) (s : Spool) (uid : ℕ) : Prop :=
  (s.users uid).queue = 0 ∨ ∀ p ∈ s.activeJobs, ¬s.eligible e uid p

/-- The first job is the one that `next_run_job` starts first, and it is not asleep. -/
def FirstInTurn (e : Env) (s : Spool) : Prop :=
  ∃ p l, s.activeJobs = p :: l ∧ (p.state = .queued → s.isSleep e p ≠ 1) ∧
    0 < s.maxSlots - s.busySlots ∧ ∃ i < s.nusers, (s.users (s.turn i)).queue ≠ 0 ∧
      s.eligible e (s.turn i) p ∧ ∀ j < i, s.Skips e (s.turn j)

/-! ### A round -/

theorem round_skip {l l' : List ℕ} (hroom : 0 < s.maxSlots - s.busySlots)
    (hskip : ∀ j ∈ l, s.Skips e (s.turn j)) :
    round e (l ++ l') (s, found) = round e l' (s, found) := by
  induction l with
  | nil => rfl
  | cons j l ih =>
    have ih := ih fun k hk => hskip k (List.mem_cons_of_mem _ hk)
    rw [List.cons_append, round]
    split_ifs with hqueue hfull
    · exact ih
    · omega
    · have hnone : s.activeJobs.find? (s.eligible e ((s.lastUid + j) % s.nusers)) = none :=
        List.find?_eq_none.2 ((hskip j List.mem_cons_self).resolve_left hqueue)
      rw [hnone]
      exact ih

/-- A job is started for the user whose turn it is. -/
theorem round_start {i : ℕ} {l : List ℕ} {p : Job} (hqueue : (s.users (s.turn i)).queue ≠ 0)
    (hroom : 0 < s.maxSlots - s.busySlots)
    (hfind : s.activeJobs.find? (s.eligible e (s.turn i)) = some p) :
    round e (i :: l) (s, found) = s.dispatch e (s.turn i) p >>= fun s₁ => round e l (s₁, true) := by
  rw [turn] at hqueue hfind
  rw [round, if_neg hqueue, if_neg (Int.not_le.2 hroom), hfind]
  rfl

/-- The round begins with the first job. -/
theorem FirstInTurn.round (h : FirstInTurn e s)
    (hround : Spool.round e (List.range s.nusers) (s, false) = .ok (s', found)) :
    ∃ p i s₁ l, StandsFirst p.jobid s.activeJobs ∧ s.findjob p.jobid = some p ∧
      (p.state = .queued → s.isSleep e p ≠ 1) ∧ (Op.dispatch (s.turn i) p).Pre e s ∧
      s.dispatch e (s.turn i) p = .ok s₁ ∧ (∀ j ∈ l, j < s.nusers) ∧
      Spool.round e l (s₁, true) = .ok (s', found) := by
  obtain ⟨p, rest, hl, hawake, hroom, i, hi, hqueue, hel, hskip⟩ := h
  have hmem : p ∈ s.activeJobs := hl ▸ List.mem_cons_self
  have huid : s.turn i < s.nusers := Nat.mod_lt _ ((Nat.zero_le _).trans_lt hi)
  have hfind : s.activeJobs.find? (s.eligible e (s.turn i)) = some p := by
    rw [hl, List.find?_cons_of_pos hel]
  have hrange : List.range s.nusers = List.range i ++ i :: List.range' (i + 1) (s.nusers - i - 1) := by
    rw [← List.range'_succ, List.range_eq_range', List.range_eq_range']
    have happend := List.range'_append_1 (s := 0) (m := i) (n := s.nusers - i - 1 + 1)
    rw [Nat.zero_add] at happend
    rw [happend]
    congr 1
    omega
  rw [hrange, round_skip hroom fun j hj => hskip j (List.mem_range.1 hj),
    round_start hqueue hroom hfind, Except.bind_eq_ok] at hround
  obtain ⟨s₁, hdispatch, hrest⟩ := hround
  refine ⟨p, i, s₁, _, ⟨p.state, by rw [hl, front_cons]⟩, ?_, hawake,
    ⟨hmem, hel, huid, hqueue, hroom⟩, hdispatch, fun j hj => ?_, hrest⟩
  · rw [Queue.findjob, Keyed.lookup, hl]
    exact List.find?_cons_of_pos (by simp)
  · rw [List.mem_range'_1] at hj
    omega

/-- A job that is not asleep runs after it has been dispatched. -/
theorem runsFirst_dispatch {uid : ℕ} {p : Job} (hids : s.view.Ids) (hp : s.findjob p.jobid = some p)
    (hpre : (Op.dispatch uid p).Pre e s) (hawake : p.state = .queued → s.isSleep e p ≠ 1)
    (hfirst : StandsFirst p.jobid s.activeJobs) (h : s.dispatch e uid p = .ok s') :
    RunsFirst s'.activeJobs := by
  obtain ⟨hmem, hel, huid, hqueue, hroom⟩ := hpre
  have hg := dispatch_guard hids huid hqueue hroom hmem hel
  obtain hv | ⟨-, hq, hsleep⟩ := dispatch_spec hp h
  · have hrun := Act.runsFirst_started hids hg rfl rfl rfl
    rw [← hv, runsFirst_congr (l := s'.activeJobs) front_view, StandsFirst, front_view] at hrun
    exact hrun.2 (.inr hfirst)
  · exact absurd hsleep (hawake hq)

/-- What the scheduler does stops no job. -/
theorem front_schedule (hids : s.view.Ids) (h : Ops e (fun o s => o.ofSchedule s) s s')
    (hs : front s.activeJobs = some (k, .running)) : front s'.activeJobs = some (k, .running) :=
  h.front hids hs fun o sp ho _ _ => by
    cases o with
    | dispatch | wake | send => trivial
    | _ => exact ho.elim

/-- **The first job is started**, and the others behind it. -/
theorem FirstInTurn.nextRunJob (h : FirstInTurn e s) (hids : s.view.Ids)
    (hrun : s.nextRunJob e = .ok s') : RunsFirst s'.activeJobs := by
  have hne : s.activeJobs ≠ [] := by
    obtain ⟨p, l, hl, -⟩ := h
    rw [hl]
    exact List.cons_ne_nil p l
  rw [Spool.nextRunJob, nextRunLoop, if_neg hne, Except.bind_eq_ok] at hrun
  obtain ⟨⟨s₂, found⟩, hround, hrun⟩ := hrun
  obtain ⟨p, i, s₁, l, hfirst, hp, hawake, hpre, hdispatch, hl, hrest⟩ := h.round hround
  obtain rfl := round_true hrest
  have hone : Ops e (fun o s => o.ofSchedule s) s s₁ := .single (.dispatch _ p) hpre trivial hdispatch
  have hids₁ := hone.ids hids
  have hnusers : s₁.nusers = s.nusers :=
    (dispatch_moves hids hpre.2.2.1 hpre.2.2.2.1 hpre.2.2.2.2 hpre.1 hpre.2.1 hdispatch).nusers_eq
      fun _ _ _ h => h
  obtain ⟨k, hk⟩ := runsFirst_dispatch hids hp hpre hawake hfirst hdispatch
  have hround₂ := round_ops hids₁ (fun j hj => hnusers ▸ hl j hj) hrest
  have hids₂ := hround₂.ids hids₁
  have hwake : Ops e (fun o s => o.ofSchedule s) s₂ s₂.wakeAllHeldClients := wakeHeld_ops hids₂
  dsimp only at hrun
  rw [if_pos rfl] at hrun
  have hloop := nextRunLoop_ops (hwake.ids hids₂) hrun
  exact ⟨k, front_schedule hids₁ ((hround₂.trans hwake).trans hloop) hk⟩

/-- **`next_run_job`** leaves a running job in front: one that was there, or the first job it starts. -/
theorem headed_nextRunJob (hids : s.view.Ids) (hs : s.Headed)
    (ho : RunsFirst s.activeJobs ∨ ¬s.Startable e ∨ FirstInTurn e s)
    (h : s.nextRunJob e = .ok s') : s'.Headed := by
  obtain ⟨k, hk⟩ | hno | hfirst := ho
  · exact .inr ⟨k, front_schedule hids (nextRunJob_ops hids h) hk⟩
  · rw [nextRunJob, nextRunLoop] at h
    split_ifs at h
    · cases h
      exact hs
    · rw [round_of_not_startable (fun i hi => List.mem_range.1 hi) hno] at h
      cases h
      exact hs
  · exact .inr (hfirst.nextRunJob hids h)

end Spool

end TaskSpooler
