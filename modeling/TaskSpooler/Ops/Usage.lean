import TaskSpooler.Ops.Moves
import TaskSpooler.Store.Ledger

/-!
# The operations of the scheduler and of the recount

`next_run_job` and `s_update_slots_usage` are sequences of operations
(`nextRunJob_ops`, `sUpdateSlotsUsage_ops`).
-/

namespace TaskSpooler

namespace Op

/-- The message tells a held client that its job is in the queue now. -/
def greets (k : ℤ) (r : Reply) (s : Spool) : Prop :=
  ∃ p, s.findjob p.jobid = some p ∧ p.state = .queued ∧ p.clientSocket = k ∧ r = .newjobOk p.jobid

/-- The operations of `next_run_job`. -/
def ofSchedule (o : Op) (s : Spool) : Prop :=
  match o with
  | dispatch _ _ | wake _ => True
  | send k r => greets k r s
  | _ => False

/-- The operations that finish the jobs whose process has died. -/
def ofDead (e : Env) (o : Op) (s : Spool) : Prop :=
  match o with
  | finish r jobid => ∃ p, s.findjob jobid = some p ∧ Spool.isDead e p ∧ r = Spool.deadResult e p
  | notify _ => True
  | _ => False

/-- The operations of `s_update_slots_usage`. -/
def ofUsage (e : Env) (o : Op) (s : Spool) : Prop :=
  match o with
  | relegate p => Spool.timedOut e p
  | finish r jobid => ∃ p, s.findjob jobid = some p ∧ Spool.isDead e p ∧ r = Spool.deadResult e p
  | bottom _ | notify _ | recount | dispatch _ _ | wake _ => True
  | send k r => greets k r s
  | _ => False

theorem ofSchedule.ofUsage {e : Env} {o : Op} {s : Spool} (h : o.ofSchedule s) : o.ofUsage e s := by
  cases o with
  | dispatch uid p | wake p => trivial
  | send socket r => exact h
  | _ => exact h.elim

theorem ofDead.ofUsage {e : Env} {o : Op} {s : Spool} (h : o.ofDead e s) : o.ofUsage e s := by
  cases o with
  | finish r jobid => exact h
  | notify jobid => trivial
  | _ => exact h.elim

end Op

namespace Spool

variable {e : Env} {s s' : Spool} {jobid socket : ℤ} {ok : Op → Spool → Prop}

theorem round_ops {l : List ℕ} {found found' : Bool} (hids : s.view.Ids)
    (hn : ∀ i ∈ l, i < s.nusers) (h : round e l (s, found) = .ok (s', found')) :
    Ops e (fun o s => o.ofSchedule s) s s' := by
  induction l generalizing s found with
  | nil =>
    cases h
    exact .refl
  | cons i l ih =>
    have hn' : ∀ i ∈ l, i < s.nusers := fun j hj => hn j (List.mem_cons_of_mem _ hj)
    have huid : (s.lastUid + i) % s.nusers < s.nusers :=
      Nat.mod_lt _ ((Nat.zero_le _).trans_lt (hn i List.mem_cons_self))
    rw [round] at h
    split_ifs at h with hqueue hroom
    · exact ih hids hn' h
    · cases h
      exact .refl
    · split at h
      · exact ih hids hn' h
      · rename_i p hp
        rw [Except.bind_eq_ok] at h
        obtain ⟨s₁, h₁, h⟩ := h
        have hmem := List.mem_of_find?_eq_some hp
        have hel : s.eligible e _ p := List.find?_some hp
        have hroom' : 0 < s.maxSlots - s.busySlots := by omega
        have hm := dispatch_moves hids huid hqueue hroom' hmem hel h₁
        have hnusers : s₁.nusers = s.nusers := hm.nusers_eq fun _ _ _ h => h
        refine Ops.trans (.single (.dispatch _ p) ⟨hmem, hel, huid, hqueue, hroom'⟩ trivial h₁)
          (ih (hm.ids hids) ?_ h)
        rw [hnusers]
        exact hn'

theorem wakeHeld_ops {fuel : ℕ} (hids : s.view.Ids) :
    Ops e (fun o s => o.ofSchedule s) s (wakeHeld fuel s) := by
  induction fuel generalizing s with
  | zero => exact .refl
  | succ fuel ih =>
    rw [wakeHeld]
    split
    · exact .refl
    · rename_i p hp
      have hmem := List.mem_of_find?_eq_some hp
      have hstate := List.find?_some hp
      have hwake : Ops e (fun o s => o.ofSchedule s) s (s.modJob p.jobid (Job.setState .queued)) :=
        .single (.wake p) ⟨findjob_of_mem hids hmem, by simpa using hstate⟩ trivial rfl
      have hids₁ := hwake.ids hids
      dsimp only
      split_ifs
      · exact hwake
      · split
        · exact hwake.trans (ih hids₁)
        · rename_i p₁ hp₁
          have hfind : (s.modJob p.jobid (Job.setState .queued)).findjob p.jobid = _ :=
            Queue.findjob_modJob (f := Job.setState .queued) (fun _ h => h) p.jobid
          have hq : p₁.state = .queued := by
            rw [hfind, if_pos rfl, findjob_of_mem hids hmem, Option.map_some] at hp₁
            rw [← Option.some.inj hp₁]
            rfl
          have hid := findjob_jobid hp₁
          exact (hwake.trans (.single (.send _ _) (by rfl) ⟨p₁, hid ▸ hp₁, hq, rfl, rfl⟩ rfl)).trans
            (ih hids₁)

theorem nextRunLoop_ops {fuel : ℕ} (hids : s.view.Ids) (h : nextRunLoop e fuel s = .ok s') :
    Ops e (fun o s => o.ofSchedule s) s s' := by
  induction fuel generalizing s with
  | zero => cases h
  | succ fuel ih =>
    rw [nextRunLoop] at h
    split_ifs at h
    · cases h
      exact .refl
    · rw [Except.bind_eq_ok] at h
      obtain ⟨⟨s₁, found⟩, h₁, h⟩ := h
      have hround := round_ops hids (fun i hi => List.mem_range.1 hi) h₁
      have hids₁ := hround.ids hids
      dsimp only at h
      split_ifs at h
      · have hwake : Ops e (fun o s => o.ofSchedule s) s₁ s₁.wakeAllHeldClients := wakeHeld_ops hids₁
        exact (hround.trans hwake).trans (ih (hwake.ids hids₁) h)
      · cases h
        exact hround

/-- **`next_run_job`** as a sequence of operations. -/
theorem nextRunJob_ops (hids : s.view.Ids) (h : s.nextRunJob e = .ok s') :
    Ops e (fun o s => o.ofSchedule s) s s' :=
  nextRunLoop_ops hids h

/-! ### The recount -/

theorem findjob_modJob_of_ne {f : Job → Job} {k : ℤ} (hf : ∀ p, (f p).jobid = p.jobid)
    (hne : k ≠ jobid) : (s.modJob jobid f).findjob k = s.findjob k :=
  Queue.findjob_modJob_of_ne (fun p h => (hf p).trans h) hne

theorem findjob_safePauseJob_of_ne {p : Job} {k : ℤ} (hne : k ≠ p.jobid) :
    (s.safePauseJob e p).findjob k = s.findjob k := by
  have hcores : ((s.cgroupsFreezeJob p).freeCores p).findjob k = s.findjob k :=
    Queue.findjob_freeCores_of_ne hne
  have halloc : ∀ (s : Spool) ptr, (s.freeAlloc e ptr).findjob k = s.findjob k := by
    intro s ptr
    rw [Queue.findjob, activeJobs_freeAlloc]
    rfl
  have hbind : (((s.cgroupsFreezeJob p).freeCores p).freeBind e p).findjob k = s.findjob k := by
    refine (findjob_modJob_of_ne ?_ hne).trans ((halloc _ _).trans hcores)
    exact fun _ => rfl
  rw [safePauseJob, pauseJobConfig]
  split_ifs
  · refine (findjob_modJob_of_ne ?_ hne).trans hbind
    exact fun _ => rfl
  · exact hbind

theorem findjob_sRelegateJob_of_ne {p : Job} {k : ℤ} (hne : k ≠ p.jobid) :
    (s.sRelegateJob e p).findjob k = s.findjob k := by
  rw [sRelegateJob, findjob_modJob_of_ne (f := Job.relegated) (fun _ => rfl) hne]
  split_ifs
  · exact findjob_safePauseJob_of_ne hne
  · rfl

theorem relegateAll_ops {l : List Job} (hnd : (l.map Job.jobid).Nodup)
    (hfind : ∀ p ∈ l, s.findjob p.jobid = some p) (hrun : ∀ p ∈ l, p.state = .running)
    (hok : ∀ p ∈ l, ∀ s, ok (.relegate p) s) :
    Ops e ok s (l.foldl (fun s p => s.sRelegateJob e p) s) := by
  induction l generalizing s with
  | nil => exact .refl
  | cons p l ih =>
    rw [List.map_cons, List.nodup_cons] at hnd
    refine Ops.trans (.single (.relegate p) ⟨hfind p List.mem_cons_self,
        .inl (hrun p List.mem_cons_self)⟩ (hok p List.mem_cons_self s) rfl)
      (ih hnd.2 (fun p' hp' => ?_) (fun p' hp' => hrun p' (List.mem_cons_of_mem _ hp'))
        fun p' hp' => hok p' (List.mem_cons_of_mem _ hp'))
    rw [findjob_sRelegateJob_of_ne]
    · exact hfind p' (List.mem_cons_of_mem _ hp')
    · intro heq
      exact hnd.1 (heq ▸ List.mem_map_of_mem hp')

theorem running_of_timedOut {p : Job} (h : timedOut e p) : p.state = .running := by
  simp only [timedOut, decide_eq_true_eq] at h
  exact h.1

/-- The jobs that `s_check_timeout` relegates, in the order in which it does. -/
def late (e : Env) (s : Spool) : List Job := (s.activeJobs.filter (timedOut e)).reverse

theorem late_nodup (hids : s.view.Ids) : ((s.late e).map Job.jobid).Nodup := by
  rw [late, List.map_reverse, List.nodup_reverse]
  exact (nodup_of_ids hids).sublist (List.filter_sublist.map _)

theorem mem_late {p : Job} : p ∈ s.late e ↔ p ∈ s.activeJobs ∧ timedOut e p := by
  rw [late, List.mem_reverse, List.mem_filter]

theorem late_ops (hids : s.view.Ids) (hok : ∀ p ∈ s.late e, ∀ s, ok (.relegate p) s) :
    Ops e ok s ((s.late e).foldl (fun s p => s.sRelegateJob e p) s) :=
  relegateAll_ops (late_nodup hids) (fun _ hp => findjob_of_mem hids (mem_late.1 hp).1)
    (fun _ hp => running_of_timedOut (mem_late.1 hp).2) hok

theorem sCheckTimeout_ops (hids : s.view.Ids) (hrel : ∀ p s, timedOut e p → ok (.relegate p) s)
    (hbottom : ∀ sp, ok (.bottom ((s.late e).map Job.jobid)) sp) : Ops e ok s (s.sCheckTimeout e).1 := by
  have hlate := late_ops hids fun p hp s => hrel p s (mem_late.1 hp).2
  have hsub : (s.late e).map Job.jobid ⊆
      ((s.late e).foldl (fun s p => s.sRelegateJob e p) s).activeJobs.map Job.jobid := by
    have hled := congrArg Ledger.active (ledger_foldl (f := fun s p => s.sRelegateJob e p)
      (fun _ _ => ledger_sRelegateJob) (s.late e) s)
    simp only [ledger] at hled
    rw [hled]
    intro k hk
    obtain ⟨p, hp, rfl⟩ := List.mem_map.1 hk
    exact List.mem_map_of_mem (mem_late.1 hp).1
  exact hlate.trans (.single (.bottom _) ⟨late_nodup hids, hsub⟩ (hbottom _) rfl)

theorem sweepJob_ops (h : s.sweepJob e jobid = .ok s') :
    Ops e (fun o s => o.ofDead e s) s s' := by
  rw [sweepJob] at h
  cases hp : s.findjob jobid with
  | none =>
    simp only [hp, Except.ok.injEq] at h
    exact .of_eq h.symm
  | some p =>
    simp only [hp] at h
    split_ifs at h with hdead
    · rw [Except.bind_eq_ok] at h
      obtain ⟨s₁, h₁, h⟩ := h
      exact Ops.trans (.single (.finish _ jobid) trivial ⟨p, hp, hdead, rfl⟩ h₁)
        (.single (.notify jobid) trivial trivial h)
    · cases h
      exact .refl

theorem sweepDead_ops (h : s.sweepDead e = .ok s') :
    Ops e (fun o s => o.ofDead e s) s s' :=
  Except.foldlM_induction (R := fun s s' : Spool => Ops e (fun o s => o.ofDead e s) s s')
    (fun _ => .refl) (fun h h' => h.trans h') (fun _ h => sweepJob_ops h) h

/-- `s_update_slots_usage` as a sequence of operations; the jobs that go to the end of the queue are
those that ran too long. -/
theorem sUpdateSlotsUsage_ops_of (hids : s.view.Ids) (hok : ∀ o sp, o.ofUsage e sp →
      (∀ ids, o = .bottom ids → ids = (s.late e).map Job.jobid) → ok o sp)
    (h : s.sUpdateSlotsUsage e = .ok s') : Ops e ok s s' := by
  rw [sUpdateSlotsUsage] at h
  have htime : Ops e ok s (s.sCheckTimeout e).1 :=
    sCheckTimeout_ops hids (fun p sp hto => hok (.relegate p) sp hto (fun ids h => by cases h))
      fun sp => hok (.bottom _) sp trivial fun ids h => by
        cases h
        rfl
  have hsweep : ∀ {s₁ s₂}, s₁.sweepDead e = .ok s₂ → Ops e ok s₁ s₂ := fun h =>
    (sweepDead_ops h).mono fun o sp ho => hok o sp ho.ofUsage fun ids h => by
      subst h
      exact ho.elim
  revert h htime
  generalize s.sCheckTimeout e = r
  obtain ⟨s₀, timeout⟩ := r
  intro h htime
  simp only [Except.bind_eq_ok] at h
  obtain ⟨s₁, h₁, s₂, h₂, h⟩ := h
  have hcount := (htime.trans (hsweep h₁)).trans
    (.single .recount trivial (hok .recount _ trivial (fun ids h => by cases h)) h₂)
  split_ifs at h
  · refine hcount.trans ((nextRunJob_ops (hcount.ids hids) h).mono fun o sp ho => ?_)
    refine hok o sp ho.ofUsage fun ids h => ?_
    subst h
    exact ho.elim
  · cases h
    exact hcount

/-- **`s_update_slots_usage`** as a sequence of operations. -/
theorem sUpdateSlotsUsage_ops (hids : s.view.Ids) (h : s.sUpdateSlotsUsage e = .ok s') :
    Ops e (fun o s => o.ofUsage e s) s s' :=
  sUpdateSlotsUsage_ops_of hids (fun _ _ ho _ => ho) h

end Spool

end TaskSpooler
