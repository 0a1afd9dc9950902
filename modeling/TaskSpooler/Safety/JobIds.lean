import TaskSpooler.Store.Steps
import TaskSpooler.Server.Runs

/-!
# Job ids

`s_newjob` takes a job id from the counter `jobids`, or the one that the client asks for.  In the
latter case it looks for the id in `active_jobs` only.

* `job_ids_unique`: if the clients ask for ids that no finished job has, all ids are positive,
  distinct, below the counter, and an id from the counter has not been used before.
* `finished_id_taken`: a client can ask for the id of a finished job, and there are two jobs with the
  same id then.
-/

namespace TaskSpooler

namespace Spool

variable {e : Env} {s s' : Spool} {socket id : ℤ} {m : NewJob} {user : ℕ}

theorem jobids_countQueued {q : Queue} {u : Option ℕ} : (q.countQueued u).jobids = q.jobids := by
  cases u <;> rfl

theorem jobids_newjobEnqueue {p : Job} : (s.newjobEnqueue p).jobids = s.jobids := by
  rw [newjobEnqueue]
  split
  · exact jobids_countQueued
  · rfl
  · exact jobids_countQueued

/-- The counter after a submission. -/
theorem jobids_newjobFill {old : Option Job}
    (h : s.newjobFill e socket m user old = .ok (s', id)) :
    s'.jobids = s.jobids ∨ s'.jobids = s.nextJobids m := by
  have hstart : ∀ s₁ : Spool, s₁ = (if old = none then { s with jobids := s.nextJobids m } else s) →
      s₁.jobids = s.jobids ∨ s₁.jobids = s.nextJobids m := by
    rintro s₁ rfl
    split_ifs
    · exact .inr rfl
    · exact .inl rfl
  rw [newjobFill] at h
  dsimp only at h
  generalize hs₁ : (if old = none then { s with jobids := s.nextJobids m } else s) = s₁ at h
  have h₁ := hstart s₁ hs₁.symm
  split at h
  · cases h
    have hsame : (s₁.onQueue fun q => if old = none then q else q.dropJob
        (newjobOwner socket m user (old.getD (s.newjobptr m))).jobid).jobids = s₁.jobids := by
      simp only [onQueue]
      split_ifs <;> rfl
    exact hsame ▸ h₁
  · rw [Except.bind_eq_ok] at h
    obtain ⟨⟨q, p⟩, hloop, h⟩ := h
    obtain ⟨ds, rfl, -, -⟩ := Queue.dependLoop_spec hloop
    cases h
    refine Eq.substr (p := fun n => n = s.jobids ∨ n = s.nextJobids m) ?_ h₁
    refine jobids_newjobEnqueue.trans ?_
    simp only [onQueue]
    split_ifs <;> rfl

theorem jobids_sNewjob (hids : s.view.Ids) (h : s.sNewjob e socket m user = .ok (s', id)) :
    s'.jobids = s.jobids ∨ s'.jobids = s.nextJobids m := by
  rw [sNewjob, Except.bind_eq_ok] at h
  obtain ⟨s₁, h₁, h⟩ := h
  have hjobids : s₁.jobids = s.jobids :=
    Server.jobids_of_ops hids (sUpdateSlotsUsage_ops hids h₁) fun o s ho => Op.not_fills_of_ofUsage ho
  have hnext : s₁.nextJobids m = s.nextJobids m := by
    simp only [nextJobids, hjobids]
  rw [← hjobids, ← hnext]
  split at h
  · exact jobids_newjobFill h
  · split_ifs at h
    · exact jobids_newjobFill h
    · cases h
      exact .inl rfl

/-- An id that the server chooses is the value of its counter. -/
theorem id_sNewjob (hids : s.view.Ids) (hm : m.jobid = 0)
    (h : s.sNewjob e socket m user = .ok (s', id)) : id = -1 ∨ id = s.jobids := by
  rw [sNewjob, Except.bind_eq_ok] at h
  obtain ⟨s₁, h₁, h⟩ := h
  have hjobids : s₁.jobids = s.jobids :=
    Server.jobids_of_ops hids (sUpdateSlotsUsage_ops hids h₁) fun o s ho => Op.not_fills_of_ofUsage ho
  have hids₁ := (sUpdateSlotsUsage_ops hids h₁).ids hids
  rw [if_pos hm] at h
  obtain ⟨a, -, -, ⟨rfl, -⟩ | ⟨hid, -⟩⟩ := newjobFill_none_entry hids₁ (fun hne => absurd hm hne) h
  · exact .inl rfl
  · refine .inr (hid.trans ?_)
    rw [newjobptr, ← hjobids]
    simp [hm]

end Spool

namespace Server

variable {e : Env} {s s' s₀ : Server} {C : Config}

/-- The counter after a step. -/
theorem jobids_newjob {index : ℕ} {m : NewJob} (hids : s.view.Ids)
    (huser : (s.clientCs index).user < s.nusers) (h : s.newjob e index m = .ok s') :
    s'.jobids = s.jobids ∨ s'.jobids = s.nextJobids m := by
  rw [newjob] at h
  have hview := Spool.view_sCheckLocker (s := s.toSpool) e (s.clientCs index).user
  revert h hview
  generalize s.toSpool.sCheckLocker e (s.clientCs index).user = lock
  obtain ⟨sp, locked⟩ := lock
  intro h hview
  have hjobids : sp.jobids = s.jobids := congrArg (fun v : View => v.jobids) hview
  have hnext : sp.nextJobids m = s.nextJobids m := by
    simp only [Spool.nextJobids, hjobids]
  rw [← hjobids, ← hnext]
  dsimp only at h
  by_cases hl : locked
  · rw [if_pos hl] at h
    cases h
    exact .inl rfl
  · rw [if_neg hl, Except.bind_eq_ok] at h
    obtain ⟨⟨sp₁, jobid⟩, h₁, h⟩ := h
    have hnusers : sp.nusers = s.nusers := congrArg (fun v : View => v.nusers) hview
    have hids' : sp.view.Ids := hview ▸ hids
    have hids₁ : sp₁.view.Ids :=
      (sNewjob_ops hids' (hnusers ▸ huser) h₁).ids hids'
    have hclean : ∀ {s₁ s₂ : Server} {socket : ℤ}, s₁.view.Ids → s₁.jobids = sp₁.jobids →
        s₁.cleanAfterClientDisappeared e socket index = .ok s₂ → s₂.jobids = sp₁.jobids := by
      intro s₁ s₂ socket hs₁ heq hc
      refine (jobids_of_ops hs₁ (clean_ops hc) fun o sp ho => ?_).trans heq
      obtain ⟨-, ho⟩ | ⟨-, rfl⟩ := ho
      · cases o with
        | fill socket m user old => exact ho.elim
        | _ => exact id
      · exact id
    have hsame : s'.jobids = sp₁.jobids := by
      dsimp only at h
      by_cases hid : jobid = -1
      · rw [if_pos hid] at h
        exact hclean hids₁ rfl h
      · rw [if_neg hid] at h
        split at h
        · split at h
          · cases h
            rfl
          · exact hclean hids₁ rfl h
        · cases h
          rfl
    rw [hsame]
    exact Spool.jobids_sNewjob hids' h₁

/-- The ids that the clients ask for are free, and there is room for another id. -/
def idsFree (l : Env × Input) (s : Server) : Prop :=
  AsksFree l.1 s.toSpool l.2 ∧ s.RoomForId l.2

instance decidableAsksFree (e : Env) (sp : Spool) (i : Input) : Decidable (AsksFree e sp i) := by
  unfold AsksFree
  split
  · unfold IdFree
    infer_instance
  · infer_instance

instance : ∀ l s, Decidable (idsFree l s) := fun _ _ => inferInstanceAs (Decidable (_ ∧ _))

theorem nextJobids_le {m : NewJob} (h : s.jobids < intMax) (hm : m.jobid < intMax) :
    s.nextJobids m ≤ intMax := by
  rw [Spool.nextJobids]
  split_ifs <;> omega

/-- A step keeps the counter in its range. -/
theorem Step.jobids_le {l : Env × Input} (hs : s.Sound) (hf : s.ledger.Filed)
    (hle : s.jobids ≤ intMax) (hok : idsFree l s) (h : Step C s l s') : s'.jobids ≤ intMax := by
  obtain ⟨-, hen, h⟩ := h
  by_cases hi : l.2 = .restart
  · rw [hi, step, Except.bind_eq_ok] at h
    obtain ⟨sp, hsp, h⟩ := h
    cases h
    obtain ⟨s₁, hops, hend⟩ := Spool.serverMain_ops hsp
    have hkeys : ∀ k ∈ s.dbJobs.keys, k < s.dbJobids := fun k hk =>
      (hf.known k (.inl (Table.isSome_order.2 hk))).2
    have hload : (s.reload l.1).jobids = s.dbJobids :=
      congrArg Ledger.jobids (Spool.ledger_reload (e := l.1) hf.pos hkeys)
    have h₁ : s₁.jobids = s.dbJobids :=
      (jobids_of_ops Spool.reload_reloaded.ids hops fun o s ho => Op.not_fills_of_ofUsage ho).trans hload
    have hsame : sp.jobids = s₁.jobids := by
      obtain rfl | hend := hend
      · rfl
      · exact congrArg Ledger.jobids (Spool.ledger_cgroupsRestoreAllCpuBind hend)
    show sp.jobids ≤ intMax
    rw [hsame, h₁]
    exact hf.counter.trans hle
  · by_cases hnew : ∃ index m, l.2 = .message index (.newjob m)
    · obtain ⟨index, m, hl⟩ := hnew
      have hroom := hok.2
      rw [hl] at h hen hroom
      have hlock : (s.onSpool fun sp => sp.timeoutLock l.1).jobids = s.jobids :=
        congrArg (fun v : View => v.jobids) (Spool.view_timeoutLock (s := s.toSpool) l.1)
      have hnext : (s.onSpool fun sp => sp.timeoutLock l.1).nextJobids m = s.nextJobids m := by
        simp only [Spool.nextJobids, hlock]
      obtain hsame | hsame := jobids_newjob hs.timeoutLock.ids (hs.timeoutLock.users index hen) h
      · rw [hsame, hlock]
        exact hle
      · rw [hsame, hnext]
        exact nextJobids_le hroom.1 hroom.2
    · rw [jobids_of_ops hs.ids (step_ops hs hen hi h) fun o sp ho hfill => hnew ?_]
      · exact hle
      · cases o with
        | fill socket m user old =>
          obtain ⟨index, hl⟩ := ho.fill
          exact ⟨index, m, hl⟩
        | _ => exact hfill.elim

/-- A server that has just been started, with an empty database. -/
structure NewBooks (s : Server) : Prop where
  jobs : s.dbJobs.rows = []
  finished : s.dbFinished.rows = []
  pos : 0 < s.dbJobids
  counter : s.dbJobids ≤ s.jobids
  limit : s.jobids ≤ intMax

theorem NewBooks.order (h : s.NewBooks) (k : ℤ) : s.ledger.order k = none := by
  have hnot : ¬(s.dbJobs.order k).isSome := by
    rw [Table.isSome_order, Table.mem_keys, h.jobs]
    rintro ⟨r, hr, -⟩
    exact List.not_mem_nil hr
  show s.dbJobs.order k = none
  simpa using hnot

theorem NewBooks.filed (h : s.NewBooks) (hs : s.Fresh) : s.ledger.Filed := by
  have hkeys : s.ledger.filed = [] := by
    show s.dbFinished.rows.map _ = []
    rw [h.finished, List.map_nil]
  have hactive : s.ledger.active = [] := by
    show s.activeJobs.map _ = []
    rw [hs.activeJobs, List.map_nil]
  have hshelf : s.ledger.shelf = [] := by
    show s.finishedJobs.map _ = []
    rw [hs.finishedJobs, List.map_nil]
  refine ⟨by rw [hactive]; exact List.nodup_nil, by rw [hactive]; simp, fun k hk => ?_,
    by rw [hshelf]; exact List.nodup_nil, by rw [hshelf]; exact List.nil_subset _, fun k hk => ?_,
    h.counter, h.pos⟩
  · rw [hkeys]
    exact List.not_mem_nil
  · obtain hk | hk := hk
    · rw [h.order] at hk
      cases hk
    · rw [hkeys] at hk
      exact absurd hk List.not_mem_nil

theorem NewBooks.mirrored (h : s.NewBooks) (hs : s.Fresh) : s.ledger.Mirrored := by
  have hactive : s.ledger.active = [] := by
    show s.activeJobs.map _ = []
    rw [hs.activeJobs, List.map_nil]
  have horder : s.ledger.order = fun _ => none := funext h.order
  rw [Ledger.Mirrored, hactive, horder]
  exact Ranked.nil

/-- The books agree in every state of such a run. -/
theorem Run.filed (hs₀ : s₀.Fresh) (hb : s₀.NewBooks) (h : Run (Step C) idsFree s₀ s) :
    s.Sound ∧ s.ledger.Filed ∧ s.jobids ≤ intMax :=
  h.invariant (I := fun s => s.Sound ∧ s.ledger.Filed ∧ s.jobids ≤ intMax)
    ⟨hs₀.sound, hb.filed hs₀, hb.limit⟩ fun ⟨hs, hf, hle⟩ hok hst =>
      ⟨hst.sound hs, hst.filed hs hf hok.1, hst.jobids_le hs hf hle hok⟩

/-- The ids are distinct, positive and below the counter, and the next one is new. -/
structure UniqueIds (s : Server) : Prop where
  nodup : ((s.activeJobs ++ s.finishedJobs).map Job.jobid).Nodup
  range : ∀ p ∈ s.activeJobs ++ s.finishedJobs, 0 < p.jobid ∧ p.jobid < s.jobids
  limit : s.jobids ≤ intMax
  fresh : ∀ e socket m user sp id, m.jobid = 0 → s.sNewjob e socket m user = .ok (sp, id) →
    id ≠ -1 → ∀ p ∈ s.activeJobs ++ s.finishedJobs, p.jobid ≠ id

/-- **Job ids are unique**, over restarts as well, as long as no client asks for the id of a job that
has finished or whose process has died. -/
theorem job_ids_unique (hs₀ : s₀.Fresh) (hb : s₀.NewBooks) (h : Run (Step C) idsFree s₀ s) :
    s.UniqueIds := by
  obtain ⟨hs, hf, hle⟩ := Run.filed hs₀ hb h
  have hrange : ∀ p ∈ s.activeJobs ++ s.finishedJobs, 0 < p.jobid ∧ p.jobid < s.jobids := by
    intro p hp
    have hknown : 0 < p.jobid ∧ p.jobid < s.dbJobids := by
      obtain hp | hp := List.mem_append.1 hp
      · exact hf.known _ (.inl (hf.rows _ (List.mem_map_of_mem hp)))
      · exact hf.known _ (.inr (hf.shelf (List.mem_map_of_mem hp)))
    exact ⟨hknown.1, hknown.2.trans_le hf.counter⟩
  refine ⟨?_, hrange, hle, fun e socket m user sp id hm hnew hid p hp heq => ?_⟩
  · rw [List.map_append]
    refine List.nodup_append.2 ⟨hf.nodup, hf.shelf_nodup, ?_⟩
    rintro j hj k hk rfl
    exact hf.apart_active hj (hf.shelf hk)
  · obtain hneg | hcount := Spool.id_sNewjob hs.ids hm hnew
    · exact hid hneg
    · have := (hrange p hp).2
      omega

theorem newBooks_started : started.NewBooks := ⟨rfl, rfl, by decide, by decide, by decide⟩

/-- A client asks for an id that no job has. -/
theorem chosen_id_unique : ∃ s : Server,
    s.activeJobs.map Job.jobid = [1003] ∧ s.finishedJobs.map Job.jobid = [1000] ∧ s.UniqueIds := by
  obtain ⟨s, hr, hs⟩ := exists_run plainConfig idsFree started
    (fun s => s.activeJobs.map Job.jobid = [1003] ∧ s.finishedJobs.map Job.jobid = [1000])
    [(world 1, .accept 5 1000), (world 2, .message 0 (.newjob {})), (world 3, .schedule),
      (world 4, .message 0 (.runjobOk none 100)), (world 5, .message 0 (.endjob { realSec := 1 })),
      (world 6, .accept 6 1000), (world 7, .message 1 (.newjob { jobid := 1003 }))]
    (by simp [world]) (by decide +kernel)
  obtain ⟨hactive, hshelf⟩ := of_decide_eq_true hs
  exact ⟨s, hactive, hshelf, job_ids_unique fresh_started newBooks_started hr⟩

/-- The job 1000 ends, and a client asks for its id. -/
theorem finished_id_taken : ¬∀ (C : Config) (s₀ s : Server), s₀.Fresh → s₀.NewBooks →
    Run (Step C) anyInput s₀ s → s.UniqueIds := by
  intro hall
  obtain ⟨s, hr, hs⟩ := exists_run plainConfig anyInput started
    (fun s => ¬((s.activeJobs ++ s.finishedJobs).map Job.jobid).Nodup)
    [(world 1, .accept 5 1000), (world 2, .message 0 (.newjob {})), (world 3, .schedule),
      (world 4, .message 0 (.runjobOk none 100)), (world 5, .message 0 (.endjob { realSec := 1 })),
      (world 6, .accept 6 1000), (world 7, .message 1 (.newjob { jobid := 1000 }))]
    (by simp [world]) (by decide +kernel)
  exact of_decide_eq_true hs (hall _ _ _ fresh_started newBooks_started hr).nodup

end Server

end TaskSpooler
