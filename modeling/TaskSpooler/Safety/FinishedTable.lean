import TaskSpooler.Safety.JobIds
import TaskSpooler.Safety.Unkept

/-!
# The finished jobs and their table

`new_finished_job` writes a row to the table `Finished`, and `s_remove_job` and `s_clear_finished`
delete it together with the job.  Where a finished job is dropped in another way its row stays: the
oldest job that makes room for the next one (`evicted_job_stays_filed`), and the job that
`check_notify_list` destroys.  A new process reads all rows, so that the jobs come back and the list
is longer than it may be.

`finished_jobs_filed`: as long as there is room for each job that ends, and none is destroyed
(`Op.Tidy`), the list and the table hold the same jobs, over restarts as well.
-/

namespace TaskSpooler

namespace Ledger

/-- All rows of `Finished` are those of jobs in the list, which is not too long. -/
structure Matched (max : ℕ) (b : Ledger) : Prop where
  filed : b.filed ⊆ b.shelf
  bounded : b.shelf.length ≤ max

end Ledger

namespace Op

/-- No finished job is dropped without its row: there is room for a job that ends, and none is
destroyed after the last one who waits for it has been told. -/
def Tidy (e : Env) (o : Op) (s : Spool) : Prop :=
  match o with
  | finish _ _ => s.finishedJobs.length < e.maxFinished
  | removeActive p => p.pid ≠ 0 → s.finishedJobs.length < e.maxFinished
  | notify jobid => ∀ j, s.getJob jobid = some j → j.Over → s.ServesAll jobid →
      j.shouldKeepFinished = true
  | _ => True

end Op

section Purged

variable {k : ℤ} {l l' : List (ℤ × Bool)}

/-- The jobs with other ids are left. -/
theorem Purged.mem (h : Purged k l l') {j : ℤ}
    (hj : j ∈ l.map Prod.fst) (hne : j ≠ k) : j ∈ l'.map Prod.fst := by
  obtain ⟨y, hy, rfl⟩ := List.mem_map.1 hj
  have hmem : y ∈ l.filter fun y => y.1 ≠ k := List.mem_filter.2 ⟨hy, by simpa using hne⟩
  rw [← h.2] at hmem
  exact List.mem_map_of_mem (List.mem_filter.1 hmem).1

/-- Nothing changes where no job has the id. -/
theorem Purged.eq_of_notMem (h : Purged k l l')
    (hk : k ∉ l.map Prod.fst) : l' = l := by
  have hall : ∀ {m : List (ℤ × Bool)}, k ∉ m.map Prod.fst → (m.filter fun y => y.1 ≠ k) = m := by
    intro m hm
    refine List.filter_eq_self.2 fun y hy => ?_
    have hne : y.1 ≠ k := fun heq => hm (heq ▸ List.mem_map_of_mem hy)
    simpa using hne
  have hk' : k ∉ l'.map Prod.fst := fun hmem => hk ((h.1.map Prod.fst).subset hmem)
  rw [← hall hk, ← h.2, hall hk']

end Purged

/-! ### The operations -/

namespace Spool

variable {e : Env} {s s' : Spool} {o : Op} {p : Job} {k : ℤ} {max : ℕ}

theorem ids_of_shelf : s.shelf.map Prod.fst = s.ledger.shelf := by
  show (s.finishedJobs.map Job.tag).map Prod.fst = s.finishedJobs.map Job.jobid
  rw [List.map_map]
  rfl

theorem ids_shelf_congr (h : s'.shelf = s.shelf) : s'.ledger.shelf = s.ledger.shelf := by
  rw [← ids_of_shelf, h, ids_of_shelf]

/-- Only the job that ends gets a row. -/
theorem filed_run (hids : s.view.Ids) (hpre : o.Pre e s) (h : o.run e s = .ok s')
    (hk : k ∈ s'.ledger.filed) : k ∈ s.ledger.filed ∨ o.Files k := by
  by_contra hnot
  rw [not_or] at hnot
  exact (Op.entries hids hpre h).invariant (I := fun b => k ∉ b.filed) hnot.1
    (fun hb hbook _ => hbook.notMem_filed hnot.2 hb) hk

theorem shelf_checkNotifyList (h : s.checkNotifyList k = .ok s')
    (hkeep : (Op.notify k).Tidy e s) : s'.shelf = s.shelf := by
  cases hget : s.getJob k with
  | none =>
    rw [checkNotifyList] at h
    cases hl : s.notifies.filter fun n => n.2 = k with
    | nil =>
      rw [hl] at h
      cases h
      rfl
    | cons n l =>
      rw [hl, List.foldlM_cons, notifyWaiter, hget] at h
      cases h
  | some j =>
    have hid : j.jobid = k := Spool.getJob_jobid hget
    by_cases hover : j.Over
    · have heq := checkNotifyList_eq (hid.symm ▸ hget) hover
      have hnot : ¬(s.ServesAll j.jobid ∧ j.shouldKeepFinished = false) := by
        rintro ⟨hserves, hdrop⟩
        rw [hkeep j hget hover (hid ▸ hserves)] at hdrop
        cases hdrop
      rw [if_neg hnot, hid, h] at heq
      cases heq
      rw [toldOf, toQueue_tell]
    · rw [checkNotifyList_of_not_over hget hover] at h
      cases h
      rfl

theorem kept_of_room {l : List Job} (h : l.length < max) : Queue.kept max l = l :=
  if_neg (Nat.not_le.2 h)

/-- The list after a job has ended. -/
theorem shelf_jobFinished {r : Result} (hids : s.view.Ids) (h : s.jobFinished e r k = .ok s')
    (hroom : s.finishedJobs.length < e.maxFinished) : s'.ledger.shelf = s.ledger.shelf ++ [k] := by
  obtain ⟨p, l, x, rfl, hend⟩ := endOf_jobFinished hids h
  rw [← ids_of_shelf, hend.shelf, kept_of_room hroom, List.map_append, ← ids_of_shelf]
  exact congrArg (s.shelf.map Prod.fst ++ [·]) hend.jobid

theorem filed_removeActive (hpid : p.pid = 0) (h : s.removeActive e p = .ok s') :
    s'.ledger.filed = s.ledger.filed := by
  rw [removeActive, Except.bind_eq_ok] at h
  obtain ⟨s₂, h₂, h⟩ := h
  obtain ⟨l, -, hs₂⟩ := ledger_checkNotifyList h₂
  rw [if_pos hpid] at h
  cases h
  have hgone : (((s.deleteJobsDb p.jobid).modJob p.jobid Job.gone).onQueue fun q =>
      q.notifyErrorlevel p.gone).ledger = (s.deleteJobsDb p.jobid).ledger := by
    rw [ledger_onQueue Queue.ids_notifyErrorlevel, ledger_modJob (f := Job.gone) fun _ => rfl]
  rw [hgone] at hs₂
  have hfiled : s₂.ledger.filed = s.ledger.filed := by
    rw [hs₂]
    rfl
  exact hfiled

/-- The list after an active job has been removed. -/
theorem shelfIds_removeActive (hf : s.ledger.Filed) (hp : s.findjob p.jobid = some p)
    (h : s.removeActive e p = .ok s')
    (hroom : p.pid ≠ 0 → s.finishedJobs.length < e.maxFinished) :
    p.pid = 0 ∧ s'.ledger.shelf = s.ledger.shelf ∨
      s'.ledger.shelf = s.ledger.shelf ++ [p.jobid] ∧ s.ledger.shelf.length < e.maxFinished := by
  obtain ⟨l, hpurged, hshelf⟩ := shelf_removeActive h
  have hnot : p.jobid ∉ s.shelf.map Prod.fst := by
    rw [ids_of_shelf]
    have hmem : p.jobid ∈ s.ledger.active := List.mem_map_of_mem (Keyed.mem_of_lookup hp)
    exact fun hk => hf.apart_active hmem (hf.shelf hk)
  have hsame := hpurged.eq_of_notMem hnot
  by_cases hpid : p.pid = 0
  · rw [if_pos hpid, hsame] at hshelf
    exact .inl ⟨hpid, ids_shelf_congr hshelf⟩
  · have hlen : l.length = s.finishedJobs.length := by
      have hlen := congrArg List.length hsame
      rwa [Queue.shelf, List.length_map, List.length_map] at hlen
    have hlt := hroom hpid
    rw [if_neg hpid, kept_of_room (hlen.trans_lt hlt), hsame] at hshelf
    refine .inr ⟨?_, ?_⟩
    · rw [← ids_of_shelf, hshelf, List.map_append, ids_of_shelf]
      rfl
    · rw [Spool.ledger, List.length_map]
      exact hlt

theorem notMem_filed_removeFinished (h : s.removeFinished p = .ok s') :
    p.jobid ∉ s'.ledger.filed := by
  rw [removeFinished, Except.bind_eq_ok] at h
  obtain ⟨s₂, -, h⟩ := h
  split at h
  · cases h
  · cases h
    intro hk
    have hkeys := hk
    rw [ledger_log, Spool.ledger] at hkeys
    have hdel : p.jobid ∈ (s₂.dbFinished.delete p.jobid).keys := hkeys
    rw [Table.keys_delete, List.mem_filter] at hdel
    simp at hdel

theorem matched_clear {user : ℕ} (hm : s.ledger.Matched max) :
    (s.sClearFinished user).ledger.Matched max := by
  rw [ledger_sClearFinished]
  refine ⟨fun k hk => ?_, ?_⟩
  · obtain ⟨hk, hnot⟩ := List.mem_filter.1 hk
    obtain ⟨p, hp, rfl⟩ := List.mem_map.1 (hm.filed hk)
    refine List.mem_map_of_mem (List.mem_filter.2 ⟨hp, ?_⟩)
    rw [Bool.not_eq_true']
    by_contra hmine
    rw [Bool.not_eq_false] at hmine
    exact of_decide_eq_true hnot (List.mem_map_of_mem (List.mem_filter.2 ⟨hp, hmine⟩))
  · have hlen := hm.bounded
    rw [Spool.ledger, List.length_map] at hlen
    exact (List.length_map _).trans_le ((List.length_filter_le _ _).trans hlen)

end Spool

namespace Op

variable {e : Env} {s s' : Spool} {o : Op} {max : ℕ}

/-- A job is put on the shelf and in the table. -/
theorem matched_finish {k : ℤ} (hm : s.ledger.Matched max)
    (hshelf : s'.ledger.shelf = s.ledger.shelf ++ [k]) (hroom : s.ledger.shelf.length < max)
    (hfiled : ∀ j ∈ s'.ledger.filed, j ∈ s.ledger.filed ∨ k = j) : s'.ledger.Matched max := by
  refine ⟨fun j hj => ?_, ?_⟩
  · rw [hshelf, List.mem_append, List.mem_singleton]
    exact (hfiled j hj).imp (fun hj => hm.filed hj) Eq.symm
  · rw [hshelf, List.length_append, List.length_singleton]
    exact hroom

theorem matched_same (hm : s.ledger.Matched max) (hshelf : s'.ledger.shelf = s.ledger.shelf)
    (hfiled : s'.ledger.filed ⊆ s.ledger.filed) : s'.ledger.Matched max := by
  refine ⟨fun j hj => ?_, ?_⟩
  · rw [hshelf]
    exact hm.filed (hfiled hj)
  · rw [hshelf]
    exact hm.bounded

/-- **A tidy operation keeps the list and the table alike.** -/
theorem matched (hids : s.view.Ids) (hf : s.ledger.Filed) (hm : s.ledger.Matched e.maxFinished)
    (hpre : o.Pre e s) (h : o.run e s = .ok s') (ho : o.Tidy e s) :
    s'.ledger.Matched e.maxFinished := by
  have hfiled : ∀ j ∈ s'.ledger.filed, j ∈ s.ledger.filed ∨ o.Files j :=
    fun j hj => Spool.filed_run hids hpre h hj
  have hlen : s.ledger.shelf.length = s.finishedJobs.length := List.length_map _
  by_cases hshelves : o.Shelves
  · cases o with
    | finish r k =>
      exact matched_finish hm (Spool.shelf_jobFinished hids h ho) (hlen.trans_lt ho) hfiled
    | notify k =>
      exact matched_same hm (Spool.ids_shelf_congr (Spool.shelf_checkNotifyList h ho))
        fun j hj => (hfiled j hj).resolve_right id
    | removeActive p =>
      obtain ⟨hpid, hshelf⟩ | ⟨hshelf, hroom⟩ := Spool.shelfIds_removeActive hf hpre.1 h ho
      · exact matched_same hm hshelf fun j hj =>
          Spool.filed_removeActive hpid h ▸ hj
      · exact matched_finish hm hshelf hroom hfiled
    | removeFinished p =>
      have hpurged := Spool.purged_removeFinished h
      refine ⟨fun j hj => ?_, ?_⟩
      · have hne : j ≠ p.jobid := by
          rintro rfl
          exact Spool.notMem_filed_removeFinished h hj
        have hold := hm.filed ((hfiled j hj).resolve_right id)
        rw [← Spool.ids_of_shelf] at hold ⊢
        exact hpurged.mem hold hne
      · rw [← Spool.ids_of_shelf]
        refine ((hpurged.1.map Prod.fst).length_le).trans ?_
        rw [Spool.ids_of_shelf]
        exact hm.bounded
    | clear user =>
      cases h
      exact Spool.matched_clear hm
    | _ => exact hshelves.elim
  · refine matched_same hm (Spool.ids_shelf_congr (shelf_run hids hpre h hshelves)) fun j hj => ?_
    refine (hfiled j hj).resolve_right fun hfiles => hshelves ?_
    cases o with
    | finish | removeActive => trivial
    | _ => exact hfiles.elim

end Op

/-! ### Runs -/

namespace Spool

variable {e : Env} {s s' : Spool} {max : ℕ}

/-- A new process puts all the rows into the list. -/
theorem shelf_reload (hf : s.ledger.Filed) :
    (s.reload e).ledger.shelf.Perm s.ledger.filed ∧ (s.reload e).ledger.filed = s.ledger.filed := by
  have hkeys : ∀ k ∈ s.dbJobs.keys, k < s.dbJobids := fun k hk =>
    (hf.known k (.inl (Table.isSome_order.2 hk))).2
  rw [ledger_reload hf.pos hkeys]
  exact ⟨(e.Q.perm _ _).map _, rfl⟩

theorem matched_reload (hf : s.ledger.Filed) (hm : s.ledger.Matched max) :
    (s.reload e).ledger.Matched max := by
  obtain ⟨hperm, hfiled⟩ := shelf_reload (e := e) hf
  refine ⟨hfiled ▸ hperm.symm.subset, ?_⟩
  calc (s.reload e).ledger.shelf.length
      = s.ledger.filed.length := hperm.length_eq
    _ ≤ s.ledger.shelf.length := (List.subperm_of_subset s.dbFinished.nodup hm.filed).length_le
    _ ≤ max := hm.bounded

/-- The list of the finished jobs is not too long, its jobs are those in the table `Finished`, and a
new process would find the same ones. -/
structure FinishedFiled (max : ℕ) (s : Spool) : Prop where
  bounded : s.finishedJobs.length ≤ max
  table : ∀ k, k ∈ s.dbFinished.keys ↔ k ∈ s.finishedJobs.map Job.jobid
  restored : ∀ e k, k ∈ (s.reload e).finishedJobs.map Job.jobid ↔ k ∈ s.finishedJobs.map Job.jobid

theorem finishedFiled_of (hf : s.ledger.Filed) (hm : s.ledger.Matched max) : s.FinishedFiled max := by
  have htable : ∀ k, k ∈ s.dbFinished.keys ↔ k ∈ s.finishedJobs.map Job.jobid :=
    fun k => ⟨fun hk => hm.filed hk, fun hk => hf.shelf hk⟩
  refine ⟨?_, htable, fun e k => ?_⟩
  · have hlen := hm.bounded
    rwa [Spool.ledger, List.length_map] at hlen
  · exact (shelf_reload hf).1.mem_iff.trans (htable k)

end Spool

namespace Server

open Spool

variable {C : Config} {s₀ s : Server} {max : ℕ}

/-- The operation is tidy, and asks for no id of a finished job. -/
def KeepsFiled (e : Env) (o : Op) (sp : Spool) : Prop := o.Tidy e sp ∧ o.AsksUnfiled sp

/-- **The finished jobs and the table agree** in every run whose operations are tidy, if the limit is
fixed and no client asks for the id of a finished job. -/
theorem finished_jobs_filed (h₀ : s₀.Fresh) (hb : s₀.NewBooks)
    (h : Run (OpStep C KeepsFiled) (fun l _ => l.1.maxFinished = max) s₀ s) : s.FinishedFiled max := by
  have hrun := h.invariant (I := fun s => s.Sound ∧ s.ledger.Filed ∧ s.ledger.Matched max)
    ⟨h₀.sound, hb.filed h₀, ?_⟩ fun {s s' l} ⟨hs, hf, hm⟩ hmax hst => ⟨hst.1.sound hs, ?_⟩
  · exact finishedFiled_of hrun.2.1 hrun.2.2
  · have hshelf : s₀.ledger.shelf = [] := by
      show s₀.finishedJobs.map _ = []
      rw [h₀.finishedJobs, List.map_nil]
    have hfiled : s₀.ledger.filed = [] := by
      show s₀.dbFinished.rows.map _ = []
      rw [hb.finished, List.map_nil]
    exact ⟨hfiled ▸ List.nil_subset _, by rw [hshelf]; exact Nat.zero_le _⟩
  · subst hmax
    refine hst.invariant (I := fun sp => sp.ledger.Filed ∧ sp.ledger.Matched l.1.maxFinished) hs ?_
      (fun hids hI ho hpre hr => ⟨Op.filed hids hI.1 hpre hr ho.2,
        Op.matched hids hI.1 hI.2 hpre hr ho.1⟩)
      fun hI hr => by rwa [ledger_cgroupsRestoreAllCpuBind hr]
    by_cases hi : l.2 = .restart
    · rw [base_restart hi]
      exact ⟨filed_reload hf, matched_reload hf hm⟩
    · rw [base_of_ne hi]
      exact ⟨hf, hm⟩

/-- One job is submitted, runs and ends. -/
theorem one_job_filed : oneFinished.FinishedFiled 1000 := by
  have hqueued : OpStep plainConfig KeepsFiled (started.enter 5 1000)
      (world 2, .message 0 (.newjob {})) oneQueued := by
    refine opStep_oneQueued ⟨trivial, trivial⟩ ?_
    rintro o sp (rfl | rfl)
    · exact ⟨trivial, fun h => absurd rfl h⟩
    · exact ⟨trivial, trivial⟩
  have hrunning : OpStep plainConfig KeepsFiled oneQueued (world 3, .schedule) oneRunning :=
    opStep_oneRunning fun p _ => ⟨trivial, trivial⟩
  have hpid : OpStep plainConfig KeepsFiled oneRunning (world 4, .message 0 (.runjobOk none 77))
      oneWithPid := opStep_oneWithPid ⟨trivial, trivial⟩
  have hfinished : OpStep plainConfig KeepsFiled oneWithPid (world 5, .message 0 (.endjob {}))
      oneFinished := by
    refine opStep_oneFinished ⟨?_, trivial⟩ (fun sp hnone => ⟨fun j _ _ hserves => ?_, trivial⟩)
      fun j sp => ⟨trivial, trivial⟩
    · show oneWithPid.finishedJobs.length < 1000
      decide +kernel
    · -- nobody waits
      obtain ⟨⟨n, hn, -⟩, -⟩ := hserves
      rw [hnone] at hn
      exact absurd hn List.not_mem_nil
  exact finished_jobs_filed fresh_started newBooks_started
    (.next (.next (.next (.next (.next .start rfl opStep_accept) rfl hqueued) rfl hrunning) rfl hpid)
      rfl hfinished)

/-- The world in which one finished job is kept. -/
def keepsOne (now : ℤ) : Env := { world now with maxFinished := 1 }

/-- Two jobs end, and the first one makes room for the second: its row stays. -/
theorem evicted_job_stays_filed : ¬∀ (C : Config) (s₀ s : Server), s₀.Fresh → s₀.NewBooks →
    Run (Step C) (fun l s => l.1.maxFinished = 1 ∧ AsksFree l.1 s.toSpool l.2) s₀ s →
      s.FinishedFiled 1 := by
  intro hall
  obtain ⟨s, hr, hs⟩ := exists_run plainConfig
    (fun l s => l.1.maxFinished = 1 ∧ AsksFree l.1 s.toSpool l.2) started
    (fun s : Server => s.dbFinished.keys.contains 1000 &&
      !(s.finishedJobs.map Job.jobid).contains 1000)
    [(keepsOne 1, .accept 5 1000), (keepsOne 2, .message 0 (.newjob {})), (keepsOne 3, .schedule),
      (keepsOne 4, .message 0 (.runjobOk none 100)), (keepsOne 5, .message 0 (.endjob {})),
      (keepsOne 6, .accept 6 1000), (keepsOne 7, .message 1 (.newjob {})), (keepsOne 8, .schedule),
      (keepsOne 9, .message 1 (.runjobOk none 101)), (keepsOne 10, .message 1 (.endjob {}))]
    (by simp [keepsOne, world]) (by decide +kernel)
  rw [Bool.and_eq_true, List.contains_iff_mem, Bool.not_eq_true'] at hs
  have hmem := ((hall _ _ _ fresh_started newBooks_started hr).table 1000).1 hs.1
  rw [← List.contains_iff_mem, hs.2] at hmem
  cases hmem

end Server

end TaskSpooler
