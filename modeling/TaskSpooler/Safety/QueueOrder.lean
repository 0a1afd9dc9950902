import TaskSpooler.Safety.JobIds
import TaskSpooler.Safety.Admission

/-!
# The order of the queue in the database

The column `order_id` of the table `Jobs` keeps the order of the queue, so that a new process finds
it again.

* `queue_order_mirrored`: the rows in the order of `order_id` are the jobs of the queue, in every
  state of a run in which a new process knows all rows it reads.
* `held_row_left`: the row of a held client is not one of them.  It is not read, and it stays in the
  table without a job.
-/

namespace TaskSpooler

namespace Spool

variable {e : Env} {s : Spool}

/-- The rows of the table in the order of their ids are the queue. -/
theorem rowsInOrder_eq (h : s.ledger.Mirrored) :
    (rowsInOrder e s.dbJobs).map (fun r => r.job.jobid) = s.activeJobs.map Job.jobid := by
  have hrows : Ranked s.ledger.order
      (((rowsInOrder e s.dbJobs).filter fun _ => true).map fun r => r.job.jobid) := by
    refine ranked_rows (orderId_inj h) (fun r hr _ => Table.order_eq_some.2 ⟨r, hr, rfl, rfl⟩)
      fun k hk => ?_
    obtain ⟨r, hr, hrk⟩ := Table.mem_keys.1 (Table.isSome_order.1 hk)
    exact ⟨r, hr, hrk, rfl⟩
  have heq := hrows.unique h
  rw [List.filter_true] at heq
  exact heq

theorem nodup_orderIds (h : s.ledger.Mirrored) : (s.dbJobs.rows.map Row.orderId).Nodup :=
  (List.nodup_map_iff_inj_on (s.dbJobs.nodup.of_map _)).2 (orderId_inj h)

theorem keys_perm (h : s.ledger.Mirrored) : s.dbJobs.keys.Perm (s.activeJobs.map Job.jobid) := by
  refine (List.perm_ext_iff_of_nodup s.dbJobs.nodup h.nodup).2 fun k => ?_
  rw [← h.mem k]
  exact Table.isSome_order.symm

/-- A new process has the same queue if it knows all rows and finds their processes. -/
theorem reload_activeJobs (hf : s.ledger.Filed) (h : s.ledger.Mirrored)
    (hknown : ∀ r ∈ s.dbJobs.rows, knownRow r ∧ deadRow e r = false) :
    (s.reload e).activeJobs.map Job.jobid = s.activeJobs.map Job.jobid := by
  have hkeys : ∀ k ∈ s.dbJobs.keys, k < s.dbJobids := fun k hk =>
    (hf.known k (.inl (Table.isSome_order.2 hk))).2
  have hall : (rowsInOrder e s.dbJobs).filter (restorable e) = rowsInOrder e s.dbJobs := by
    refine List.filter_eq_self.2 fun r hr => ?_
    obtain ⟨hr, hdead⟩ := hknown r (mem_rowsInOrder.1 hr)
    exact restorable_of_known hr hdead
  have hactive := congrArg Ledger.active (ledger_reload (e := e) hf.pos hkeys)
  dsimp only at hactive
  rw [hall, rowsInOrder_eq h] at hactive
  exact hactive

end Spool

namespace Server

variable {s s₀ : Server} {C : Config}

/-- The table `Jobs` and the queue are the same, up to the order of the rows in the table. -/
structure QueueMirrored (s : Server) : Prop where
  rows : s.dbJobs.keys.Perm (s.activeJobs.map Job.jobid)
  orderIds : (s.dbJobs.rows.map Row.orderId).Nodup
  order : ∀ e, (Spool.rowsInOrder e s.dbJobs).map (fun r => r.job.jobid) = s.activeJobs.map Job.jobid
  rebuilt : ∀ e, (∀ r ∈ s.dbJobs.rows, Spool.knownRow r ∧ Spool.deadRow e r = false) →
    (s.reload e).activeJobs.map Job.jobid = s.activeJobs.map Job.jobid

/-- The server chooses the ids, and `TS_SORTJOBS` is off. -/
def plainOrder (l : Env × Input) (_ : Server) : Prop := AsksNoId l.2 ∧ l.1.tsSortjobs = 0

/-- Besides, a new process knows all rows that it reads. -/
def rowsKnown (l : Env × Input) (s : Server) : Prop :=
  plainOrder l s ∧ (l.2 = .restart → ∀ r ∈ s.dbJobs.rows, Spool.knownRow r)

/-- **The order of the queue is mirrored in the database**, over restarts as well, if a new process
knows all rows that it reads. -/
theorem queue_order_mirrored (hs₀ : s₀.Fresh) (hb : s₀.NewBooks) (hsort : s₀.jobsortFlag = false)
    (h : Run (Step C) rowsKnown s₀ s) : s.QueueMirrored := by
  have hrun := h.invariant
    (I := fun s => s.Sound ∧ s.ledger.Filed ∧ s.ledger.Mirrored ∧ s.jobsortFlag = false)
    ⟨hs₀.sound, hb.filed hs₀, hb.mirrored hs₀, hsort⟩ fun {s s' l} hI hok hst => ?_
  · obtain ⟨-, hf, hm, -⟩ := hrun
    exact ⟨Spool.keys_perm hm, Spool.nodup_orderIds hm, fun e => Spool.rowsInOrder_eq hm,
      fun e => Spool.reload_activeJobs hf hm⟩
  · obtain ⟨hs, hf, hm, hsort⟩ := hI
    obtain ⟨⟨hask, hoff⟩, hknown⟩ := hok
    exact ⟨hst.sound hs, hst.filed hs hf hask.asksFree,
      hst.mirrored hs hf hm hsort hask fun hl => ⟨hoff, hknown hl⟩⟩

instance : ∀ i, Decidable (AsksNoId i)
  | .message _ (.newjob m) => inferInstanceAs (Decidable (m.jobid = 0))
  | .message _ (.runjobOk _ _) | .message _ (.endjob _) | .message _ (.reconnect _ _)
  | .message _ (.removejob _) | .message _ (.killAll _ _) | .message _ .killServer
  | .message _ (.request _) | .message _ .unknown => isTrue trivial
  | .accept _ _ | .disconnect _ | .health | .cleanup | .schedule | .restart => isTrue trivial

instance : ∀ l s, Decidable (plainOrder l s) := fun _ _ => inferInstanceAs (Decidable (_ ∧ _))

/-- Three jobs, of which the last is put first. -/
theorem urgent_order_mirrored : ∃ s : Server,
    s.activeJobs.map Job.jobid = [1002, 1000, 1001] ∧ s.QueueMirrored := by
  obtain ⟨s, hr, hs⟩ := exists_run plainConfig
    (fun l s => plainOrder l s ∧ noRestart l s) started
    (fun s => s.activeJobs.map Job.jobid = [1002, 1000, 1001])
    [(world 1, .accept 5 1000), (world 2, .message 0 (.newjob {})), (world 3, .accept 6 1000),
      (world 4, .message 1 (.newjob {})), (world 5, .accept 7 1000), (world 6, .message 2 (.newjob {})),
      (world 7, .accept 8 0), (world 8, .message 3 (.request (.urgent 1002)))]
    (by simp [world]) (by decide +kernel)
  refine ⟨s, of_decide_eq_true hs, queue_order_mirrored fresh_started newBooks_started rfl
    (hr.mono fun l s h => ⟨h.1, fun hl => ?_⟩)⟩
  have hno := h.2
  rw [noRestart, hl] at hno
  cases hno

/-- A client is held when the server stops.  The new process does not read its row, which stays. -/
theorem held_row_left : ¬∀ (C : Config) (s₀ s : Server), s₀.Fresh → s₀.NewBooks →
    s₀.jobsortFlag = false → Run (Step C) plainOrder s₀ s → s.QueueMirrored := by
  intro hall
  obtain ⟨s, hr, hs⟩ := exists_run plainConfig plainOrder smallServer
    (fun s => ¬s.dbJobs.keys.Perm (s.activeJobs.map Job.jobid))
    [(world 1, .accept 5 1000), (world 2, .message 0 (.newjob {})), (world 3, .schedule),
      (world 4, .accept 6 1000), (world 4, .message 1 (.newjob { waitEnqueuing := true })),
      (world 5, .message 0 (.runjobOk none 100)), (world 6, .restart)]
    (by simp [world]) (by decide +kernel)
  exact of_decide_eq_true hs (hall _ _ _ fresh_smallServer ⟨rfl, rfl, by decide, by decide, by decide⟩
    rfl hr).rows

end Server

end TaskSpooler
