import TaskSpooler.Store.Filed
import TaskSpooler.Server.Restart

/-!
# The books after a restart

A new process rebuilds the queue from the rows of the table `Jobs`, in the order of `order_id`.  A
row of a running job whose process is gone is deleted; a row in a state that `s_add_job` does not
know stays without a job.
-/

namespace TaskSpooler

namespace Spool

variable {e : Env} {s s₀ s' : Spool} {r : Row} {l : List Row}

/-- `s_add_job` takes the job back. -/
def restorable (e : Env) (r : Row) : Bool := (restoredState e r.job).isSome

/-- `s_add_job` deletes the row. -/
def deadRow (e : Env) (r : Row) : Bool := !restorable e r && decide (r.job.state = .running)

theorem ledger_sAddJob (hlt : r.job.jobid < s.jobids) :
    (s.sAddJob e (s.readDb e r true)).ledger =
      { s.ledger with
        active := s.ledger.active ++ if restorable e r then [r.job.jobid] else []
        order := if deadRow e r then s.ledger.scrubOrder r.job.jobid else s.ledger.order } := by
  have hread : restoredState e (s.readDb e r true) = restoredState e r.job := rfl
  have hstate : (s.readDb e r true).state = r.job.state := rfl
  rw [sAddJob, hread]
  cases hst : restoredState e r.job with
  | none =>
    have hrest : restorable e r = false := by rw [restorable, hst]; rfl
    dsimp only
    by_cases hrun : r.job.state = .running
    · have hdead : deadRow e r = true := by simp [deadRow, hrest, hrun]
      rw [hstate, if_pos hrun, if_pos hdead, hrest, ledger_deleteJobsDb]
      exact Ledger.ext (List.append_nil _).symm rfl rfl rfl rfl rfl rfl
    · have hdead : deadRow e r = false := by simp [deadRow, hrun]
      rw [hstate, if_neg hrun, hdead, hrest]
      exact Ledger.ext (List.append_nil _).symm rfl rfl rfl rfl rfl rfl
  | some st =>
    have hrest : restorable e r = true := by rw [restorable, hst]; rfl
    have hdead : deadRow e r = false := by simp [deadRow, hrest]
    dsimp only
    -- the counter is above the id already
    have hadd : ∀ (s₁ : Spool) (info : Procinfo), s₁.ledger = s.ledger →
        (s₁.onQueue fun q =>
          { q with
            activeJobs := q.activeJobs ++ [{ s.readDb e r true with state := st, info := info }]
            jobids := if (s.readDb e r true).jobid < q.jobids then q.jobids
                      else (s.readDb e r true).jobid + 1 }).ledger =
          { s.ledger with active := s.ledger.active ++ [r.job.jobid] } := by
      intro s₁ info hs₁
      have hcount : s₁.jobids = s.jobids := congrArg Ledger.jobids hs₁
      have hid : (s.readDb e r true).jobid < s₁.jobids := hcount ▸ hlt
      rw [← hs₁]
      refine Ledger.ext List.map_append rfl rfl rfl ?_ rfl rfl
      simp only [ledger, onQueue, if_pos hid]
    rw [hrest, hdead, if_pos rfl]
    refine hadd _ _ ?_
    split_ifs
    · exact ledger_onQueue Queue.ids_modUser
    · rfl

theorem ledger_readJobs (hlt : ∀ r ∈ l, r.job.jobid < s.jobids) :
    (l.foldl (fun s r => s.sAddJob e (s.readDb e r true)) s).ledger =
      { s.ledger with
        active := s.ledger.active ++ (l.filter (restorable e)).map fun r => r.job.jobid
        order := fun k => if k ∈ (l.filter (deadRow e)).map (fun r => r.job.jobid) then none
                 else s.ledger.order k } := by
  induction l generalizing s with
  | nil => simp
  | cons r l ih =>
    have hr := ledger_sAddJob (s := s) (e := e) (hlt r List.mem_cons_self)
    have hcount : (s.sAddJob e (s.readDb e r true)).jobids = s.jobids := congrArg Ledger.jobids hr
    rw [List.foldl_cons, ih fun x hx => hcount ▸ hlt x (List.mem_cons_of_mem _ hx), hr]
    refine Ledger.ext ?_ rfl ?_ rfl rfl rfl rfl
    · dsimp only
      cases hrest : restorable e r with
      | true => simp [List.filter_cons_of_pos hrest]
      | false => simp [hrest]
    · funext k
      dsimp only
      cases hdead : deadRow e r with
      | true =>
        rw [if_pos rfl, List.filter_cons_of_pos hdead, List.map_cons]
        by_cases hk : k ∈ (l.filter (deadRow e)).map fun r => r.job.jobid
        · rw [if_pos hk, if_pos (List.mem_cons_of_mem _ hk)]
        · by_cases hkr : k = r.job.jobid
          · rw [if_neg hk, if_pos (hkr ▸ List.mem_cons_self), Ledger.scrubOrder, if_pos hkr]
          · have hnot : k ∉ r.job.jobid :: (l.filter (deadRow e)).map fun r => r.job.jobid := by
              rw [List.mem_cons, not_or]
              exact ⟨hkr, hk⟩
            rw [if_neg hk, if_neg hnot, Ledger.scrubOrder, if_neg hkr]
      | false => rw [if_neg Bool.false_ne_true, List.filter_cons_of_neg (by simp [hdead])]

theorem ledger_readFinished : (l.foldl (fun s r => s.onQueue fun q =>
    { q with finishedJobs := q.finishedJobs ++ [s.readDb e r false] }) s).ledger =
      { s.ledger with shelf := s.ledger.shelf ++ l.map fun r => r.job.jobid } := by
  induction l generalizing s with
  | nil => simp
  | cons r l ih =>
    rw [List.foldl_cons, ih]
    refine Ledger.ext rfl ?_ rfl rfl rfl rfl rfl
    have hone : (s.onQueue fun q =>
        { q with finishedJobs := q.finishedJobs ++ [s.readDb e r false] }).ledger.shelf =
          s.ledger.shelf ++ [r.job.jobid] := List.map_append
    dsimp only
    rw [hone, List.append_assoc, List.map_cons, List.singleton_append]

/-! ### The start -/

/-- The books of a new process before it reads the tables. -/
def blankLedger (e : Env) (s₀ : Spool) : Ledger where
  active := []
  shelf := []
  order := s₀.ledger.order
  filed := s₀.ledger.filed
  jobids := s₀.dbJobids
  dbJobids := s₀.dbJobids
  sorts := e.tsSortjobs ≠ 0

theorem ledger_readUserFile : (s.readUserFile e).ledger = s.ledger := by
  rw [readUserFile_reads.eq]
  rfl

theorem ledger_sSetMaxSlots {n : ℤ} : (s.sSetMaxSlots 0 n).ledger = s.ledger := by
  rw [sSetMaxSlots]
  split_ifs <;> rfl

theorem ledger_setDefaultMaxslots : (s.setDefaultMaxslots e).ledger = s.ledger := by
  rw [setDefaultMaxslots]
  split
  · exact ledger_sSetMaxSlots
  · rfl

theorem ledger_initCpuBind : (s.initCpuBind e).ledger = s.ledger := by
  rw [initCpuBind]
  split_ifs
  · dsimp only
    split_ifs
    · exact ledger_sSetMaxSlots
    · rfl
  · rfl

theorem ledger_initJobids (hpos : 0 < s.dbJobids) :
    (s.initJobids e).ledger = { s.ledger with jobids := s.dbJobids } := by
  rw [initJobids, if_pos hpos]
  rfl

theorem ledger_opened (hpos : 0 < s₀.dbJobids) : (opened e s₀).ledger = blankLedger e s₀ := by
  have h : ((((s₀.boot e).readUserFile e).setDefaultMaxslots e).capUsers.initCpuBind e).ledger =
      (s₀.boot e).ledger := by
    have hcap : ∀ s : Spool, s.capUsers.ledger = s.ledger := fun _ => rfl
    rw [ledger_initCpuBind, hcap, ledger_setDefaultMaxslots, ledger_readUserFile]
  have hdb := congrArg Ledger.dbJobids h
  have hflag : ∀ (s : Spool) (f : Bool), ({ s with jobsortFlag := f } : Spool).ledger =
    { s.ledger with sorts := f } := fun _ _ => rfl
  have hpos' : 0 < ((((s₀.boot e).readUserFile e).setDefaultMaxslots e).capUsers.initCpuBind
    e).dbJobids := hpos.trans_eq hdb.symm
  rw [opened, ledger_initJobids (by exact hpos'), hflag, h]
  exact Ledger.ext rfl rfl rfl rfl hdb rfl rfl

/-- **The books of a new process.** -/
theorem ledger_reload (hpos : 0 < s₀.dbJobids) (hlt : ∀ k ∈ s₀.dbJobs.keys, k < s₀.dbJobids) :
    (s₀.reload e).ledger =
      { blankLedger e s₀ with
        active := ((rowsInOrder e s₀.dbJobs).filter (restorable e)).map fun r => r.job.jobid
        shelf := (rowsInOrder e s₀.dbFinished).map fun r => r.job.jobid
        order := fun k =>
          if k ∈ ((rowsInOrder e s₀.dbJobs).filter (deadRow e)).map (fun r => r.job.jobid) then none
          else s₀.ledger.order k } := by
  have hs : Started s₀ (opened e s₀) := started_opened
  have hopen := ledger_opened (e := e) hpos
  have hperm : (rowsInOrder e s₀.dbJobs).Perm s₀.dbJobs.rows := e.Q.perm _ _
  rw [reload_eq, sReadSqlite]
  dsimp only
  rw [ledger_readFinished, hs.dbJobs, ledger_readJobs, hopen]
  · refine Ledger.ext rfl ?_ rfl rfl rfl rfl rfl
    have hfin := Except.foldl_induction (R := fun s s' : Spool =>
      (s'.dbFinished, s'.finishedJobs) = (s.dbFinished, s.finishedJobs)) (fun _ => rfl)
      (fun h h' => h'.trans h) (l := rowsInOrder e s₀.dbJobs)
      (f := fun s r => s.sAddJob e (s.readDb e r true)) (opened e s₀) fun _ => finished_sAddJob
    rw [Prod.mk.injEq] at hfin
    rw [hfin.1, hs.dbFinished]
    rfl
  · intro r hr
    have hcount : (opened e s₀).jobids = s₀.dbJobids := congrArg Ledger.jobids hopen
    rw [hcount]
    exact hlt _ (List.mem_map_of_mem (hperm.subset hr))

/-! ### The invariants -/

theorem mem_rowsInOrder {t : Table} : r ∈ rowsInOrder e t ↔ r ∈ t.rows := (e.Q.perm _ _).mem_iff

theorem nodup_rowsInOrder {t : Table} : ((rowsInOrder e t).map fun r => r.job.jobid).Nodup :=
  ((e.Q.perm _ _).map _).nodup_iff.2 t.nodup

/-- A row that is read again is not deleted. -/
theorem notMem_dead (hr : r ∈ s₀.dbJobs.rows) (hrest : restorable e r = true) :
    r.job.jobid ∉ ((rowsInOrder e s₀.dbJobs).filter (deadRow e)).map fun r => r.job.jobid := by
  intro hmem
  obtain ⟨x, hx, hid⟩ := List.mem_map.1 hmem
  rw [List.mem_filter, mem_rowsInOrder] at hx
  have hxr : x = r := Keyed.eq_of_key (c := fun r : Row => r.job.jobid) s₀.dbJobs.nodup hx.1 hr hid
  rw [hxr, deadRow, hrest] at hx
  simp at hx

theorem order_reload (hr : r ∈ s₀.dbJobs.rows) (hrest : restorable e r = true) :
    (if r.job.jobid ∈ ((rowsInOrder e s₀.dbJobs).filter (deadRow e)).map (fun r => r.job.jobid)
      then none else s₀.ledger.order r.job.jobid) = some r.orderId := by
  rw [if_neg (notMem_dead hr hrest)]
  exact Table.order_eq_some.2 ⟨r, hr, rfl, rfl⟩

theorem kept_of_isSome {P : Prop} [Decidable P] {o : Option ℤ}
    (h : (if P then none else o).isSome) : ¬P ∧ o.isSome := by
  by_cases hP : P
  · rw [if_pos hP] at h
    cases h
  · rw [if_neg hP] at h
    exact ⟨hP, h⟩

/-- **The books of a new process agree** if those of the last one did. -/
theorem filed_reload (h : s₀.ledger.Filed) : (s₀.reload e).ledger.Filed := by
  have hkeys : ∀ k ∈ s₀.dbJobs.keys, k < s₀.dbJobids := fun k hk =>
    (h.known k (.inl (Table.isSome_order.2 hk))).2
  rw [ledger_reload h.pos hkeys]
  refine ⟨?_, fun k hk => ?_, fun k hk => ?_, nodup_rowsInOrder, fun k hk => ?_, fun k hk => ?_,
    le_refl _, h.pos⟩
  · exact nodup_rowsInOrder.sublist (List.filter_sublist.map _)
  · obtain ⟨r, hr, rfl⟩ := List.mem_map.1 hk
    rw [List.mem_filter, mem_rowsInOrder] at hr
    exact Option.isSome_iff_exists.2 ⟨_, order_reload hr.1 hr.2⟩
  · exact h.apart k (kept_of_isSome hk).2
  · obtain ⟨r, hr, rfl⟩ := List.mem_map.1 hk
    exact List.mem_map_of_mem (mem_rowsInOrder.1 hr)
  · exact h.known k (hk.imp (fun hk => (kept_of_isSome hk).2) id)

/-- The state of the row is one that `s_add_job` knows. -/
def knownRow (r : Row) : Prop :=
  r.job.state = .queued ∨ r.job.state = .locked ∨ r.job.state = .pause ∨ r.job.state = .running

instance (r : Row) : Decidable (knownRow r) := inferInstanceAs (Decidable (_ ∨ _))

theorem restorable_of_known (h : knownRow r) (hdead : deadRow e r = false) :
    restorable e r = true := by
  rw [deadRow] at hdead
  obtain h | h | h | h := h
  · simp [restorable, restoredState, h]
  · simp [restorable, restoredState, h]
  · simp [restorable, restoredState, h]
  · simpa [h] using hdead

theorem pairwise_rowsInOrder {t : Table} :
    (rowsInOrder e t).Pairwise fun a b => a.orderId ≤ b.orderId := by
  refine (e.Q.pairwise (fun a b : Row => decide (a.orderId ≤ b.orderId)) t.rows ?_ ?_).imp fun h =>
    by simpa using h
  · intro a b c hab hbc
    simp only [decide_eq_true_eq] at hab hbc ⊢
    exact hab.trans hbc
  · intro a b
    simp only [decide_eq_true_eq]
    exact le_total _ _

/-- Rows with different order ids are read in their order. -/
theorem ranked_rows {t : Table} {rank : ℤ → Option ℤ} {f : Row → Bool}
    (hinj : ∀ a ∈ t.rows, ∀ b ∈ t.rows, a.orderId = b.orderId → a = b)
    (hrank : ∀ r ∈ t.rows, f r = true → rank r.job.jobid = some r.orderId)
    (hmem : ∀ k, (rank k).isSome → ∃ r ∈ t.rows, r.job.jobid = k ∧ f r = true) :
    Ranked rank (((rowsInOrder e t).filter f).map fun r => r.job.jobid) := by
  refine ⟨fun k => ⟨fun hk => ?_, fun hk => ?_⟩, ?_⟩
  · obtain ⟨r, hr, rfl, hf⟩ := hmem k hk
    exact List.mem_map_of_mem (List.mem_filter.2 ⟨mem_rowsInOrder.2 hr, hf⟩)
  · obtain ⟨r, hr, rfl⟩ := List.mem_map.1 hk
    rw [List.mem_filter, mem_rowsInOrder] at hr
    rw [hrank r hr.1 hr.2]
    rfl
  · rw [List.pairwise_map]
    have hnd : (rowsInOrder e t).Nodup := (nodup_rowsInOrder (e := e) (t := t)).of_map _
    refine ((pairwise_rowsInOrder.and hnd).filter f).imp_of_mem fun {a b} ha hb hab x hx y hy => ?_
    rw [List.mem_filter, mem_rowsInOrder] at ha hb
    rw [hrank a ha.1 ha.2] at hx
    rw [hrank b hb.1 hb.2] at hy
    cases hx
    cases hy
    exact lt_of_le_of_ne hab.1 fun heq => hab.2 (hinj a ha.1 b hb.1 heq)

theorem orderId_inj (h : s₀.ledger.Mirrored) :
    ∀ a ∈ s₀.dbJobs.rows, ∀ b ∈ s₀.dbJobs.rows, a.orderId = b.orderId → a = b := by
  intro a ha b hb hab
  have hid := Ranked.inj h (Table.order_eq_some.2 ⟨a, ha, rfl, rfl⟩)
    (Table.order_eq_some.2 ⟨b, hb, rfl, hab.symm⟩)
  exact Keyed.eq_of_key (c := fun r : Row => r.job.jobid) s₀.dbJobs.nodup ha hb hid

/-- **A new process mirrors its queue** if the last one did and all rows are known. -/
theorem mirrored_reload (hf : s₀.ledger.Filed) (h : s₀.ledger.Mirrored)
    (hknown : ∀ r ∈ s₀.dbJobs.rows, knownRow r) : (s₀.reload e).ledger.Mirrored := by
  have hkeys : ∀ k ∈ s₀.dbJobs.keys, k < s₀.dbJobids := fun k hk =>
    (hf.known k (.inl (Table.isSome_order.2 hk))).2
  rw [ledger_reload hf.pos hkeys]
  refine ranked_rows (orderId_inj h) (fun r hr hrest => order_reload hr hrest) fun k hk => ?_
  obtain ⟨hdead, hk⟩ := kept_of_isSome hk
  obtain ⟨r, hr, rfl⟩ := Table.mem_keys.1 (Table.isSome_order.1 hk)
  refine ⟨r, hr, rfl, restorable_of_known (hknown r hr) ?_⟩
  by_contra hd
  exact hdead (List.mem_map_of_mem (List.mem_filter.2 ⟨mem_rowsInOrder.2 hr, by simpa using hd⟩))

end Spool

end TaskSpooler
