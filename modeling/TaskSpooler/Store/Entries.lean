import TaskSpooler.Ops.Steps
import TaskSpooler.Store.Ledger

/-!
# The entries in the books

`Entry` lists the ways in which the server changes its books: memory and tables together, as far as
one function writes to both.  `Entry.apply` is the effect and `Entry.Guard` what holds when it is
made.  Every operation is a sequence of entries (`Op.entries`).
-/

namespace TaskSpooler

/-- The ways in which the books change. -/
inductive Entry
  /-- A job goes to the end of the queue; `n` is its new `order_id`. -/
  | bottom (k n : ℤ)
  /-- A job goes to the front of the queue. -/
  | top (k n : ℤ)
  | swap (j k : ℤ)
  /-- `s_sort_jobs`, which does not write to the table. -/
  | sort (l : List ℤ)
  /-- `INSERT OR REPLACE` of an active job. -/
  | write (k n : ℤ)
  /-- A new job; `next` is the next job id. -/
  | insert (k n next : ℤ)
  /-- The counter is advanced for a job that is refused. -/
  | count (n : ℤ)
  /-- The counter is saved. -/
  | renew
  /-- A job leaves `active_jobs`, but its row stays. -/
  | lose (k : ℤ)
  /-- A job leaves `active_jobs` with its row. -/
  | delete (k : ℤ)
  /-- A job becomes a finished one, of which the list keeps `l` and the new one. -/
  | finish (k : ℤ) (l : List ℤ)
  /-- The row in `Jobs` of a job that is not active is deleted. -/
  | scrub (k : ℤ)
  /-- Some finished jobs are dropped from the list. -/
  | forget (l : List ℤ)
  /-- The finished jobs `ks` are removed from the list and from the table. -/
  | unfile (l ks : List ℤ)

namespace Ledger

variable (b : Ledger)

/-- The queue in memory is another one. -/
def setActive (l : List ℤ) : Ledger := { b with active := l }

/-- `UPDATE` of the column `order_id`. -/
def setOrder (k n : ℤ) : ℤ → Option ℤ := fun j => (b.order j).map fun m => if j = k then n else m

/-- `DELETE` of a row. -/
def scrubOrder (k : ℤ) : ℤ → Option ℤ := fun j => if j = k then none else b.order j

/-- A row is written. -/
def writeOrder (k n : ℤ) : ℤ → Option ℤ := fun j => if j = k then some n else b.order j

/-- `jobids` after the choice of an id. -/
def nextJobids (m : NewJob) : ℤ :=
  if m.jobid ≠ 0 then (if m.jobid < b.jobids then b.jobids else m.jobid + 1) else b.jobids + 1

/-- The number is larger than every `order_id`. -/
def Above (n : ℤ) : Prop := ∀ j x, b.order j = some x → x < n

/-- The number is smaller than every `order_id`. -/
def Below (n : ℤ) : Prop := ∀ j x, b.order j = some x → n < x

end Ledger

namespace Entry

/-- The effect of an entry. -/
def apply (b : Ledger) : Entry → Ledger
  | bottom k n => { b with active := b.active.filter (· ≠ k) ++ [k], order := b.setOrder k n }
  | top k n => { b with active := k :: b.active.filter (· ≠ k), order := b.setOrder k n }
  | swap j k =>
    { b with
      active := b.active.map (Equiv.swap j k)
      order := if (b.order j).isSome ∧ (b.order k).isSome then fun i => b.order (Equiv.swap j k i)
               else b.order }
  | sort l => { b with active := l }
  | write k n => { b with order := b.writeOrder k n }
  | insert k n next =>
    { b with
      active := b.active ++ [k]
      order := if (b.order k).isSome then b.order else b.writeOrder k n
      jobids := next
      dbJobids := next }
  | count n => { b with jobids := n }
  | renew => { b with dbJobids := b.jobids }
  | lose k => { b with active := b.active.filter (· ≠ k) }
  | delete k => { b with active := b.active.filter (· ≠ k), order := b.scrubOrder k }
  | finish k l =>
    { b with
      active := b.active.filter (· ≠ k)
      shelf := l ++ [k]
      filed := if k ∈ b.filed then b.filed else b.filed ++ [k]
      order := if k ∈ b.filed then b.order else b.scrubOrder k }
  | scrub k => { b with order := b.scrubOrder k }
  | forget l => { b with shelf := l }
  | unfile l ks => { b with shelf := l, filed := b.filed.filter (· ∉ ks) }

/-- What holds when an entry is made. -/
def Guard (b : Ledger) : Entry → Prop
  | bottom k n => k ∈ b.active ∧ b.Above n
  | top k n => k ∈ b.active ∧ b.Below n
  | swap j k => j ∈ b.active ∧ k ∈ b.active
  | sort l => b.sorts = true ∧ l.Perm b.active
  | write k n => k ∈ b.active ∧ ∀ x, b.order k = some x → x = n
  | insert k n next => k ∉ b.active ∧ b.jobids ≤ next ∧ k < next ∧ b.Above n
  | count n => b.jobids ≤ n
  | finish k l => k ∈ b.active ∧ l.Sublist b.shelf
  | scrub k => k ∉ b.active
  | forget l => l.Sublist b.shelf
  | unfile l ks => (l ++ ks).Perm b.shelf
  | renew | lose _ | delete _ => True

/-- An entry, as a step. -/
def Step (b : Ledger) (a : Entry) (b' : Ledger) : Prop := a.Guard b ∧ b' = a.apply b

end Entry

/-- The books after some entries, each of them made where `ok` allows it. -/
def Entries (ok : Entry → Ledger → Prop) (b b' : Ledger) : Prop := Run Entry.Step ok b b'

namespace Entries

variable {ok ok' : Entry → Ledger → Prop} {b b' b'' : Ledger}

theorem refl : Entries ok b b := Run.start

theorem of_eq (h : b' = b) : Entries ok b b' := h ▸ Run.start

theorem single (a : Entry) (hg : a.Guard b) (hok : ok a b) (h : b' = a.apply b) :
    Entries ok b b' :=
  Run.start.next hok ⟨hg, h⟩

theorem trans (h : Entries ok b b') (h' : Entries ok b' b'') : Entries ok b b'' := Run.trans h h'

/-- The induction over the entries. -/
theorem invariant {I : Ledger → Prop} (h : Entries ok b b') (hinit : I b)
    (hkeep : ∀ {b a}, I b → ok a b → a.Guard b → I (a.apply b)) : I b' := by
  refine Run.invariant h hinit fun hI hok hst => ?_
  rw [hst.2]
  exact hkeep hI hok hst.1

end Entries

namespace Op

/-- Where the entries of an operation can come from: new jobs, and jobs whose row stays, from
`s_newjob` only. -/
def Books (o : Op) (a : Entry) (b : Ledger) : Prop :=
  match a, o with
  | .insert k _ next, fill _ m _ _ => k = (if m.jobid ≠ 0 then m.jobid else b.jobids) ∧
      next = b.nextJobids m
  | .count n, fill _ m _ _ => n = b.nextJobids m
  | .lose k, fill _ m _ _ => m.jobid ≠ 0 ∧ k = m.jobid
  | .renew, fill _ m _ _ => m.jobid ≠ 0
  | .insert _ _ _, _ | .count _, _ | .lose _, _ | .renew, _ => False
  | .finish k _, finish _ jobid => k = jobid
  | .finish k _, removeActive p => k = p.jobid
  | .finish _ _, _ => False
  | _, _ => True

end Op

/-! ### Functions that write to the books -/

namespace Spool

variable {e : Env} {s s' : Spool} {p : Job} {jobid socket : ℤ} {o : Op}

theorem above_maxOrderId : s.ledger.Above (s.maxOrderId + 1) := fun _ _ h =>
  Int.lt_add_one_of_le (Table.le_max h)

theorem below_minOrderId : s.ledger.Below (s.minOrderId - 1) := fun _ x h => by
  have hle : s.minOrderId ≤ x := Table.min_le h
  omega

theorem ids_remove {l : List Job} {k : ℤ} (hnd : (l.map Job.jobid).Nodup) :
    (Keyed.remove Job.jobid k l).map Job.jobid = (l.map Job.jobid).filter (· ≠ k) := by
  rw [Keyed.remove_eq_filter hnd, List.filter_map]
  rfl

theorem ledger_dropJob (hnd : (s.activeJobs.map Job.jobid).Nodup) :
    (s.onQueue fun q => q.dropJob jobid).ledger =
      { s.ledger with active := s.ledger.active.filter (· ≠ jobid) } := by
  have h := ids_remove (k := jobid) hnd
  simp only [ledger, onQueue, Queue.dropJob, h]

theorem ledger_deleteJobsDb : (s.deleteJobsDb jobid).ledger =
    { s.ledger with order := s.ledger.scrubOrder jobid } := by
  have h : (s.deleteJobsDb jobid).dbJobs.order = s.ledger.scrubOrder jobid := Table.order_delete
  exact Ledger.ext rfl rfl h rfl rfl rfl rfl

theorem ledger_setJobidsDb {n : ℤ} :
    (s.setJobidsDb n).ledger = { s.ledger with dbJobids := n } := rfl

theorem ledger_setOrderIdDb {n : ℤ} : (s.setOrderIdDb jobid n).ledger =
    { s.ledger with order := s.ledger.setOrder jobid n } := by
  have h : (s.setOrderIdDb jobid n).dbJobs.order = s.ledger.setOrder jobid n := Table.order_setOrder
  exact Ledger.ext rfl rfl h rfl rfl rfl rfl

theorem ledger_insertJobsDb : (s.insertJobsDb p).ledger =
    { s.ledger with
      order := if (s.ledger.order p.jobid).isSome then s.ledger.order
               else s.ledger.writeOrder p.jobid (s.maxOrderId + 1) } := by
  by_cases hk : p.jobid ∈ s.dbJobs.keys
  · have hnone : s.dbJobs.insert (s.rowOf p) = none := Table.insert_of_mem hk
    have hsome : (s.ledger.order p.jobid).isSome := Table.isSome_order.2 hk
    rw [if_pos hsome, insertJobsDb, hnone]
    rfl
  · have hnone : s.ledger.order p.jobid = none := by
      rw [← Table.isSome_order, Bool.not_eq_true, Option.isSome_eq_false_iff] at hk
      exact Option.isNone_iff_eq_none.1 hk
    obtain ⟨t, ht⟩ := Table.exists_insert (r := s.rowOf p) hk
    have horder := Table.order_of_append hk (Table.insert_eq_some ht).2
    have hid : (s.rowOf p).orderId = s.maxOrderId + 1 := by
      have hget : s.getOrderId p.jobid = none := hnone
      rw [rowOf, hget, Option.getD_none]
    rw [if_neg (by rw [hnone]; simp), insertJobsDb, ht, Option.getD_some]
    simp only [ledger, horder, hid]
    rfl

theorem ledger_replaceJobsDb : (s.replaceJobsDb p).ledger =
    { s.ledger with order := s.ledger.writeOrder p.jobid (s.rowOf p).orderId } := by
  have h : (s.replaceJobsDb p).dbJobs.order =
      s.ledger.writeOrder p.jobid (s.rowOf p).orderId := Table.order_replace
  exact Ledger.ext rfl rfl h rfl rfl rfl rfl

theorem write_guard (hp : p.jobid ∈ s.activeJobs.map Job.jobid) :
    (Entry.write p.jobid (s.rowOf p).orderId).Guard s.ledger := by
  refine ⟨hp, fun x hx => ?_⟩
  have hget : s.getOrderId p.jobid = some x := hx
  rw [rowOf, hget, Option.getD_some]

theorem ledger_insertFinishedDb : (s.insertFinishedDb p).ledger =
    { s.ledger with
      filed := if p.jobid ∈ s.ledger.filed then s.ledger.filed else s.ledger.filed ++ [p.jobid]
      order := if p.jobid ∈ s.ledger.filed then s.ledger.order
               else s.ledger.scrubOrder p.jobid } := by
  by_cases hk : p.jobid ∈ s.dbFinished.keys
  · have hnone : s.dbFinished.insert (s.rowOf p) = none := Table.insert_of_mem hk
    have hfiled : p.jobid ∈ s.ledger.filed := hk
    rw [if_pos hfiled, if_pos hfiled, insertFinishedDb, hnone]
  · obtain ⟨t, ht⟩ := Table.exists_insert (r := s.rowOf p) hk
    have hkeys := Table.keys_of_append (Table.insert_eq_some ht).2
    have hfiled : p.jobid ∉ s.ledger.filed := hk
    rw [if_neg hfiled, if_neg hfiled, insertFinishedDb, ht, ledger_deleteJobsDb]
    exact Ledger.ext rfl rfl rfl hkeys rfl rfl rfl

/-- The ids that `new_finished_job` keeps. -/
theorem ledger_newFinishedJob : ∃ l : List ℤ, l.Sublist s.ledger.shelf ∧
    (s.newFinishedJob e p).ledger =
      { s.ledger with
        shelf := l ++ [p.jobid]
        filed := if p.jobid ∈ s.ledger.filed then s.ledger.filed else s.ledger.filed ++ [p.jobid]
        order := if p.jobid ∈ s.ledger.filed then s.ledger.order
                 else s.ledger.scrubOrder p.jobid } := by
  rw [newFinishedJob, ledger_defrag, ledger_freeAlloc, ledger_cgroupsCleanJob,
    ledger_insertFinishedDb]
  by_cases hmax : e.maxFinished ≤ s.finishedJobs.length
  · refine ⟨s.finishedJobs.tail.map Job.jobid, (List.tail_sublist _).map _, ?_⟩
    simp only [ledger, onQueue, Queue.pushFinished, if_pos hmax, List.map_append, List.map_singleton]
    rfl
  · refine ⟨s.finishedJobs.map Job.jobid, List.Sublist.refl _, ?_⟩
    simp only [ledger, onQueue, Queue.pushFinished, if_neg hmax, List.map_append, List.map_singleton]
    rfl

/-! ### The order of the queue -/

theorem foldl_last {l ids : List ℤ} (hnd : ids.Nodup) :
    ids.foldl (fun l k => l.filter (· ≠ k) ++ [k]) l = l.filter (· ∉ ids) ++ ids := by
  induction ids generalizing l with
  | nil => simp
  | cons k ids ih =>
    rw [List.nodup_cons] at hnd
    rw [List.foldl_cons, ih hnd.2, List.filter_append, List.filter_filter]
    have hk : [k].filter (fun x => decide (x ∉ ids)) = [k] := by simp [hnd.1]
    rw [hk, List.append_assoc, List.singleton_append]
    congr 1
    refine List.filter_congr fun x _ => ?_
    rw [← Bool.decide_and]
    refine decide_eq_decide.2 ?_
    rw [List.mem_cons, not_or, and_comm]

/-- The rows move one after the other, like the jobs. -/
theorem movebottom_entries {ids l : List ℤ} (hsub : ids ⊆ l) :
    Entries o.Books (s.ledger.setActive l) ((ids.foldl movebottomDb s).ledger.setActive
      (ids.foldl (fun l k => l.filter (· ≠ k) ++ [k]) l)) := by
  induction ids generalizing s l with
  | nil => exact .refl
  | cons k ids ih =>
    rw [List.cons_subset] at hsub
    have hstep : Entries o.Books (s.ledger.setActive l)
        ((s.movebottomDb k).ledger.setActive (l.filter (· ≠ k) ++ [k])) := by
      refine .single (.bottom k (s.maxOrderId + 1)) ⟨hsub.1, above_maxOrderId⟩ trivial ?_
      rw [movebottomDb, ledger_setOrderIdDb]
      rfl
    refine hstep.trans (ih fun j hj => ?_)
    rw [List.mem_append, List.mem_filter, List.mem_singleton]
    by_cases hjk : j = k
    · exact .inr hjk
    · exact .inl ⟨hsub.2 hj, by simpa using hjk⟩

theorem ids_filterMap_findjob {ids : List ℤ} (hsub : ids ⊆ s.activeJobs.map Job.jobid) :
    (ids.filterMap s.findjob).map Job.jobid = ids := by
  induction ids with
  | nil => rfl
  | cons k ids ih =>
    rw [List.cons_subset] at hsub
    obtain ⟨p, hp⟩ := Option.isSome_iff_exists.1 (Keyed.isSome_lookup.2 hsub.1)
    have hp' : s.findjob k = some p := hp
    rw [List.filterMap_cons, hp', List.map_cons, ih hsub.2, findjob_jobid hp']

theorem toBottom_entries {ids : List ℤ} (hnd : ids.Nodup)
    (hsub : ids ⊆ s.activeJobs.map Job.jobid) : Entries o.Books s.ledger (s.toBottom ids).ledger := by
  set s₁ : Spool :=
    { s with activeJobs := s.activeJobs.filter (fun p => p.jobid ∉ ids) ++ ids.filterMap s.findjob }
    with hs₁
  have hids : s₁.ledger.active =
      ids.foldl (fun l k => l.filter (· ≠ k) ++ [k]) s.ledger.active := by
    rw [foldl_last hnd]
    simp only [hs₁, ledger, List.map_append, ids_filterMap_findjob hsub, List.filter_map]
    rfl
  have hfold : ∀ (ids : List ℤ) (s : Spool),
      (ids.foldl movebottomDb s).ledger.active = s.ledger.active := by
    intro ids
    induction ids with
    | nil => exact fun _ => rfl
    | cons k ids ih => exact fun s => ih _
  have hmoves := movebottom_entries (s := s₁) (o := o) hsub
  have hend : (ids.foldl movebottomDb s₁).ledger.setActive s₁.ledger.active =
      (ids.foldl movebottomDb s₁).ledger := by
    rw [← hfold ids s₁]
    rfl
  rw [hids] at hend
  exact hend ▸ hmoves

theorem sMoveUrgent_entries (hids : s.view.Ids) :
    Entries (Op.urgent socket jobid).Books s.ledger (s.sMoveUrgent socket jobid).ledger := by
  rw [sMoveUrgent]
  cases hp : s.findjob jobid with
  | none => exact .refl
  | some p =>
    obtain rfl := findjob_jobid hp
    refine .single (.top p.jobid (s.minOrderId - 1))
      ⟨List.mem_map_of_mem (Keyed.mem_of_lookup hp), below_minOrderId⟩ trivial ?_
    dsimp only
    rw [ledger_send, movetopDb, ledger_setOrderIdDb]
    refine Ledger.ext ?_ rfl rfl rfl rfl rfl rfl
    exact congrArg (p.jobid :: ·) (ids_remove (nodup_of_ids hids))

theorem getElem?_of_findIdx {i : ℕ} (hi : (s.activeJobs.findIdx? fun p => p.jobid = jobid) = some i)
    (hp : s.findjob jobid = some p) : (s.activeJobs.map Job.jobid)[i]? = some jobid := by
  obtain ⟨hlt, hget⟩ := getElem_of_findIdx hi hp
  rw [List.getElem?_map, List.getElem?_eq_getElem hlt, hget, Option.map_some, findjob_jobid hp]

theorem ledger_swapDb {k : ℤ} : (s.swapDb jobid k).ledger =
    { s.ledger with
      order := if (s.ledger.order jobid).isSome ∧ (s.ledger.order k).isSome then
          fun i => s.ledger.order (Equiv.swap jobid k i)
        else s.ledger.order } := by
  rw [swapDb]
  split
  · rename_i n₀ n₁ h₀ h₁
    have h₀' : s.ledger.order jobid = some n₀ := h₀
    have h₁' : s.ledger.order k = some n₁ := h₁
    rw [if_pos ⟨by rw [h₀']; rfl, by rw [h₁']; rfl⟩, ledger_setOrderIdDb, ledger_setOrderIdDb]
    refine Ledger.ext rfl rfl ?_ rfl rfl rfl rfl
    funext i
    simp only [Ledger.setOrder, Option.map_map]
    by_cases hk : i = k
    · subst hk
      rw [Equiv.swap_apply_right, h₀', h₁']
      simp
    · by_cases hj : i = jobid
      · subst hj
        rw [Equiv.swap_apply_left, h₀', h₁']
        simp [hk]
      · rw [Equiv.swap_apply_of_ne_of_ne hj hk]
        cases s.ledger.order i <;> simp [hj, hk]
  · rename_i hnone
    have hnot : ¬((s.ledger.order jobid).isSome ∧ (s.ledger.order k).isSome) := by
      rintro ⟨h₀, h₁⟩
      obtain ⟨n₀, hn₀⟩ := Option.isSome_iff_exists.1 h₀
      obtain ⟨n₁, hn₁⟩ := Option.isSome_iff_exists.1 h₁
      exact hnone n₀ n₁ hn₀ hn₁
    rw [if_neg hnot]

theorem sSwapJobs_entries {k : ℤ} (hids : s.view.Ids) :
    Entries (Op.swap socket jobid k).Books s.ledger (s.sSwapJobs socket jobid k).ledger := by
  rw [sSwapJobs]
  split
  · rename_i i₁ i₂ p₁ p₂ h₁ h₂ hp₁ hp₂
    have hget₁ := getElem?_of_findIdx h₁ hp₁
    have hget₂ := getElem?_of_findIdx h₂ hp₂
    refine .single (.swap jobid k) ⟨List.mem_of_getElem? hget₁, List.mem_of_getElem? hget₂⟩ trivial ?_
    rw [ledger_send, ledger_swapDb]
    refine Ledger.ext ?_ rfl rfl rfl rfl rfl rfl
    have hset := Ranked.set_set_eq_map_swap (nodup_of_ids hids) hget₁ hget₂
    simp only [Entry.apply, ledger, onQueue, List.map_set, findjob_jobid hp₁, findjob_jobid hp₂]
    exact hset
  · exact .refl

theorem sSortJobs_entries (hsort : s.jobsortFlag = true) :
    Entries Op.sort.Books s.ledger s.sSortJobs.ledger := by
  refine .single (.sort _) ⟨hsort, ?_⟩ trivial rfl
  have h := (List.filter_append_perm (fun p : Job => decide (p.state = .running))
    s.activeJobs).map Job.jobid
  show (List.map Job.jobid (_ ++ _)).Perm (List.map Job.jobid s.activeJobs)
  simpa using h

/-! ### The end of a job -/

theorem jobFinished_entries {r : Result} (hids : s.view.Ids) (h : s.jobFinished e r jobid = .ok s') :
    Entries (Op.finish r jobid).Books s.ledger s'.ledger := by
  rw [jobFinished] at h
  split_ifs at h
  cases hp : s.findjob jobid with
  | none => simp only [hp, reduceCtorEq] at h
  | some p =>
    simp only [hp] at h
    set s₁ := (s.onQueue fun q => q.finish r p).modJob jobid (finishInfo e r) with hs₁
    have hled : s₁.ledger = s.ledger := by
      rw [hs₁, ledger_modJob (f := finishInfo e r) fun _ => rfl, ledger_onQueue Queue.ids_finish]
    split at h
    · cases h
    · rename_i p' hp'
      cases h
      have hid : p'.jobid = jobid := findjob_jobid hp'
      have hnd : (s₁.activeJobs.map Job.jobid).Nodup := by
        have hactive : s₁.activeJobs.map Job.jobid = s.activeJobs.map Job.jobid :=
          congrArg Ledger.active hled
        rw [hactive]
        exact nodup_of_ids hids
      obtain ⟨l, hl, hend⟩ := ledger_newFinishedJob (s := s₁.onQueue fun q => q.dropJob jobid)
        (e := e) (p := p')
      rw [ledger_dropJob hnd, hled] at hend hl
      refine .single (.finish jobid l) ⟨?_, hl⟩ rfl ?_
      · exact findjob_jobid hp ▸ List.mem_map_of_mem (Keyed.mem_of_lookup hp)
      · rw [ledger_log, hend, hid]
        rfl

/-- `check_notify_list` drops finished jobs from the list only. -/
theorem ledger_checkNotifyList (h : s.checkNotifyList jobid = .ok s') :
    ∃ l : List ℤ, l.Sublist s.ledger.shelf ∧ s'.ledger = { s.ledger with shelf := l } := by
  refine Except.foldlM_induction (R := fun s s' : Spool =>
    ∃ l : List ℤ, l.Sublist s.ledger.shelf ∧ s'.ledger = { s.ledger with shelf := l })
    (fun s => ⟨_, List.Sublist.refl _, rfl⟩) (fun h h' => ?_) (fun {s s' n} _ h => ?_) h
  · obtain ⟨l, hl, hs⟩ := h
    obtain ⟨l', hl', hs'⟩ := h'
    rw [hs] at hl' hs'
    exact ⟨l', hl'.trans hl, hs'⟩
  · rw [notifyWaiter] at h
    split at h
    · cases h
    · split at h
      · dsimp only at h
        split at h
        · unfold destroyFinishedJob at h
          split at h
          · cases h
          · cases h
            exact ⟨_, (List.eraseP_sublist).map Job.jobid, rfl⟩
        · cases h
          exact ⟨_, List.Sublist.refl _, rfl⟩
      · cases h
        exact ⟨_, List.Sublist.refl _, rfl⟩

theorem sDeleteJob_entries (hids : s.view.Ids) (h : s.sDeleteJob jobid = .ok s') :
    Entries (Op.delete jobid).Books s.ledger s'.ledger := by
  rw [sDeleteJob] at h
  split at h
  · cases h
  · cases h
    refine .single (.delete jobid) trivial trivial ?_
    rw [ledger_log, ledger_deleteJobsDb, ledger_dropJob (nodup_of_ids hids)]
    rfl

theorem removeActive_entries (hids : s.view.Ids) (hp : s.findjob p.jobid = some p)
    (h : s.removeActive e p = .ok s') : Entries (Op.removeActive p).Books s.ledger s'.ledger := by
  rw [removeActive, Except.bind_eq_ok] at h
  obtain ⟨s₁, h₁, h⟩ := h
  obtain ⟨l, hl, hs₁⟩ := ledger_checkNotifyList h₁
  have hled : (((s.deleteJobsDb p.jobid).modJob p.jobid Job.gone).onQueue fun q =>
      q.notifyErrorlevel p.gone).ledger =
        { s.ledger with order := s.ledger.scrubOrder p.jobid } := by
    rw [ledger_onQueue Queue.ids_notifyErrorlevel, ledger_modJob (f := Job.gone) fun _ => rfl,
      ledger_deleteJobsDb]
  rw [hled] at hl hs₁
  have hnd : (s₁.activeJobs.map Job.jobid).Nodup := by
    have hactive : s₁.activeJobs.map Job.jobid = s.activeJobs.map Job.jobid :=
      congrArg Ledger.active hs₁
    rw [hactive]
    exact nodup_of_ids hids
  have hforget : Entries (Op.removeActive p).Books s.ledger { s.ledger with shelf := l } :=
    .single (.forget l) hl trivial rfl
  have hmem : p.jobid ∈ s.activeJobs.map Job.jobid :=
    List.mem_map_of_mem (Keyed.mem_of_lookup hp)
  split_ifs at h with hpid
  · cases h
    refine hforget.trans (.single (.delete p.jobid) trivial trivial ?_)
    rw [ledger_log, ledger_dropJob hnd, hs₁]
    rfl
  · cases h
    -- the row is deleted first, and once more when the job is filed
    generalize hj : ({ removedRecord e p.gone.freed with cpuAlloc := none } : Job) = j
    have hid : j.jobid = p.jobid := by rw [← hj]; rfl
    generalize hs₂ : ((((((s₁.onQueue fun q => q.dropJob p.jobid).log (.removed p.gone)).freeCores
      p.gone).cgroupsCleanJob p.gone).freeAlloc e p.cpuAlloc).defrag e) = s₂
    have hled₂ : s₂.ledger = { s₁.ledger with active := s₁.ledger.active.filter (· ≠ p.jobid) } := by
      rw [← hs₂, ledger_defrag, ledger_freeAlloc, ledger_cgroupsCleanJob, ledger_freeCores,
        ledger_log, ledger_dropJob hnd]
    obtain ⟨l', hl', hend⟩ := ledger_newFinishedJob (s := s₂) (e := e) (p := j)
    rw [hled₂, hs₁] at hl' hend
    refine (hforget.trans (.single (.finish p.jobid l') ⟨hmem, hl'⟩ rfl rfl)).trans
      (.single (.scrub p.jobid) ?_ trivial ?_)
    · simp [Entry.Guard, Entry.apply]
    · rw [hend, hid]
      refine Ledger.ext rfl rfl ?_ rfl rfl rfl rfl
      funext i
      by_cases hi : i = p.jobid
      · by_cases hf : p.jobid ∈ s.ledger.filed <;> simp [Entry.apply, Ledger.scrubOrder, hi, hf]
      · by_cases hf : p.jobid ∈ s.ledger.filed <;> simp [Entry.apply, Ledger.scrubOrder, hi, hf]

theorem perm_of_remove {l : List Job} {k : ℤ} (hk : (Keyed.lookup Job.jobid k l).isSome) :
    ((Keyed.remove Job.jobid k l).map Job.jobid ++ [k]).Perm (l.map Job.jobid) := by
  obtain ⟨a, ha, hak⟩ := List.mem_map.1 (Keyed.isSome_lookup.1 hk)
  obtain ⟨b, l₁, l₂, -, hb, rfl, hrem⟩ :=
    List.exists_of_eraseP (p := fun p : Job => decide (p.jobid = k)) ha (by simpa using hak)
  have hbk : b.jobid = k := by simpa using hb
  rw [Keyed.remove, hrem, List.map_append, List.map_append, List.map_cons, hbk, List.append_assoc]
  exact List.Perm.append_left _ (List.perm_append_singleton _ _)

theorem removeFinished_entries (hnone : s.findjob p.jobid = none)
    (h : s.removeFinished p = .ok s') :
    Entries (Op.removeFinished p).Books s.ledger s'.ledger := by
  rw [removeFinished, Except.bind_eq_ok] at h
  obtain ⟨s₁, h₁, h⟩ := h
  obtain ⟨l, hl, hs₁⟩ := ledger_checkNotifyList h₁
  have hled : (((s.deleteJobsDb p.jobid).onQueue fun q =>
      { q with finishedJobs := Keyed.modifyFirst Job.jobid p.jobid Job.gone q.finishedJobs }).onQueue
        fun q => q.notifyErrorlevel p.gone).ledger =
          { s.ledger with order := s.ledger.scrubOrder p.jobid } := by
    rw [ledger_onQueue Queue.ids_notifyErrorlevel, ← ledger_deleteJobsDb]
    refine Ledger.ext rfl ?_ rfl rfl rfl rfl rfl
    exact Keyed.map_modifyFirst fun _ _ _ => rfl
  rw [hled] at hl hs₁
  have hnot : p.jobid ∉ s.activeJobs.map Job.jobid := fun hmem => by
    have hsome : (s.findjob p.jobid).isSome := Keyed.isSome_lookup.2 hmem
    rw [hnone] at hsome
    cases hsome
  have hstart : Entries (Op.removeFinished p).Books s.ledger s₁.ledger := by
    refine Entries.trans (.single (.scrub p.jobid) hnot trivial rfl)
      (.single (.forget l) hl trivial ?_)
    rw [hs₁]
    rfl
  split at h
  · cases h
  · rename_i x hx
    cases h
    refine hstart.trans (.single (.unfile ((Keyed.remove Job.jobid p.jobid s₁.finishedJobs).map
      Job.jobid) [p.jobid]) (perm_of_remove (Option.isSome_iff_exists.2 ⟨x, hx⟩)) trivial ?_)
    refine Ledger.ext rfl rfl rfl ?_ rfl rfl rfl
    refine Table.keys_delete.trans (List.filter_congr fun k _ => ?_)
    simp

theorem keys_foldl_delete {l : List Job} :
    (l.foldl (fun s p => s.deleteFinishedDb p.jobid) s).ledger =
      { s.ledger with filed := s.ledger.filed.filter (· ∉ l.map Job.jobid) } := by
  induction l generalizing s with
  | nil => simp
  | cons p l ih =>
    rw [List.foldl_cons, ih]
    refine Ledger.ext rfl rfl rfl ?_ rfl rfl rfl
    have hkeys : (s.deleteFinishedDb p.jobid).ledger.filed =
        s.ledger.filed.filter (· ≠ p.jobid) := Table.keys_delete
    simp only [hkeys, List.filter_filter]
    refine List.filter_congr fun k _ => ?_
    rw [← Bool.decide_and]
    refine decide_eq_decide.2 ?_
    rw [List.map_cons, List.mem_cons, not_or, and_comm]

/-- The jobs that `s_clear_finished` clears for a user. -/
def clears (user : ℕ) (p : Job) : Bool := p.user = some user ∨ user = 0

theorem ledger_sClearFinished {user : ℕ} : (s.sClearFinished user).ledger =
    { s.ledger with
      shelf := (s.finishedJobs.filter fun p => !clears user p).map Job.jobid
      filed := s.ledger.filed.filter
        (· ∉ (s.finishedJobs.filter (clears user)).map Job.jobid) } := by
  have hdef : s.sClearFinished user =
      ((s.finishedJobs.filter (clears user)).foldl (fun s p => s.deleteFinishedDb p.jobid) s).onQueue
        fun q => { q with finishedJobs := q.finishedJobs.filter fun p => !clears user p } := by
    simp only [sClearFinished, clears, decide_not]
    rfl
  have hend : ∀ (s₁ : Spool) (f : Job → Bool), (s₁.onQueue fun q =>
      { q with finishedJobs := q.finishedJobs.filter f }).ledger =
        { s₁.ledger with shelf := (s₁.finishedJobs.filter f).map Job.jobid } := fun _ _ => rfl
  have hview : ((s.finishedJobs.filter (clears user)).foldl
      (fun s p => s.deleteFinishedDb p.jobid) s).finishedJobs = s.finishedJobs :=
    Except.foldl_induction (R := fun s s' : Spool => s'.finishedJobs = s.finishedJobs)
      (fun _ => rfl) (fun h h' => h'.trans h) s fun _ => rfl
  rw [hdef, hend, hview, keys_foldl_delete]

theorem sClearFinished_entries {user : ℕ} :
    Entries (Op.clear user).Books s.ledger (s.sClearFinished user).ledger := by
  refine .single (.unfile ((s.finishedJobs.filter fun p => !clears user p).map Job.jobid)
    ((s.finishedJobs.filter (clears user)).map Job.jobid)) ?_ trivial ledger_sClearFinished
  have hperm := (List.filter_append_perm (clears user) s.finishedJobs).map Job.jobid
  rw [List.map_append] at hperm
  exact List.perm_append_comm.trans hperm

/-! ### New jobs -/

theorem ids_notifiedBy {q : Queue} {d : List ℤ} {k : ℤ} : (q.notifiedBy d k).ids = q.ids := by
  have hfold : ∀ (ds : List ℤ) (l : List Job),
      (ds.foldl (fun l d => Keyed.modify Job.jobid d (Job.addNotify k) l) l).map Job.jobid =
        l.map Job.jobid := by
    intro ds
    induction ds with
    | nil => exact fun l => rfl
    | cons d ds ih =>
      intro l
      rw [List.foldl_cons, ih]
      exact Keyed.map_modify fun _ _ _ => rfl
  rw [Queue.ids, Queue.ids, Queue.notifiedBy, hfold]

theorem ledger_enqueue {s₁ : Spool} {k next : ℤ} {ev : Event}
    (hst : p.state = .queued ∨ p.state = .holdingClient) (hid : p.jobid = k)
    (hmax : s₁.maxOrderId = s.maxOrderId)
    (hs₁ : s₁.ledger = { s.ledger with active := s.ledger.active ++ [k], jobids := next }) :
    (((s₁.newjobEnqueue p).log ev).setJobidsDb ((s₁.newjobEnqueue p).log ev).jobids).ledger =
      (Entry.insert k (s.maxOrderId + 1) next).apply s.ledger := by
  have henq : (s₁.newjobEnqueue p).ledger = (s₁.insertJobsDb p).ledger := by
    rw [newjobEnqueue]
    obtain hst | hst := hst
    · rw [hst]
      exact ledger_onQueue Queue.ids_modUser
    · rw [hst]
      exact ledger_onQueue Queue.ids_modUser
  have hnext : ((s₁.newjobEnqueue p).log ev).jobids = next := by
    refine (congrArg Ledger.jobids henq).trans (Eq.trans ?_ (congrArg Ledger.jobids hs₁))
    rfl
  rw [ledger_setJobidsDb, hnext, ledger_log, henq, ledger_insertJobsDb, hs₁, hid, hmax]
  rfl

theorem newjobFill_none_entry {m : NewJob} {user : ℕ} {id : ℤ} (hids : s.view.Ids)
    (hfree : m.jobid ≠ 0 → s.findjob m.jobid = none)
    (h : s.newjobFill e socket m user none = .ok (s', id)) :
    ∃ a : Entry, a.Guard s.ledger ∧ s'.ledger = a.apply s.ledger ∧
      (id = -1 ∧ a = .count (s.ledger.nextJobids m) ∨
        id = (s.newjobptr m).jobid ∧ a = .insert id (s.maxOrderId + 1) (s.ledger.nextJobids m)) := by
  simp only [newjobFill, Option.getD_none, if_true] at h
  split_ifs at h with hslots
  · cases h
    exact ⟨.count (s.nextJobids m), le_nextJobids m, rfl, .inl ⟨rfl, rfl⟩⟩
  · rw [Except.bind_eq_ok] at h
    obtain ⟨⟨q, p⟩, hloop, h⟩ := h
    obtain ⟨ds, rfl, hp, -⟩ := Queue.dependLoop_spec hloop
    have hid : (newjobTexts e m p).jobid = (s.newjobptr m).jobid := by
      show p.jobid = _
      rw [hp]
      rfl
    have hnone : s.findjob (s.newjobptr m).jobid = none := by
      refine findjob_newjobptr hids ?_
      split_ifs with hm
      · rfl
      · exact hfree hm
    have hst : (newjobTexts e m p).state = .queued ∨ (newjobTexts e m p).state = .holdingClient := by
      show p.state = .queued ∨ p.state = .holdingClient
      rw [hp]
      simp only [newjobFields, newjobOwner, newjobptr]
      split_ifs <;> simp
    cases h
    refine ⟨.insert (s.newjobptr m).jobid (s.maxOrderId + 1) (s.nextJobids m),
      ⟨?_, le_nextJobids m, newjobptr_lt_nextJobids m, above_maxOrderId⟩, ?_,
      .inr ⟨hid, by rw [hid]; rfl⟩⟩
    · intro hmem
      have hsome : (s.findjob (s.newjobptr m).jobid).isSome := Keyed.isSome_lookup.2 hmem
      rw [hnone] at hsome
      cases hsome
    · have hids' := ids_notifiedBy (q := { s.toQueue with jobids := s.nextJobids m }) (d := ds)
        (k := (newjobFields e m (newjobOwner socket m user (s.newjobptr m))).jobid)
      simp only [Queue.ids, Prod.mk.injEq] at hids'
      obtain ⟨hactive, hshelf, hcount⟩ := hids'
      refine ledger_enqueue hst hid rfl (Ledger.ext ?_ hshelf rfl rfl hcount rfl rfl)
      refine (List.map_append (f := Job.jobid)).trans ?_
      exact congrArg₂ (· ++ ·) hactive (congrArg (fun k => [k]) hid)

theorem insert_entries {m : NewJob} {user : ℕ} {old : Option Job}
    (hmem : p.jobid ∈ s.activeJobs.map Job.jobid) :
    Entries (Op.fill socket m user old).Books s.ledger (s.insertJobsDb p).ledger := by
  rw [ledger_insertJobsDb]
  split_ifs with hsome
  · exact .refl
  · refine .single (.write p.jobid (s.maxOrderId + 1)) ⟨hmem, fun x hx => ?_⟩ trivial rfl
    rw [hx] at hsome
    exact absurd rfl hsome

theorem ids_modJob_const {q : Queue} : (q.modJob p.jobid fun _ => p).ids = q.ids := by
  have h : (q.modJob p.jobid fun _ => p).activeJobs.map Job.jobid = q.activeJobs.map Job.jobid :=
    Keyed.map_modify fun _ _ hid => hid.symm
  rw [Queue.ids, Queue.ids, h]
  rfl

theorem reuse_entries {s₁ : Spool} {m : NewJob} {user : ℕ} {old : Option Job} {ev : Event}
    (hm : m.jobid ≠ 0) (hmem : p.jobid ∈ s.activeJobs.map Job.jobid) (hs₁ : s₁.ledger = s.ledger) :
    Entries (Op.fill socket m user old).Books s.ledger
      (((s₁.newjobEnqueue p).log ev).setJobidsDb ((s₁.newjobEnqueue p).log ev).jobids).ledger := by
  have hmem₁ : p.jobid ∈ s₁.activeJobs.map Job.jobid := by
    have hactive : s₁.activeJobs.map Job.jobid = s.activeJobs.map Job.jobid :=
      congrArg Ledger.active hs₁
    rwa [hactive]
  have henq : Entries (Op.fill socket m user old).Books s.ledger (s₁.newjobEnqueue p).ledger := by
    rw [← hs₁, newjobEnqueue]
    split
    · refine .of_eq ?_
      rw [ledger_onQueue Queue.ids_modUser, ledger_modJob (f := Job.setState .queued) fun _ => rfl]
    · exact .refl
    · have hled : ∀ s : Spool, (s.onQueue fun q => q.countQueued p.user).ledger = s.ledger :=
        fun _ => ledger_onQueue Queue.ids_modUser
      rw [hled]
      exact insert_entries hmem₁
  exact henq.trans (.single .renew trivial hm rfl)

theorem newjobFill_some_entries {m : NewJob} {user : ℕ} {id : ℤ} {old : Job} (hids : s.view.Ids)
    (hm : m.jobid ≠ 0) (hold : s.findjob m.jobid = some old)
    (h : s.newjobFill e socket m user (some old) = .ok (s', id)) :
    Entries (Op.fill socket m user (some old)).Books s.ledger s'.ledger := by
  have holdid := findjob_jobid hold
  simp only [newjobFill, Option.getD_some, reduceCtorEq, if_false] at h
  split_ifs at h with hslots
  · cases h
    refine .single (.lose old.jobid) trivial ⟨hm, holdid⟩ ?_
    rw [ledger_send]
    exact ledger_dropJob (nodup_of_ids hids)
  · rw [Except.bind_eq_ok] at h
    obtain ⟨⟨q, p⟩, hloop, h⟩ := h
    obtain ⟨ds, rfl, hp, -⟩ := Queue.dependLoop_spec hloop
    have hid : (newjobTexts e m p).jobid = old.jobid := by
      show p.jobid = _
      rw [hp]
      rfl
    have hnot : (s.toQueue.notifiedBy ds
        (newjobFields e m (newjobOwner socket m user old)).jobid).ids = s.toQueue.ids := ids_notifiedBy
    cases h
    refine reuse_entries hm ?_ (ledger_onQueue (f := fun _ =>
      (s.toQueue.notifiedBy ds (newjobFields e m (newjobOwner socket m user old)).jobid).modJob
        (newjobTexts e m p).jobid fun _ => newjobTexts e m p) (Eq.trans ?_ hnot))
    · rw [hid]
      exact List.mem_map_of_mem (Keyed.mem_of_lookup hold)
    · exact ids_modJob_const

/-! ### Rows that are written again -/

theorem replace_entries (hmem : p.jobid ∈ s.ledger.active) (hok : ∀ k n, o.Books (.write k n) s.ledger) :
    Entries o.Books s.ledger (s.replaceJobsDb p).ledger := by
  rw [ledger_replaceJobsDb]
  exact .single (.write p.jobid _) (write_guard hmem) (hok _ _) rfl

theorem runjobOk_row {f : Job → Job} {oname : Option String} {pid : ℤ}
    (hf : ∀ p, (f p).jobid = p.jobid)
    (h : (match (s.modJob jobid f).findjob jobid with
      | none => .error Fatal.useAfterFree
      | some p =>
        if p.user = none then .error .nullPointer
        else .ok (if 0 < pid then (s.modJob jobid f).replaceJobsDb p else s.modJob jobid f)) =
      Except.ok s') :
    Entries (Op.runjobOk jobid oname pid).Books s.ledger s'.ledger := by
  rw [← ledger_modJob (s := s) (k := jobid) hf]
  split at h
  · cases h
  · rename_i p hp
    split_ifs at h
    · cases h
      exact replace_entries (List.mem_map_of_mem (f := Job.jobid) (Keyed.mem_of_lookup hp))
        fun _ _ => trivial
    · cases h
      exact .refl

theorem sProcessRunjobOk_entries {oname : Option String} {pid : ℤ}
    (h : s.sProcessRunjobOk e jobid oname pid = .ok s') :
    Entries (Op.runjobOk jobid oname pid).Books s.ledger s'.ledger := by
  rw [sProcessRunjobOk] at h
  split at h
  · cases h
  · rename_i p₀ hp₀
    split at h
    · cases h
      exact .refl
    · split at h
      · cases h
      · dsimp only at h
        generalize hx : ((if e.cpuBind = true ∧ (s.modJob jobid (Job.setPid pid)).cpu.disabled = false ∧
            (p₀.setPid pid).noCpuBinding = false ∧ 0 < (p₀.setPid pid).numAllocated then
              (s.modJob jobid (Job.setPid pid)).bindCpus e (p₀.setPid pid)
            else s.modJob jobid (Job.setPid pid)).cgroupsCreateJob (p₀.setPid pid)) = x at h
        have hled : x.ledger = s.ledger := by
          rw [← hx, ledger_cgroupsCreateJob, apply_ite ledger, ledger_bindCpus, ite_self,
            ledger_modJob (f := Job.setPid pid) fun _ => rfl]
        rw [← hled]
        refine runjobOk_row ?_ h
        exact fun _ => rfl

theorem sAddWtime_entries {w : ℤ} :
    Entries (Op.addWtime socket jobid w).Books s.ledger (s.sAddWtime socket jobid w).ledger := by
  rw [sAddWtime]
  split_ifs
  · exact .refl
  · cases hp : s.findjob jobid with
    | none => exact .refl
    | some p =>
      obtain rfl := findjob_jobid hp
      dsimp only
      generalize (if p.wallTime < 0 then -((p.wallTime.natAbs : ℤ) + w)
        else (p.wallTime.natAbs : ℤ) + w) = n
      have hled : (s.modJob p.jobid (Job.setWallTime n)).ledger = s.ledger :=
        ledger_modJob fun _ => rfl
      split
      · exact .refl
      · split
        · exact .refl
        · rw [ledger_send, ← hled]
          refine replace_entries ?_ fun _ _ => trivial
          rw [hled]
          have hmem : p.jobid ∈ s.activeJobs.map Job.jobid :=
            List.mem_map_of_mem (Keyed.mem_of_lookup hp)
          exact hmem

end Spool

/-- **Every operation is a sequence of entries.** -/
theorem Op.entries {e : Env} {s s' : Spool} {o : Op} (hids : s.view.Ids) (hpre : o.Pre e s)
    (h : o.run e s = .ok s') : Entries o.Books s.ledger s'.ledger := by
  cases o with
  | send socket r | settings l t env dir b | freeze p | thaw p | unnotify socket | users us n m =>
    cases h
    exact .refl
  | pause p =>
    cases h
    refine .of_eq ?_
    rw [Spool.ledger_modJob (f := Job.setState .pause) fun _ => rfl, Spool.ledger_safePauseJob]
  | relegate p =>
    cases h
    exact .of_eq Spool.ledger_sRelegateJob
  | bottom ids =>
    cases h
    exact Spool.toBottom_entries hpre.1 hpre.2
  | finish r jobid => exact Spool.jobFinished_entries hids h
  | notify jobid =>
    obtain ⟨l, hl, hs⟩ := Spool.ledger_checkNotifyList h
    exact .single (.forget l) hl trivial hs
  | recount => exact .of_eq (Spool.ledger_recount h)
  | dispatch uid p => exact .of_eq (Spool.ledger_dispatch h)
  | wake p =>
    cases h
    exact .of_eq (Spool.ledger_modJob fun _ => rfl)
  | fill socket m user old =>
    simp only [run, Except.map_eq_ok] at h
    obtain ⟨⟨s₁, id⟩, h, rfl⟩ := h
    obtain ⟨-, hold, -⟩ := hpre
    cases old with
    | none =>
      -- the job is added, or refused after it has been given its id
      obtain ⟨a, hg, hs, ⟨-, rfl⟩ | ⟨rfl, rfl⟩⟩ :=
        Spool.newjobFill_none_entry hids (fun hm => by rwa [if_neg hm] at hold) h
      · exact .single _ hg rfl hs
      · exact .single _ hg ⟨rfl, rfl⟩ hs
    | some p =>
      have hm : m.jobid ≠ 0 := by
        intro hm
        rw [if_pos hm] at hold
        cases hold
      rw [if_neg hm] at hold
      exact Spool.newjobFill_some_entries hids hm hold h
  | runjobOk jobid oname pid => exact Spool.sProcessRunjobOk_entries h
  | health jobid =>
    cases h
    exact .of_eq Spool.ledger_checkHealth
  | delete jobid => exact Spool.sDeleteJob_entries hids h
  | removeActive p => exact Spool.removeActive_entries hids hpre.1 h
  | removeFinished p => exact Spool.removeFinished_entries hpre.2 h
  | clear user =>
    cases h
    exact Spool.sClearFinished_entries
  | lock p =>
    cases h
    refine .of_eq ?_
    rw [Spool.sLockQueue, Spool.ledger_updateDb, Spool.ledger_modJob (f := Job.setState .locked)
      fun _ => rfl]
    exact Spool.ledger_onQueue Queue.ids_modUser
  | unlock p =>
    cases h
    refine .of_eq ?_
    rw [Spool.sUnlockQueue, Spool.ledger_updateDb, Spool.ledger_modJob (f := Job.setState .queued)
      fun _ => rfl]
    exact Spool.ledger_onQueue Queue.ids_modUser
  | wall jobid w =>
    cases h
    refine .of_eq ?_
    rw [Spool.setWallTime, Spool.ledger_updateDb, Spool.ledger_modJob (f := Job.setWallTime w)
      fun _ => rfl]
  | absWall p =>
    cases h
    exact .of_eq (Spool.ledger_modJob fun _ => rfl)
  | start p =>
    cases h
    exact .of_eq Spool.ledger_configRunning
  | urgent socket jobid =>
    cases h
    exact Spool.sMoveUrgent_entries hids
  | swap socket jobid₁ jobid₂ =>
    cases h
    exact Spool.sSwapJobs_entries hids
  | sort =>
    cases h
    exact Spool.sSortJobs_entries hpre
  | addWtime socket jobid w =>
    cases h
    exact Spool.sAddWtime_entries
  | wait socket p =>
    cases h
    refine .of_eq ?_
    rw [Spool.waitFor]
    split_ifs <;> rfl
  | reconnect p st socket =>
    cases h
    exact .of_eq (Spool.ledger_onQueue (Queue.ids_modAnyJob fun _ => rfl))
  | runjob socket jobid => exact .of_eq (Spool.ledger_sSendRunjob h)

end TaskSpooler
