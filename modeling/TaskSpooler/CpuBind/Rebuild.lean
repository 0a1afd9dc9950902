import TaskSpooler.CpuBind.Invariant

/-!
# The rebuild of the allocations

`cpu_bind_defrag_start` forgets every owner, restores the allocations of quality `0` and makes the
others again: in a first pass those that fit on their primary nodes (`samePass_spec`), in a
second pass the rest (`mergePass_spec`).  `rebuild_spec` puts the phases together, and
`cpuBindDefragStart_spec` is the result: the invariant is kept, and so is the number of CPUs of
every job.
-/

namespace TaskSpooler

namespace CpuBind

open Pool

namespace Bind

variable {T : Topology} {p : Pool} {as : List CpuAlloc} {a : CpuAlloc} {cpus : List ℕ} {b : Bind}

/-- What defragmentation keeps of a record. -/
def holding (a : CpuAlloc) : ℕ × ℤ × ℤ × ℕ := (a.ptr, a.jobid, a.slots, a.osCpus.length)

theorem map_jobid_eq {l l' : List CpuAlloc} (h : l.map holding = l'.map holding) :
    l.map CpuAlloc.jobid = l'.map CpuAlloc.jobid := by
  have := congrArg (List.map fun x : ℕ × ℤ × ℤ × ℕ => x.2.1) h
  simpa [holding, Function.comp_def] using this

theorem map_count_eq {l l' : List CpuAlloc} (h : l.map holding = l'.map holding) :
    (l.map fun a => (a.osCpus.length : ℤ)) = l'.map fun a => (a.osCpus.length : ℤ) := by
  have := congrArg (List.map fun x : ℕ × ℤ × ℤ × ℕ => (x.2.2.2 : ℤ)) h
  simpa [holding, Function.comp_def] using this

/-- The allocations that the first pass placed, and those it skipped. -/
def placedOf (l : List (CpuAlloc × Bool)) : List CpuAlloc := (l.filter fun x => !x.2).map Prod.fst

def skippedOf (l : List (CpuAlloc × Bool)) : List CpuAlloc := (l.filter fun x => x.2).map Prod.fst

theorem placed_skipped_perm (l : List (CpuAlloc × Bool)) :
    (placedOf l ++ skippedOf l).Perm (l.map Prod.fst) := by
  have := (List.filter_append_perm (fun x : CpuAlloc × Bool => !x.2) l).map Prod.fst
  simpa [placedOf, skippedOf] using this

/-- Restoring the allocations of quality 0 in an empty pool. -/
theorem restore_placed {kept : List CpuAlloc} (hkept : Placed T p (kept ++ as)) :
    ∀ {q : Pool} {done : List CpuAlloc}, Placed T q done →
      (∀ a ∈ kept, ∀ c ∈ a.osCpus, q.owner c = 0) →
      ((kept ++ done).map CpuAlloc.jobid).Nodup →
      Placed T (kept.foldl (fun q a => a.osCpus.foldl (occupy T a.jobid) q) q) (kept ++ done) := by
  induction kept generalizing as with
  | nil => intro q done hq _ _; exact hq
  | cons a kept ih =>
    intro q done hq hfree hjobs
    have hperm : (kept ++ a :: as).Perm (a :: kept ++ as) := List.perm_middle
    have hav : Available T q a.osCpus :=
      ⟨hkept.nodup a (by simp), hfree a (by simp), hkept.known a (by simp)⟩
    have hjobs' := List.nodup_cons.1 hjobs
    have hnew : a.jobid ∉ done.map CpuAlloc.jobid := fun h => hjobs'.1 (by simp_all)
    have hadd := hq.add hav (hkept.nonempty a (by simp)) (List.Perm.refl _)
      (hkept.jobid_pos a (by simp)) hnew
    have hmid : (kept ++ a :: done).Perm (a :: kept ++ done) := List.perm_middle
    refine (ih (hkept.perm hperm.symm) hadd ?_ ?_).perm hmid
    · intro x hx c hc
      rw [foldl_occupy_owner, if_neg, hfree x (by simp [hx]) c hc]
      intro hca
      have := (List.pairwise_cons.1 hkept.disjoint).1 x (by simp [hx])
      exact this hca hc
    · exact (hmid.map _).nodup_iff.2 hjobs

/-- The checks found nothing wrong with the record, and its allocation left at most one group
open. -/
def Clean (a : CpuAlloc) : Prop := a.error = false ∧ a.quality ≤ 1

/-- The record `a'` is `a` with other CPUs, free ones of the pool `p`, and `p'` is what is left. -/
structure Remade (T : Topology) (p : Pool) (as : List CpuAlloc) (a a' : CpuAlloc) (p' : Pool) :
    Prop where
  placed : Placed T p' (a' :: as)
  holding_eq : holding a' = holding a
  clean : Clean a'
  available : Available T p a'.osCpus
  nodeFree_eq : ∀ n < T.nodes.length,
    p'.nodeFree n = p.nodeFree n - (a'.osCpus.filter fun c => T.OnNode n c).length

/-- Allocating the CPUs of a record again, by a path that hands out as many free ones. -/
theorem realloc_placed (Q : Qsort) (x : CpuAlloc) (h : Placed T p as) (hpos : 0 < a.jobid)
    (hne : a.osCpus ≠ []) (hnew : a.jobid ∉ as.map CpuAlloc.jobid)
    (hav : Available T p cpus) (hlen : cpus.length = a.osCpus.length) (hclean : Clean x)
    (hx : x.osCpus = cpus ∧ x.jobid = a.jobid ∧ x.ptr = a.ptr ∧ x.slots = a.slots) :
    ∃ a', cpuBindPostAlloc Q T (cpus.foldl (occupy T a.jobid) p) x = a' ∧
      Remade T p as a a' (cpus.foldl (occupy T a.jobid) p) ∧ a'.osCpus.Perm cpus := by
  obtain ⟨rfl, hj, hptr, hslots⟩ := hx
  have hcpus : x.osCpus ≠ [] := fun hnil =>
    hne (List.length_eq_zero_iff.1 (by rw [← hlen, hnil]; rfl))
  rw [← hj] at hpos hnew ⊢
  obtain ⟨hpost, hplaced⟩ := h.postAlloc Q hav hcpus hpos hnew
  have hperm : (Q.sort (fun x y => decide (x ≤ y)) x.osCpus).Perm x.osCpus := Q.perm _ _
  refine ⟨_, hpost, ⟨hplaced, by simp [holding, hlen, hj, hptr, hslots], hclean,
    ⟨hperm.nodup_iff.2 hav.nodup, fun c hc => hav.free c (hperm.subset hc),
      fun c hc => hav.known c (hperm.subset hc)⟩, fun n hn => ?_⟩, hperm⟩
  rw [nodeFree_foldl_occupy hn hav.known, (hperm.filter _).length_eq]

/-- The step of the first pass that allocates on the primary node. -/
theorem realloc_node (Q : Qsort) {n : ℕ} (h : Placed T p as) (hpos : 0 < a.jobid)
    (hne : a.osCpus ≠ []) (hnew : a.jobid ∉ as.map CpuAlloc.jobid) (hn : n < T.nodes.length)
    (hroom : (a.osCpus.length : ℤ) ≤ p.nodeFree n) :
    ∃ o a', allocFromGroups T a.osCpus.length (T.node n).groupIds p (reset a) = o ∧
      o.hung = false ∧ cpuBindPostAlloc Q T o.pool o.alloc = a' ∧ Remade T p as a a' o.pool ∧
      ∀ c ∈ a'.osCpus, T.OnNode n c := by
  obtain ⟨cpus, q, hav, hlen, hin, hq, halloc⟩ := allocNode_spec (a := reset a) hpos.ne' h.counted
    hn (List.length_pos_iff.2 hne) hroom
  obtain ⟨a', hpost, hmade, hperm⟩ :=
    realloc_placed Q { reset a with osCpus := cpus, quality := q } h hpos hne hnew hav hlen
      ⟨rfl, hq⟩ ⟨rfl, rfl, rfl, rfl⟩
  exact ⟨_, a', halloc, rfl, hpost, hmade, fun c hc => hin c (hperm.subset hc)⟩

/-- The step of the second pass. -/
theorem realloc_merge (Q : Qsort) (h : Placed T p as) (hpos : 0 < a.jobid)
    (hne : a.osCpus ≠ []) (hnew : a.jobid ∉ as.map CpuAlloc.jobid)
    (hroom : (a.osCpus.length : ℤ) ≤ totalFree T p) :
    ∃ o a', crossNodeMerge Q T a.osCpus.length p (reset a) = o ∧ o.hung = false ∧
      cpuBindPostAlloc Q T o.pool
        { o.alloc with primaryNode := a.primaryNode, memNodes := a.memNodes } = a' ∧
      Remade T p as a a' o.pool := by
  obtain ⟨ns, cpus, q, -, hav, hlen, -, hq, halloc⟩ := crossNodeMerge_spec (a := reset a) Q
    hpos.ne' h.counted (List.length_pos_iff.2 hne) hroom
  obtain ⟨a', hpost, hmade, -⟩ :=
    realloc_placed Q { reset a with osCpus := cpus, quality := q } h hpos hne hnew hav hlen
      ⟨rfl, hq⟩ ⟨rfl, rfl, rfl, rfl⟩
  exact ⟨_, a', halloc, rfl, hpost, hmade⟩

theorem nodup_jobs_middle {l : List CpuAlloc} {a' : CpuAlloc} (hhold : holding a' = holding a)
    (h : ((a :: l ++ as).map CpuAlloc.jobid).Nodup) :
    ((l ++ a' :: as).map CpuAlloc.jobid).Nodup := by
  have heq : (l ++ a' :: as).map holding = (l ++ a :: as).map holding := by simp [hhold]
  rw [map_jobid_eq heq]
  exact (List.perm_middle.map CpuAlloc.jobid).nodup_iff.2 h

/-! ### The passes -/

/-- All CPUs of the allocation lie on its primary node. -/
def Local (T : Topology) (a : CpuAlloc) : Prop :=
  0 ≤ a.primaryNode ∧ ∀ c ∈ a.osCpus, T.OnNode a.primaryNode.toNat c

/-- The primary node has room for the whole allocation. -/
def Fits (T : Topology) (room : ℕ → ℤ) (a : CpuAlloc) : Prop :=
  0 ≤ a.primaryNode ∧ a.primaryNode < T.nodes.length ∧
    (a.osCpus.length : ℤ) ≤ room a.primaryNode.toNat

instance (T : Topology) (a : CpuAlloc) : Decidable (Local T a) :=
  inferInstanceAs (Decidable (_ ∧ _))

instance (T : Topology) (room : ℕ → ℤ) (a : CpuAlloc) : Decidable (Fits T room a) :=
  inferInstanceAs (Decidable (_ ∧ _))

/-- Of some allocations that take their turns on their primary nodes, where there is room, no local
one is turned away. -/
def NoneDisplaced (T : Topology) : (ℕ → ℤ) → List CpuAlloc → Prop
  | _, [] => True
  | room, a :: rest =>
    if Fits T room a then
      NoneDisplaced T (Function.update room a.primaryNode.toNat
        (room a.primaryNode.toNat - a.osCpus.length)) rest
    else ¬Local T a ∧ NoneDisplaced T room rest

theorem noneDisplaced_congr {room room' : ℕ → ℤ} {l : List CpuAlloc}
    (h : ∀ n < T.nodes.length, room n = room' n) :
    NoneDisplaced T room l ↔ NoneDisplaced T room' l := by
  induction l generalizing room room' with
  | nil => exact Iff.rfl
  | cons a l ih =>
    have hfits : Fits T room a ↔ Fits T room' a := by
      unfold Fits
      refine and_congr_right fun h₀ => and_congr_right fun h₁ => ?_
      rw [h _ (by omega)]
    rw [NoneDisplaced, NoneDisplaced]
    by_cases hfit : Fits T room' a
    · have hlt : a.primaryNode.toNat < T.nodes.length := by
        obtain ⟨h₀, h₁, -⟩ := id hfit
        omega
      rw [if_pos (hfits.2 hfit), if_pos hfit]
      refine ih fun n hn => ?_
      by_cases hna : n = a.primaryNode.toNat
      · rw [hna, Function.update_self, Function.update_self, h _ hlt]
      · rw [Function.update_of_ne hna, Function.update_of_ne hna, h n hn]
    · rw [if_neg fun h => hfit (hfits.1 h), if_neg hfit, ih h]

theorem Remade.length_eq {a' : CpuAlloc} {p' : Pool} (h : Remade T p as a a' p') :
    a'.osCpus.length = a.osCpus.length := by
  simpa [holding] using congrArg (fun x : ℕ × ℤ × ℤ × ℕ => x.2.2.2) h.holding_eq

/-- Making allocations again takes room. -/
theorem Remade.nodeFree_le {a' : CpuAlloc} {p' : Pool} {n : ℕ} (h : Remade T p as a a' p')
    (hn : n < T.nodes.length) : p'.nodeFree n ≤ p.nodeFree n := by
  rw [h.nodeFree_eq n hn]
  omega

/-- On one node it takes room of this node only. -/
theorem Remade.nodeFree_update {a' : CpuAlloc} {p' : Pool} {m n : ℕ} (h : Remade T p as a a' p')
    (hm : m < T.nodes.length) (hin : ∀ c ∈ a'.osCpus, T.OnNode m c) (hn : n < T.nodes.length) :
    Function.update p.nodeFree m (p.nodeFree m - a.osCpus.length) n = p'.nodeFree n := by
  rw [h.nodeFree_eq n hn]
  by_cases hnm : n = m
  · rw [hnm, Function.update_self, ← h.length_eq,
      List.filter_eq_self.2 fun c hc => by simpa using hin c hc]
  · have hnone : (a'.osCpus.filter fun c => T.OnNode n c) = [] := by
      refine List.filter_eq_nil_iff.2 fun c hc hcn => hnm ?_
      exact onNode_unique hn hm (of_decide_eq_true hcn) (hin c hc)
    rw [Function.update_of_ne hnm, hnone, List.length_nil]
    omega

/-- What the first pass does to the allocations `l`, which it turns into `out`. -/
structure SamePassed (T : Topology) (p : Pool) (as l : List CpuAlloc)
    (out : List (CpuAlloc × Bool)) (p' : Pool) : Prop where
  placed : Placed T p' (placedOf out ++ as)
  holding_eq : (out.map Prod.fst).map holding = l.map holding
  skipped_subset : skippedOf out ⊆ l
  clean : ∀ a ∈ placedOf out, Clean a
  nodeFree_le : ∀ n < T.nodes.length, p'.nodeFree n ≤ p.nodeFree n
  /-- It skips those that do not fit on their primary nodes, -/
  not_fits : ∀ a ∈ skippedOf out, ¬Fits T p'.nodeFree a
  /-- and makes the others again there. -/
  stays : ∀ a ∈ l, a ∈ skippedOf out ∨ ∃ a' ∈ placedOf out, holding a' = holding a ∧
    ∀ c ∈ a'.osCpus, T.OnNode a.primaryNode.toNat c
  displaced : NoneDisplaced T p.nodeFree l ↔ ∀ a ∈ skippedOf out, ¬Local T a

/-- The first pass makes an allocation again on its primary node. -/
theorem SamePassed.place {a' : CpuAlloc} {l : List CpuAlloc} {out : List (CpuAlloc × Bool)}
    {p₁ p' : Pool} (hmade : Remade T p as a a' p₁) (hfits : Fits T p.nodeFree a)
    (hin : ∀ c ∈ a'.osCpus, T.OnNode a.primaryNode.toNat c)
    (h : SamePassed T p₁ (a' :: as) l out p') : SamePassed T p as (a :: l) ((a', false) :: out) p' where
  placed := h.placed.perm List.perm_middle
  holding_eq := by
    have := h.holding_eq
    simp only [List.map_cons, hmade.holding_eq, this]
  skipped_subset := List.subset_cons_of_subset a h.skipped_subset
  clean := List.forall_mem_cons.2 ⟨hmade.clean, h.clean⟩
  nodeFree_le n hn := (h.nodeFree_le n hn).trans (hmade.nodeFree_le hn)
  not_fits := h.not_fits
  stays := by
    intro x hx
    obtain rfl | hx := List.mem_cons.1 hx
    · exact .inr ⟨a', List.mem_cons_self, hmade.holding_eq, hin⟩
    · exact (h.stays x hx).imp_right fun ⟨x', hx', hx''⟩ => ⟨x', List.mem_cons_of_mem _ hx', hx''⟩
  displaced := by
    have hlt : a.primaryNode.toNat < T.nodes.length := by
      obtain ⟨h₀, h₁, -⟩ := id hfits
      omega
    rw [NoneDisplaced, if_pos hfits,
      noneDisplaced_congr fun n hn => hmade.nodeFree_update hlt hin hn]
    exact h.displaced

/-- The first pass skips an allocation. -/
theorem SamePassed.skip {l : List CpuAlloc} {out : List (CpuAlloc × Bool)} {p' : Pool}
    (hfits : ¬Fits T p.nodeFree a) (h : SamePassed T p as l out p') :
    SamePassed T p as (a :: l) ((a, true) :: out) p' where
  placed := h.placed
  holding_eq := by
    have := h.holding_eq
    simp only [List.map_cons, this]
  skipped_subset := List.cons_subset_cons a h.skipped_subset
  clean := h.clean
  nodeFree_le := h.nodeFree_le
  not_fits := by
    refine List.forall_mem_cons.2 ⟨fun ⟨h₀, h₁, h₂⟩ => hfits ⟨h₀, h₁, h₂.trans ?_⟩, h.not_fits⟩
    exact h.nodeFree_le _ (by omega)
  stays := by
    intro x hx
    obtain rfl | hx := List.mem_cons.1 hx
    · exact .inl List.mem_cons_self
    · exact (h.stays x hx).imp_left fun hx' => List.mem_cons_of_mem _ hx'
  displaced := by
    rw [NoneDisplaced, if_neg hfits, h.displaced]
    exact (List.forall_mem_cons (p := fun x => ¬Local T x)).symm

theorem samePass_spec (Q : Qsort) {l : List CpuAlloc} (hung : Bool) (h : Placed T p as)
    (hpos : ∀ a ∈ l, 0 < a.jobid) (hne : ∀ a ∈ l, a.osCpus ≠ [])
    (hjobs : ((l ++ as).map CpuAlloc.jobid).Nodup) :
    ∃ out p', samePass Q T l (p, hung) = (out, p', hung) ∧ SamePassed T p as l out p' := by
  induction l generalizing p as with
  | nil =>
    exact ⟨[], p, rfl, h, rfl, List.nil_subset _, fun _ h => absurd h List.not_mem_nil,
      fun _ _ => le_rfl, fun _ h => absurd h List.not_mem_nil, fun _ h => absurd h List.not_mem_nil,
      by simp [NoneDisplaced, skippedOf]⟩
  | cons a l ih =>
    have hjobs' := List.nodup_cons.1 hjobs
    have hnew : a.jobid ∉ as.map CpuAlloc.jobid := fun h => hjobs'.1 (by simp_all)
    have hpos' : ∀ x ∈ l, 0 < x.jobid := fun x hx => hpos x (by simp [hx])
    have hne' : ∀ x ∈ l, x.osCpus ≠ [] := fun x hx => hne x (by simp [hx])
    unfold samePass
    split_ifs with hnode
    · obtain ⟨o, a', ho, hhung, ha', hmade, hin⟩ := realloc_node (n := a.primaryNode.toNat) Q h
        (hpos a (by simp)) (hne a (by simp)) hnew (by omega) hnode.2.2
      obtain ⟨out, p', hrun, hout⟩ :=
        ih hmade.placed hpos' hne' (nodup_jobs_middle hmade.holding_eq hjobs)
      refine ⟨(a', false) :: out, p', ?_, hout.place hmade hnode hin⟩
      simp only [ho, ha', hhung, Bool.or_false, hrun]
    · obtain ⟨out, p', hrun, hout⟩ := ih h hpos' hne' hjobs'.2
      exact ⟨(a, true) :: out, p', by rw [hrun], hout.skip hnode⟩

/-- What the second pass does to the allocations `l`, which it turns into `done`. -/
structure MergePassed (T : Topology) (p : Pool) (as : List CpuAlloc) (l : List (CpuAlloc × Bool))
    (done : List CpuAlloc) (p' : Pool) : Prop where
  placed : Placed T p' (done ++ as)
  holding_eq : done.map holding = (l.map Prod.fst).map holding
  placed_subset : placedOf l ⊆ done
  clean : (∀ a ∈ placedOf l, Clean a) → ∀ a ∈ done, Clean a
  /-- The skipped ones are made of CPUs that were free before. -/
  remade : ∀ a ∈ skippedOf l, ∃ a' ∈ done, holding a' = holding a ∧
    ∃ q : Pool, q.Counted T ∧ Available T q a'.osCpus ∧
      ∀ n < T.nodes.length, q.nodeFree n ≤ p.nodeFree n

theorem mergePass_spec (Q : Qsort) {l : List (CpuAlloc × Bool)} (hung : Bool)
    (h : Placed T p (placedOf l ++ as)) (hpos : ∀ a ∈ skippedOf l, 0 < a.jobid)
    (hne : ∀ a ∈ skippedOf l, a.osCpus ≠ [])
    (hjobs : ((l.map Prod.fst ++ as).map CpuAlloc.jobid).Nodup)
    (hroom : ((skippedOf l).map fun a => (a.osCpus.length : ℤ)).sum ≤ totalFree T p) :
    ∃ done p', mergePass Q T l (p, hung) = (done, p', hung) ∧ MergePassed T p as l done p' := by
  induction l generalizing p as with
  | nil =>
    exact ⟨[], p, rfl, h, rfl, List.nil_subset _, fun h => h, fun _ h => absurd h List.not_mem_nil⟩
  | cons x l ih =>
    obtain ⟨a, skipped⟩ := x
    cases skipped with
    | false =>
      -- placed by the first pass
      have hmid : (placedOf l ++ a :: as).Perm (placedOf ((a, false) :: l) ++ as) :=
        List.perm_middle
      obtain ⟨done, p', hrun, hdone⟩ :=
        ih (h.perm hmid.symm) hpos hne (nodup_jobs_middle rfl hjobs) hroom
      refine ⟨a :: done, p', by rw [mergePass, hrun], hdone.placed.perm List.perm_middle, ?_,
        List.cons_subset_cons a hdone.placed_subset, fun hclean => ?_, fun x hx => ?_⟩
      · have := hdone.holding_eq
        simp only [List.map_cons, this]
      · have hclean : ∀ x ∈ a :: placedOf l, Clean x := hclean
        rw [List.forall_mem_cons] at hclean ⊢
        exact ⟨hclean.1, hdone.clean hclean.2⟩
      · obtain ⟨a', ha', hmade⟩ := hdone.remade x hx
        exact ⟨a', List.mem_cons_of_mem _ ha', hmade⟩
    | true =>
      have hskip : skippedOf ((a, true) :: l) = a :: skippedOf l := rfl
      rw [hskip] at hpos hne hroom
      rw [List.map_cons, List.sum_cons] at hroom
      have hrest : 0 ≤ ((skippedOf l).map fun a => (a.osCpus.length : ℤ)).sum :=
        List.sum_nonneg fun x hx => by
          obtain ⟨y, -, rfl⟩ := List.mem_map.1 hx
          omega
      have hnew : a.jobid ∉ (placedOf l ++ as).map CpuAlloc.jobid := by
        intro hmem
        rw [List.map_cons, List.cons_append, List.map_cons, List.nodup_cons] at hjobs
        refine hjobs.1 ?_
        rw [List.map_append, List.mem_append] at hmem ⊢
        refine hmem.imp_left fun hmem => ?_
        obtain ⟨y, hy, hyj⟩ := List.mem_map.1 hmem
        exact List.mem_map.2 ⟨y, (placed_skipped_perm l).subset (List.mem_append_left _ hy), hyj⟩
      obtain ⟨o, a', ho, hhung, ha', hmade⟩ := realloc_merge Q h (hpos a (by simp))
        (hne a (by simp)) hnew (by omega)
      have hplaced := hmade.placed
      have hhold := hmade.holding_eq
      have hroom' : ((skippedOf l).map fun a => (a.osCpus.length : ℤ)).sum ≤
          totalFree T o.pool := by
        have h1 := hplaced.balance
        have h2 := h.balance
        have h3 := hmade.length_eq
        rw [List.map_cons, List.sum_cons] at h1
        omega
      obtain ⟨done, p', hrun, hdone⟩ := ih (hplaced.perm List.perm_middle.symm)
        (fun x hx => hpos x (by simp [hx])) (fun x hx => hne x (by simp [hx]))
        (nodup_jobs_middle hhold hjobs) hroom'
      refine ⟨a' :: done, p', ?_, hdone.placed.perm List.perm_middle, ?_,
        List.subset_cons_of_subset a' hdone.placed_subset,
        fun hclean => List.forall_mem_cons.2 ⟨hmade.clean, hdone.clean hclean⟩, fun x hx => ?_⟩
      · simp only [mergePass, ho, ha', hhung, Bool.or_false, hrun]
      · have := hdone.holding_eq
        simp only [List.map_cons, hhold, this]
      · obtain rfl | hx := List.mem_cons.1 hx
        · exact ⟨a', List.mem_cons_self, hhold, p, h.counted, hmade.available, fun n _ => le_rfl⟩
        · obtain ⟨x', hx', hkey, q, hq, hav, hle⟩ := hdone.remade x hx
          exact ⟨x', List.mem_cons_of_mem _ hx', hkey, q, hq, hav,
            fun n hn => (hle n hn).trans (hmade.nodeFree_le hn)⟩

/-- The allocations that defragmentation leaves alone. -/
def keptOf (Q : Qsort) (b : Bind) : List CpuAlloc :=
  (Q.sort defragLe b.allocs).takeWhile fun a => a.quality = 0

/-- The allocations that defragmentation makes again, in the order in which it does. -/
def movedOf (Q : Qsort) (b : Bind) : List CpuAlloc :=
  (Q.sort defragLe b.allocs).dropWhile fun a => a.quality = 0

theorem kept_moved_perm (Q : Qsort) (b : Bind) : (keptOf Q b ++ movedOf Q b).Perm b.allocs := by
  have hsplit : keptOf Q b ++ movedOf Q b = Q.sort defragLe b.allocs :=
    List.takeWhile_append_dropWhile
  rw [hsplit]
  exact Q.perm _ _

/-- The pool in which only the allocations `kept` are restored. -/
def restore (T : Topology) (kept : List CpuAlloc) : Pool :=
  kept.foldl (fun p a => a.osCpus.foldl (Pool.occupy T a.jobid) p) (Pool.fresh T)

/-- The three phases of the rebuild: every allocation is restored or made again. -/
theorem rebuild_spec (Q : Qsort) {kept moved : List CpuAlloc} (hung : Bool)
    (hall : Placed T p (kept ++ moved)) : Placed T (restore T kept) kept ∧ ∃ out p₁ done p₂,
      samePass Q T moved (restore T kept, hung) = (out, p₁, hung) ∧
      SamePassed T (restore T kept) kept moved out p₁ ∧
      mergePass Q T out (p₁, hung) = (done, p₂, hung) ∧ MergePassed T p₁ kept out done p₂ := by
  have hcomm : (moved ++ kept).Perm (kept ++ moved) := List.perm_append_comm
  have hjobs : ((moved ++ kept).map CpuAlloc.jobid).Nodup :=
    (hcomm.map _).nodup_iff.2 hall.jobs_nodup
  have hkept : Placed T (restore T kept) (kept ++ []) := restore_placed hall (Placed.fresh T)
    (fun _ _ _ _ => rfl)
    (by rw [List.append_nil]; exact (List.nodup_append.1 (List.map_append ▸ hall.jobs_nodup)).1)
  rw [List.append_nil] at hkept
  obtain ⟨out, p₁, hsame, hout⟩ := samePass_spec Q hung hkept
    (fun a ha => hall.jobid_pos a (by simp [ha])) (fun a ha => hall.nonempty a (by simp [ha]))
    hjobs
  have hroom : ((skippedOf out).map fun a => (a.osCpus.length : ℤ)).sum ≤ totalFree T p₁ := by
    have h1 := hout.placed.balance
    have h2 := hall.balance
    have h3 := congrArg List.sum (map_count_eq hout.holding_eq)
    rw [← ((placed_skipped_perm out).map _).sum_eq] at h3
    have h4 := hall.totalFree_nonneg
    simp only [List.map_append, List.sum_append] at h1 h2 h3
    omega
  have hjobs₁ : ((out.map Prod.fst ++ kept).map CpuAlloc.jobid).Nodup := by
    have heq : (out.map Prod.fst ++ kept).map holding = (moved ++ kept).map holding := by
      rw [List.map_append, List.map_append, hout.holding_eq]
    rw [map_jobid_eq heq]
    exact hjobs
  obtain ⟨done, p₂, hmerge, hdone⟩ := mergePass_spec Q hung hout.placed
    (fun a ha => hall.jobid_pos a (by simp [hout.skipped_subset ha]))
    (fun a ha => hall.nonempty a (by simp [hout.skipped_subset ha])) hjobs₁ hroom
  exact ⟨hkept, out, p₁, done, p₂, hsame, hout, hmerge, hdone⟩

/-- What defragmentation makes of the allocator: nothing but a new order, or the rebuilt one. -/
theorem cpuBindDefragStart_cases (Q : Qsort) (T : Topology) (b : Bind) :
    (b.defragDisabled = true ∧ b.cpuBindDefragStart Q T = b) ∨
    (b.defragDisabled = false ∧ movedOf Q b = [] ∧
      b.cpuBindDefragStart Q T = { b with allocs := Q.sort defragLe b.allocs }) ∨
    (b.defragDisabled = false ∧ movedOf Q b ≠ [] ∧ ∀ out p₁ done p₂ hung₁ hung₂,
      samePass Q T (movedOf Q b) (restore T (keptOf Q b), b.hung) = (out, p₁, hung₁) →
      mergePass Q T out (p₁, hung₁) = (done, p₂, hung₂) → b.cpuBindDefragStart Q T =
        { b with pool := p₂, allocs := keptOf Q b ++ done, hung := hung₂ }) := by
  by_cases hdis : b.defragDisabled = true
  · exact .inl ⟨hdis, if_pos hdis⟩
  · have hdis' : b.defragDisabled = false := by simpa using hdis
    by_cases hmoved : movedOf Q b = []
    · refine .inr (.inl ⟨hdis', hmoved, ?_⟩)
      rw [cpuBindDefragStart, if_neg hdis]
      exact if_pos hmoved
    · refine .inr (.inr ⟨hdis', hmoved, fun out p₁ done p₂ hung₁ hung₂ hsame hmerge => ?_⟩)
      unfold restore keptOf at hsame
      unfold movedOf at hsame hmoved
      simp only [cpuBindDefragStart, if_neg hdis, if_neg hmoved, hsame, hmerge, keptOf]

/-- **Defragmentation keeps the invariant**, and every job keeps the number of its CPUs. -/
theorem cpuBindDefragStart_spec (Q : Qsort) (h : b.Ok T) :
    (b.cpuBindDefragStart Q T).Ok T ∧
      ((b.cpuBindDefragStart Q T).allocs.map holding).Perm (b.allocs.map holding) := by
  obtain ⟨-, heq⟩ | ⟨-, -, heq⟩ | ⟨-, -, heq⟩ := cpuBindDefragStart_cases Q T b
  · rw [heq]
    exact ⟨h, List.Perm.refl _⟩
  · have hperm : (Q.sort defragLe b.allocs).Perm b.allocs := Q.perm _ _
    rw [heq]
    exact ⟨⟨h.placed.perm hperm.symm, (hperm.map _).nodup_iff.2 h.ptr_nodup,
      fun a ha => h.ptr_lt a (hperm.subset ha), h.hung⟩, hperm.map _⟩
  · have hperm := kept_moved_perm Q b
    obtain ⟨-, out, p₁, done, p₂, hsame, hout, hmerge, hdone⟩ :=
      rebuild_spec Q b.hung (h.placed.perm hperm.symm)
    have hhold : ((keptOf Q b ++ done).map holding).Perm (b.allocs.map holding) := by
      rw [List.map_append, hdone.holding_eq, hout.holding_eq, ← List.map_append]
      exact hperm.map _
    rw [heq _ _ _ _ _ _ hsame hmerge]
    refine ⟨⟨hdone.placed.perm List.perm_append_comm, ?_, ?_, h.hung⟩, hhold⟩
    · have := hhold.map Prod.fst
      simp only [List.map_map] at this
      exact this.nodup_iff.2 h.ptr_nodup
    · intro a ha
      have hmem := hhold.subset (List.mem_map_of_mem ha)
      obtain ⟨x, hx, hxa⟩ := List.mem_map.1 hmem
      rw [← show x.ptr = a.ptr from congrArg Prod.fst hxa]
      exact h.ptr_lt x hx

end Bind

end CpuBind

end TaskSpooler
