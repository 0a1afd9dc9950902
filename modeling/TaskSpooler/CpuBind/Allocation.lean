import TaskSpooler.CpuBind.Histories

/-!
# What an allocation is

Results about one call of `cpu_bind_alloc` with a fresh record, in any consistent state of the
allocator.

* `cpuBindAlloc_succeeds_iff_room`: it hands out exactly `N` free CPUs if the machine has them, and
  otherwise does nothing,
* `cpuBindAlloc_footprint`: it uses as few nodes as possible, and `mem_nodes` is the set of them.
-/

namespace TaskSpooler

namespace CpuBind

open Pool

variable {T : Topology} {p : Pool} {n N : ℕ} {cpus : List ℕ} {a : CpuAlloc}

/-! ### Free CPUs -/

/-- The free CPUs of the machine. -/
def freeCpus (T : Topology) (p : Pool) : List ℕ :=
  (T.groups.flatMap CoreGroup.osCpus).filter fun c => p.owner c = 0

/-- The free CPUs of a node. -/
def freeOnNode (T : Topology) (p : Pool) (n : ℕ) : List ℕ :=
  (T.node n).groupIds.flatMap (freeOf T p)

theorem mem_freeCpus {c : ℕ} : c ∈ freeCpus T p ↔
    (∃ g, c ∈ (T.group g).osCpus) ∧ p.owner c = 0 := by
  simp only [freeCpus, List.mem_filter, List.mem_flatMap, decide_eq_true_eq]
  refine and_congr_left fun _ => ⟨?_, fun ⟨g, hg⟩ => ?_⟩
  · rintro ⟨grp, hgrp, hc⟩
    obtain ⟨g, hg, rfl⟩ := List.getElem_of_mem hgrp
    refine ⟨g, ?_⟩
    rwa [Topology.group, List.getD_eq_getElem _ _ hg]
  · exact ⟨T.group g, Topology.group_mem (Topology.lt_of_mem_group hg), hg⟩

theorem map_group_range (T : Topology) :
    (List.range T.groups.length).map T.group = T.groups := by
  refine List.ext_getElem (by simp) fun g hg hg' => ?_
  rw [List.getElem_map, List.getElem_range, Topology.group, List.getD_eq_getElem _ _ hg']

theorem nodeFree_eq_length (hp : p.Counted T) (hn : n < T.nodes.length) :
    p.nodeFree n = (freeOnNode T p n).length := by
  rw [hp.nodeFree_eq n hn, freeOnNode, List.length_flatMap, Nat.cast_list_sum, List.map_map]
  refine congrArg List.sum (List.map_congr_left fun g hg => ?_)
  rw [hp.groupFree_eq g ((Topology.mem_node_iff hn).1 hg).1, freeIn, List.countP_eq_length_filter]
  rfl

theorem nodeFree_nonneg (hp : p.Counted T) (hn : n < T.nodes.length) : 0 ≤ p.nodeFree n := by
  rw [nodeFree_eq_length hp hn]
  exact Int.natCast_nonneg _

/-- The counters of the nodes add up to the free CPUs of the machine. -/
theorem totalFree_eq (hp : p.Counted T) : Bind.totalFree T p = (freeCpus T p).length := by
  have hlt : ∀ n ∈ List.range T.nodes.length, n < T.nodes.length := fun n => List.mem_range.1
  obtain ⟨hnd, hgroups, hsum⟩ := collected_groups hp List.nodup_range hlt
  have hperm : ((List.range T.nodes.length).flatMap fun n => (T.node n).groupIds).Perm
      (List.range T.groups.length) := by
    rw [List.perm_ext_iff_of_nodup hnd List.nodup_range]
    intro g
    refine ⟨fun h => List.mem_range.2 (hgroups g h), fun h => ?_⟩
    have hg := List.mem_range.1 h
    have hn := T.nodeId_lt _ (Topology.group_mem hg)
    exact List.mem_flatMap.2 ⟨_, List.mem_range.2 hn, (Topology.mem_node_iff hn).2 ⟨hg, rfl⟩⟩
  rw [Bind.totalFree, ← hsum, (hperm.map _).sum_eq, freeCpus, ← List.countP_eq_length_filter,
    List.countP_flatMap, Nat.cast_list_sum]
  conv_rhs => rw [← map_group_range T]
  rw [List.map_map, List.map_map]
  exact congrArg List.sum (List.map_congr_left fun g hg => hp.groupFree_eq g (List.mem_range.1 hg))

/-- Free CPUs of some nodes are no more than their counters say. -/
theorem Pool.Available.length_le {ns : List ℕ} (hp : p.Counted T) (h : Available T p cpus)
    (hlt : ∀ n ∈ ns, n < T.nodes.length) (hin : ∀ c ∈ cpus, ∃ n ∈ ns, T.OnNode n c) :
    (cpus.length : ℤ) ≤ (ns.map p.nodeFree).sum := by
  have hsub : cpus ⊆ ns.flatMap (freeOnNode T p) := by
    intro c hc
    obtain ⟨n, hn, g, hg, hcg⟩ := hin c hc
    refine List.mem_flatMap.2 ⟨n, hn, List.mem_flatMap.2 ⟨g, hg, ?_⟩⟩
    exact List.mem_filter.2 ⟨hcg, by simpa using h.free c hc⟩
  have hlen : cpus.length ≤ (ns.flatMap (freeOnNode T p)).length :=
    (h.nodup.subperm hsub).length_le
  have hsum : (ns.map p.nodeFree).sum = (ns.flatMap (freeOnNode T p)).length := by
    rw [List.length_flatMap, Nat.cast_list_sum, List.map_map]
    exact congrArg List.sum (List.map_congr_left fun n hn => nodeFree_eq_length hp (hlt n hn))
  omega

/-! ### The nodes of an allocation -/

/-- The nodes that some of the CPUs lie on. -/
def nodesOf (T : Topology) (cpus : List ℕ) : Finset ℕ :=
  (Finset.range T.nodes.length).filter fun n => ∃ c ∈ cpus, T.OnNode n c

theorem mem_nodesOf : n ∈ nodesOf T cpus ↔ n < T.nodes.length ∧ ∃ c ∈ cpus, T.OnNode n c := by
  simp [nodesOf]

theorem testBit_bitmapOf {ns : List ℕ} : (bitmapOf ns).testBit n = true ↔ n ∈ ns := by
  have hstep : ∀ (ns : List ℕ) (bitmap : ℕ),
      (ns.foldl (fun bitmap n => bitmap ||| 1 <<< n) bitmap).testBit n = true ↔
        bitmap.testBit n = true ∨ n ∈ ns := by
    intro ns
    induction ns with
    | nil => simp
    | cons m ns ih =>
      intro bitmap
      rw [List.foldl_cons, ih, Nat.testBit_or, Nat.one_shiftLeft, Nat.testBit_two_pow,
        Bool.or_eq_true, decide_eq_true_eq, List.mem_cons, or_assoc, eq_comm (a := m)]
  rw [bitmapOf, hstep]
  simp

theorem nodeOrder_pairwise (Q : Qsort) :
    (nodeOrder Q T p).Pairwise fun i j => p.nodeFree j ≤ p.nodeFree i := by
  have h := Q.pairwise (fun i j => decide (p.nodeFree j ≤ p.nodeFree i))
    (List.range T.nodes.length) (by simp; omega) (by simp; omega)
  exact h.imp fun hij => of_decide_eq_true hij

section Collected

variable {Q : Qsort} {ns : List ℕ}

/-- The last node is needed, and it is the smallest one. -/
theorem Collected.split (h : Collected p.nodeFree N (nodeOrder Q T p) ns) (hpos : 0 < N) :
    ∃ l m, ns = l ++ [m] ∧ (l.map p.nodeFree).sum < (N : ℤ) ∧
      (∀ i ∈ l, ∀ x < T.nodes.length, x ∉ l → p.nodeFree x ≤ p.nodeFree i) := by
  obtain rfl | ⟨l, m, hns⟩ := ns.eq_nil_or_concat
  · have := h.enough
    rw [List.map_nil, List.sum_nil] at this
    omega
  · rw [List.concat_eq_append] at hns
    subst hns
    refine ⟨l, m, rfl, h.short l m rfl, fun i hi x hx hxl => ?_⟩
    obtain ⟨rest, hrest⟩ := h.isPrefix
    have hsorted := nodeOrder_pairwise (T := T) (p := p) Q
    have hmem : x ∈ nodeOrder Q T p := (nodeOrder_perm Q).mem_iff.2 (List.mem_range.2 hx)
    rw [← hrest, List.append_assoc] at hsorted hmem
    exact (List.pairwise_append.1 hsorted).2.2 i hi x ((List.mem_append.1 hmem).resolve_left hxl)

/-- Without any one of them the collected nodes do not suffice. -/
theorem Collected.erase_lt (h : Collected p.nodeFree N (nodeOrder Q T p) ns) (hpos : 0 < N)
    (hn : n ∈ ns) : ((ns.erase n).map p.nodeFree).sum < N := by
  obtain ⟨hnd, hlt⟩ := h.nodes
  obtain ⟨l, m, rfl, hshort, hlarge⟩ := h.split hpos
  have hm : m ∉ l := fun hmem => (List.nodup_append.1 hnd).2.2 m hmem m (by simp) rfl
  have hsmall : p.nodeFree m ≤ p.nodeFree n := by
    obtain hn | hn := List.mem_append.1 hn
    · exact hlarge n hn m (hlt m (by simp)) hm
    · rw [List.mem_singleton.1 hn]
  have hsum := ((List.perm_cons_erase hn).map p.nodeFree).sum_eq
  rw [List.map_append, List.sum_append, List.map_cons, List.sum_cons] at hsum
  simp only [List.map_cons, List.map_nil, List.sum_cons, List.sum_nil] at hsum
  omega

/-- No fewer nodes suffice. -/
theorem Collected.length_le (hp : p.Counted T) (h : Collected p.nodeFree N (nodeOrder Q T p) ns)
    (hpos : 0 < N) {S : Finset ℕ} (hS : S ⊆ Finset.range T.nodes.length)
    (hsum : (N : ℤ) ≤ ∑ x ∈ S, p.nodeFree x) : ns.length ≤ S.card := by
  obtain ⟨hnd, hlt⟩ := h.nodes
  obtain ⟨l, m, rfl, hshort, hlarge⟩ := h.split hpos
  have hl := (List.nodup_append.1 hnd).1
  have hcard := card_lt_of_largest (w := p.nodeFree) (F := l.toFinset)
    (fun i hi => nodeFree_nonneg hp (hlt i (by simp [List.mem_toFinset.1 hi])))
    (fun i hi x hx hxl => hlarge i (List.mem_toFinset.1 hi) x (Finset.mem_range.1 (hS hx))
      fun hmem => hxl (List.mem_toFinset.2 hmem))
    (by rw [List.sum_toFinset _ hl]; exact hshort) hsum
  rw [List.toFinset_card_of_nodup hl] at hcard
  rw [List.length_append, List.length_singleton]
  omega

end Collected

section Path

variable {Q : Qsort} {ns : List ℕ} {j pn : ℤ}

theorem Path.nodes (h : Path Q T N p j ns pn) : ns.Nodup ∧ ∀ n ∈ ns, n < T.nodes.length := by
  cases h with
  | single hn => exact ⟨List.nodup_singleton _, fun x hx => List.mem_singleton.1 hx ▸ hn⟩
  | merge _ hns => exact hns.nodes

/-- Every node that was picked is used. -/
theorem Path.used (hp : p.Counted T) (h : Path Q T N p j ns pn) (hpos : 0 < N)
    (hav : Available T p cpus) (hlen : cpus.length = N) (hin : ∀ c ∈ cpus, ∃ n ∈ ns, T.OnNode n c) :
    nodesOf T cpus = ns.toFinset := by
  obtain ⟨hnd, hlt⟩ := h.nodes
  ext n
  rw [mem_nodesOf, List.mem_toFinset]
  constructor
  · rintro ⟨hn, c, hc, hcn⟩
    obtain ⟨x, hx, hcx⟩ := hin c hc
    exact onNode_unique (hlt x hx) hn hcx hcn ▸ hx
  · intro hn
    refine ⟨hlt n hn, ?_⟩
    cases h with
    | single =>
      obtain ⟨c, hc⟩ := List.exists_mem_of_length_pos (hlen.symm ▸ hpos)
      obtain ⟨x, hx, hcx⟩ := hin c hc
      rw [List.mem_singleton.1 hn, ← List.mem_singleton.1 hx]
      exact ⟨c, hc, hcx⟩
    | merge hfull hns =>
      -- the others alone would not suffice
      by_contra hno
      push Not at hno
      have hlt' : ∀ x ∈ ns.erase n, x < T.nodes.length := fun x hx => hlt x (List.mem_of_mem_erase hx)
      have hle := hav.length_le hp hlt' fun c hc => by
          obtain ⟨x, hx, hcx⟩ := hin c hc
          refine ⟨x, (List.mem_erase_of_ne ?_).2 hx, hcx⟩
          rintro rfl
          exact hno c hc hcx
      have := hns.erase_lt hpos hn
      omega

/-- No fewer nodes have `N` free CPUs. -/
theorem Path.length_le (hp : p.Counted T) (h : Path Q T N p j ns pn) (hpos : 0 < N) {S : Finset ℕ}
    (hS : S ⊆ Finset.range T.nodes.length) (hsum : (N : ℤ) ≤ ∑ x ∈ S, p.nodeFree x) :
    ns.length ≤ S.card := by
  cases h with
  | single =>
    refine Finset.card_pos.2 (Finset.nonempty_iff_ne_empty.2 ?_)
    rintro rfl
    rw [Finset.sum_empty] at hsum
    omega
  | merge _ hns => exact hns.length_le hp hpos hS hsum

end Path

namespace Bind

variable {b : Bind} {N : ℤ}

theorem Consistent.counted (h : b.Consistent T) : b.pool.Counted T where
  groupFree_eq g hg := by
    rw [h.groupFree_eq g hg, freeIn, List.countP_eq_length_filter]
  nodeFree_eq := h.nodeFree_eq

/-- A record as `cpu_bind_alloc_init` makes it, for a job that holds no CPU. -/
structure Fresh (b : Bind) (a : CpuAlloc) : Prop where
  jobid_pos : 0 < a.jobid
  idle : ∀ c, b.pool.owner c ≠ a.jobid
  osCpus_eq : a.osCpus = []
  error_eq : a.error = false

/-- The two outcomes of `cpu_bind_alloc`. -/
theorem cpuBindAlloc_cases (Q : Qsort) (hb : b.Consistent T) (ha : b.Fresh a) (N : ℤ) :
    ((b.disabled = true ∨ N ≤ 0 ∨ totalFree T b.pool < N) ∧ b.cpuBindAlloc Q T a N =
      (b.store { a with error := true }, { a with error := true })) ∨
    ((b.disabled = false ∧ 0 < N ∧ N ≤ totalFree T b.pool) ∧
      ∃ ns pn cpus q, Path Q T N.toNat b.pool a.jobid ns pn ∧ Available T b.pool cpus ∧
        (cpus.length : ℤ) = N ∧ (∀ c ∈ cpus, ∃ n ∈ ns, T.OnNode n c) ∧
        let a' := { a with
          primaryNode := pn, memNodes := bitmapOf ns, osCpus := Q.sort (fun x y => x ≤ y) cpus
          quality := q }
        b.cpuBindAlloc Q T a N =
          (store { b with pool := cpus.foldl (occupy T a.jobid) b.pool } a', a')) := by
  by_cases hfail : b.disabled = true ∨ N ≤ 0 ∨ totalFree T b.pool < N
  · exact .inl ⟨hfail, cpuBindAlloc_failed hfail⟩
  · push Not at hfail
    obtain ⟨hdis, hpos, hN⟩ := hfail
    have hdis : b.disabled = false := by simpa using hdis
    obtain ⟨ns, pn, cpus, q, hpath, hav, hlen, hin, -, heq⟩ :=
      cpuBindAlloc_spec Q ha.jobid_pos.ne' ha.idle hb.counted hdis hpos hN
    exact .inr ⟨⟨hdis, hpos, hN⟩, ns, pn, cpus, q, hpath, hav, hlen, hin, heq⟩

/-- **`cpu_bind_alloc` succeeds exactly when it can**: with binding enabled and `N` free CPUs it
hands out `N` of them, in increasing order, and nothing else changes hands; otherwise it marks the
record and leaves the CPUs alone. -/
theorem cpuBindAlloc_succeeds_iff_room (Q : Qsort) (hb : b.Consistent T) (ha : b.Fresh a)
    (hN : N ≤ a.slots) :
    let room := b.disabled = false ∧ 1 ≤ N ∧ N ≤ (freeCpus T b.pool).length
    let (b', a') := b.cpuBindAlloc Q T a N
    b'.hung = false ∧
    (room → a'.error = false ∧ (a'.osCpus.length : ℤ) = N ∧ N ≤ a'.slots ∧
      a'.osCpus.Pairwise (· < ·) ∧ (∀ c ∈ a'.osCpus, c ∈ freeCpus T b.pool) ∧
      ∀ c, b'.pool.owner c = if c ∈ a'.osCpus then a.jobid else b.pool.owner c) ∧
    (¬room → a'.error = true ∧ a'.osCpus = [] ∧ b'.pool = b.pool) := by
  have htotal := totalFree_eq hb.counted
  obtain ⟨hfail, heq⟩ | ⟨⟨hdis, hpos, hroom⟩, ns, pn, cpus, q, -, hav, hlen, -, heq⟩ :=
    cpuBindAlloc_cases Q hb ha N
  · simp only [heq]
    refine ⟨hb.terminated, fun ⟨h₁, h₂, h₃⟩ => ?_, fun _ => ⟨trivial, ha.osCpus_eq, rfl⟩⟩
    simp only [h₁, Bool.false_eq_true, false_or] at hfail
    omega
  · simp only [heq]
    refine ⟨hb.terminated, fun _ => ⟨ha.error_eq, ?_, hN, ?_, fun c hc => ?_, fun c => ?_⟩,
      fun hno => absurd ⟨hdis, by omega, by omega⟩ hno⟩
    · rw [Q.length_sort, hlen]
    · have hle := Q.pairwise (fun x y => decide (x ≤ y)) cpus (by simp; omega) (by simp; omega)
      have hne : (Q.sort (fun x y => decide (x ≤ y)) cpus).Pairwise (· ≠ ·) :=
        Q.nodup_sort.2 hav.nodup
      exact hle.imp₂ (fun x y hxy hxy' => by simp at hxy; omega) hne
    · have hc' := Q.mem_sort.1 hc
      exact mem_freeCpus.2 ⟨hav.known c hc', hav.free c hc'⟩
    · exact (foldl_occupy_owner c).trans (if_congr Q.mem_sort.symm rfl rfl)

/-- The record of a job 7 that asks for three CPUs. -/
def jobSeven : CpuAlloc := { ptr := 0, jobid := 7, slots := 3 }

theorem jobSeven_fresh : (cpuBindInit twoNodes).Fresh jobSeven :=
  ⟨by decide, fun c => by simp [cpuBindInit, fresh, jobSeven], rfl, rfl⟩

theorem jobSeven_succeeds :
    ((cpuBindInit twoNodes).cpuBindAlloc .insertion twoNodes jobSeven 3).2.error = false ∧
      ((cpuBindInit twoNodes).cpuBindAlloc .insertion twoNodes jobSeven 3).2.osCpus.length = 3 := by
  have h := cpuBindAlloc_succeeds_iff_room .insertion (cpuBindInit_ok twoNodes).consistent
    jobSeven_fresh (N := 3) (by decide)
  obtain ⟨herror, hlen, -⟩ := h.2.1 ⟨rfl, by decide, by decide⟩
  exact ⟨herror, by exact_mod_cast hlen⟩

/-- What a call that succeeded did. -/
theorem cpuBindAlloc_success (Q : Qsort) (hb : b.Consistent T) (ha : b.Fresh a)
    (hok : (b.cpuBindAlloc Q T a N).2.error = false) :
    0 < N ∧ ∃ ns, Path Q T N.toNat b.pool a.jobid ns (b.cpuBindAlloc Q T a N).2.primaryNode ∧
      (b.cpuBindAlloc Q T a N).2.memNodes = bitmapOf ns ∧
      (∀ c ∈ (b.cpuBindAlloc Q T a N).2.osCpus, ∃ n ∈ ns, T.OnNode n c) ∧
      nodesOf T (b.cpuBindAlloc Q T a N).2.osCpus = ns.toFinset := by
  obtain ⟨-, heq⟩ | ⟨⟨-, hpos, -⟩, ns, pn, cpus, q, hpath, hav, hlen, hin, heq⟩ :=
    cpuBindAlloc_cases Q hb ha N
  · rw [heq] at hok
    exact absurd hok (by simp)
  · rw [heq]
    refine ⟨hpos, ns, hpath, rfl, fun c hc => hin c (Q.mem_sort.1 hc), ?_⟩
    rw [← hpath.used hb.counted (by omega) hav (by omega) hin]
    ext n
    simp only [mem_nodesOf, Q.mem_sort]

/-- **An allocation uses as few nodes as possible**: one with the most free CPUs if it has room,
otherwise as few as can have `N` free CPUs together; and `mem_nodes` lists exactly the nodes it
uses. -/
theorem cpuBindAlloc_footprint (Q : Qsort) (hT : T.nodes.length < 31) (hb : b.Consistent T)
    (ha : b.Fresh a) (hok : (b.cpuBindAlloc Q T a N).2.error = false) :
    let a' := (b.cpuBindAlloc Q T a N).2
    ((∃ n < T.nodes.length, N ≤ b.pool.nodeFree n) →
      ∃ n < T.nodes.length, (∀ x < T.nodes.length, b.pool.nodeFree x ≤ b.pool.nodeFree n) ∧
        ∀ c ∈ a'.osCpus, T.OnNode n c) ∧
    ((∀ n < T.nodes.length, b.pool.nodeFree n < N) →
      IsLeast {k | ∃ S ⊆ Finset.range T.nodes.length, N ≤ ∑ n ∈ S, b.pool.nodeFree n ∧ S.card = k}
        (nodesOf T a'.osCpus).card) ∧
    (∀ n, a'.memNodes.testBit n = true ↔ n ∈ nodesOf T a'.osCpus) ∧ a'.memNodes < 2 ^ 31 := by
  obtain ⟨hpos, ns, hpath, hmem, hin, hnodes⟩ := cpuBindAlloc_success Q hb ha hok
  have htoNat : (N.toNat : ℤ) = N := Int.toNat_of_nonneg hpos.le
  generalize (b.cpuBindAlloc Q T a N).2.primaryNode = pn at hpath
  dsimp only
  rw [hmem, hnodes]
  refine ⟨fun ⟨n, hn, hroom⟩ => ?_, fun hfull => ?_, fun n => ?_, ?_⟩
  · cases hpath with
    | @single m hm hle hmost =>
      refine ⟨m, hm, hmost, fun c hc => ?_⟩
      obtain ⟨x, hx, hcx⟩ := hin c hc
      exact List.mem_singleton.1 hx ▸ hcx
    | merge hfull =>
      have := hfull n hn
      omega
  · obtain ⟨hnd, hlt⟩ := hpath.nodes
    rw [List.toFinset_card_of_nodup hnd]
    constructor
    · refine ⟨ns.toFinset, fun n hn => ?_, ?_, List.toFinset_card_of_nodup hnd⟩
      · exact Finset.mem_range.2 (hlt n (List.mem_toFinset.1 hn))
      · rw [List.sum_toFinset _ hnd]
        cases hpath with
        | single hn hroom => have := hfull _ hn; omega
        | merge _ hns => exact htoNat ▸ hns.enough
    · rintro k ⟨S, hS, hsum, rfl⟩
      exact hpath.length_le hb.counted (by omega) hS (htoNat.symm ▸ hsum)
  · rw [testBit_bitmapOf, List.mem_toFinset]
  · refine Nat.lt_pow_two_of_testBit _ fun n hn => ?_
    rw [Bool.eq_false_iff, ne_eq, testBit_bitmapOf]
    intro hmem
    have := hpath.nodes.2 n hmem
    omega

/-- Job 7 needs both nodes. -/
theorem jobSeven_footprint :
    ((cpuBindInit twoNodes).cpuBindAlloc .insertion twoNodes jobSeven 3).2.memNodes = 3 ∧
      IsLeast {k | ∃ S ⊆ Finset.range 2, (3 : ℤ) ≤ ∑ n ∈ S, (fresh twoNodes).nodeFree n ∧ S.card = k}
        (nodesOf twoNodes
          ((cpuBindInit twoNodes).cpuBindAlloc .insertion twoNodes jobSeven 3).2.osCpus).card := by
  have h := cpuBindAlloc_footprint .insertion (by decide) (cpuBindInit_ok twoNodes).consistent
    jobSeven_fresh (N := 3) (by decide +kernel)
  exact ⟨by decide +kernel, h.2.1 (by decide)⟩

end Bind

end CpuBind

end TaskSpooler
