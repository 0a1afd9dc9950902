import TaskSpooler.CpuBind.Allocation
import Mathlib.Data.List.TakeWhile
import Mathlib.Order.Lattice.Nat

/-!
# The primary node

`cross_node_merge` picks the primary node before it knows which nodes it will use.
`cpuBindAlloc_primary_iff` says exactly when the pick belongs to the job, and
`jobFive_primary_outside` is a history in which it does not.
-/

namespace TaskSpooler

namespace CpuBind

open Pool

variable {T : Topology} {p : Pool} {n N : ℕ} {a : CpuAlloc}

/-- The largest number of free CPUs of a node. -/
def mostFree (T : Topology) (p : Pool) : ℕ :=
  (Finset.range T.nodes.length).sup fun n => (p.nodeFree n).toNat

/-- How many nodes have that many. -/
def tied (T : Topology) (p : Pool) : ℕ :=
  ((Finset.range T.nodes.length).filter fun n => p.nodeFree n = mostFree T p).card

theorem nodeFree_le_mostFree (hn : n < T.nodes.length) : p.nodeFree n ≤ mostFree T p := by
  have : (p.nodeFree n).toNat ≤ mostFree T p :=
    Finset.le_sup (f := fun n => (p.nodeFree n).toNat) (Finset.mem_range.2 hn)
  omega

theorem mostFree_le {m : ℤ} (hm : 0 ≤ m) (h : ∀ n < T.nodes.length, p.nodeFree n ≤ m) :
    (mostFree T p : ℤ) ≤ m := by
  have : mostFree T p ≤ m.toNat := Finset.sup_le fun n hn => by
    have := h n (Finset.mem_range.1 hn)
    omega
  omega

theorem tied_pos (hp : p.Counted T) (hT : 0 < T.nodes.length) : 0 < tied T p := by
  obtain ⟨n, hn, hsup⟩ := Finset.exists_mem_eq_sup (Finset.range T.nodes.length)
    (Finset.nonempty_range_iff.2 hT.ne') fun n => (p.nodeFree n).toNat
  refine Finset.card_pos.2 ⟨n, Finset.mem_filter.2 ⟨hn, ?_⟩⟩
  have hnonneg := nodeFree_nonneg hp (Finset.mem_range.1 hn)
  rw [mostFree, hsup]
  omega

section Primary

variable {Q : Qsort} {ns : List ℕ}

/-- The nodes that tie for the most free CPUs stand first in the order. -/
theorem takeWhile_nodeOrder (hp : p.Counted T) (hT : 0 < T.nodes.length) :
    p.nodeFree ((nodeOrder Q T p).getD 0 0) = mostFree T p ∧
      ((nodeOrder Q T p).takeWhile fun n => p.nodeFree n = mostFree T p).length = tied T p := by
  have hsorted := nodeOrder_pairwise (T := T) (p := p) Q
  have hperm : (nodeOrder Q T p).Perm (List.range T.nodes.length) := nodeOrder_perm Q
  have hmem : ∀ n, n ∈ nodeOrder Q T p ↔ n < T.nodes.length := fun n => by
    rw [hperm.mem_iff, List.mem_range]
  constructor
  · obtain ⟨x, l, hl⟩ : ∃ x l, nodeOrder Q T p = x :: l := by
      refine List.exists_cons_of_ne_nil fun hnil => ?_
      have := (hmem 0).2 hT
      rw [hnil] at this
      exact List.not_mem_nil this
    have hx : x < T.nodes.length := (hmem x).1 (by simp [hl])
    rw [hl, List.getD_cons_zero]
    rw [hl, List.pairwise_cons] at hsorted
    refine le_antisymm (nodeFree_le_mostFree hx) (mostFree_le (nodeFree_nonneg hp hx) ?_)
    intro n hn
    have hn' := (hmem n).2 hn
    rw [hl, List.mem_cons] at hn'
    obtain rfl | hn' := hn'
    · exact le_rfl
    · exact hsorted.1 n hn'
  · rw [takeWhile_eq_filter_of_sorted hsorted fun n hn => nodeFree_le_mostFree ((hmem n).1 hn), tied,
      ← List.toFinset_card_of_nodup ((hperm.nodup_iff.2 List.nodup_range).filter _)]
    congr 1
    ext n
    simp [hmem]

/-- How many nodes are collected, in terms of the sums of the first ones. -/
theorem Collected.lt_length_iff {free : ℕ → ℤ} {N : ℤ} {order : List ℕ}
    (h : Collected free N order ns) (hfree : ∀ n ∈ order, 0 ≤ free n) (i : ℕ) :
    i < ns.length ↔ ((order.take i).map free).sum < N := by
  obtain ⟨rest, rfl⟩ := h.isPrefix
  have hle : ∀ l l' : List ℕ, (∀ n ∈ l', 0 ≤ free n) →
      (l.map free).sum ≤ ((l ++ l').map free).sum := by
    intro l l' hl'
    rw [List.map_append, List.sum_append]
    have : 0 ≤ (l'.map free).sum := List.sum_nonneg (by simpa using hl')
    omega
  constructor
  · intro hi
    obtain rfl | ⟨l, m, hns⟩ := ns.eq_nil_or_concat
    · exact absurd hi (by simp)
    · rw [List.concat_eq_append] at hns
      subst hns
      have hil : i ≤ l.length := by
        rw [List.length_append, List.length_singleton] at hi
        omega
      have htake : (l ++ [m] ++ rest).take i = l.take i := by
        rw [List.append_assoc, List.take_append_of_le_length hil]
      have hsplit := hle (l.take i) (l.drop i) fun n hn =>
        hfree n (by simp [List.mem_of_mem_drop hn])
      rw [List.take_append_drop] at hsplit
      rw [htake]
      exact hsplit.trans_lt (h.short l m rfl)
  · intro hlt
    by_contra hi
    obtain ⟨k, rfl⟩ := Nat.exists_eq_add_of_le (not_lt.1 hi)
    have hsum := hle ns (rest.take k) fun n hn => hfree n (by simp [List.mem_of_mem_take hn])
    rw [List.take_length_add_append] at hlt
    have := h.enough
    omega

/-- The node in the `i`-th place of those that tie is collected if the ones before do not
suffice. -/
theorem Collected.getD_mem_iff (hp : p.Counted T)
    (h : Collected p.nodeFree N (nodeOrder Q T p) ns) {i : ℕ} (hi : i < tied T p) :
    (nodeOrder Q T p).getD i 0 ∈ ns ↔ (i : ℤ) * mostFree T p < N := by
  have hperm : (nodeOrder Q T p).Perm (List.range T.nodes.length) := nodeOrder_perm Q
  have hT : 0 < T.nodes.length := by
    obtain ⟨n, hn⟩ := Finset.card_pos.1 ((Nat.zero_le i).trans_lt hi)
    have := Finset.mem_range.1 (Finset.mem_filter.1 hn).1
    omega
  have hties := (takeWhile_nodeOrder (Q := Q) hp hT).2
  have hnonneg : ∀ n ∈ nodeOrder Q T p, 0 ≤ p.nodeFree n := fun n hn =>
    nodeFree_nonneg hp (List.mem_range.1 (hperm.mem_iff.1 hn))
  -- the nodes before it have as many free CPUs
  have hsum : (((nodeOrder Q T p).take i).map p.nodeFree).sum = i * mostFree T p := by
    have hall : ∀ x ∈ ((nodeOrder Q T p).take i).map p.nodeFree, x = mostFree T p := by
      intro x hx
      obtain ⟨n, hn, rfl⟩ := List.mem_map.1 hx
      have htake : (nodeOrder Q T p).take i =
          ((nodeOrder Q T p).takeWhile fun n => p.nodeFree n = mostFree T p).take i := by
        conv_lhs => rw [← List.takeWhile_append_dropWhile (l := nodeOrder Q T p)
          (p := fun n => decide (p.nodeFree n = mostFree T p))]
        exact List.take_append_of_le_length (by omega)
      rw [htake] at hn
      simpa using List.mem_takeWhile_imp (List.mem_of_mem_take hn)
    have hlen : ((nodeOrder Q T p).take i).length = i := by
      have := (List.takeWhile_prefix (l := nodeOrder Q T p)
        fun n => decide (p.nodeFree n = mostFree T p)).length_le
      rw [List.length_take]
      omega
    rw [List.sum_eq_card_nsmul _ _ hall, List.length_map, hlen, nsmul_eq_mul]
  have hlength := h.lt_length_iff hnonneg i
  rw [hsum] at hlength
  rw [← hlength]
  obtain ⟨rest, hrest⟩ := h.isPrefix
  have hnd : (ns ++ rest).Nodup := hrest ▸ hperm.nodup_iff.2 List.nodup_range
  have hilt : i < (ns ++ rest).length := by
    rw [hrest]
    have := (List.takeWhile_prefix (l := nodeOrder Q T p)
      fun n => decide (p.nodeFree n = mostFree T p)).length_le
    omega
  rw [← hrest, List.getD_eq_getElem _ _ hilt]
  refine ⟨fun hmem => ?_, fun hlt => ?_⟩
  · by_contra hge
    rw [List.getElem_append_right (not_lt.1 hge)] at hmem
    exact (List.nodup_append.1 hnd).2.2 _ hmem _ (List.getElem_mem _) rfl
  · rw [List.getElem_append_left hlt]
    exact List.getElem_mem hlt

/-- Where the primary node stands. -/
theorem primaryNode_eq (hp : p.Counted T) (hT : 0 < T.nodes.length) {j : ℤ}
    (hN : N ≤ T.maxCoresPerGroup) : ∃ i < tied T p, (i : ℤ) = j % tied T p ∧
      primaryNode T N p j (nodeOrder Q T p) = (nodeOrder Q T p).getD i 0 := by
  obtain ⟨hbest, hties⟩ := takeWhile_nodeOrder (Q := Q) hp hT
  have hpos := tied_pos hp hT
  have hmod := Int.emod_nonneg j (b := tied T p) (by omega)
  have hmod' := Int.emod_lt_of_pos j (b := tied T p) (by omega)
  refine ⟨(j % tied T p).toNat, by omega, by omega, ?_⟩
  rw [primaryNode, if_neg (not_lt.2 hN)]
  simp only [hbest, hties]
  split_ifs with hone
  · rfl
  · have htied : tied T p = 1 := by omega
    rw [htied, Nat.cast_one, Int.emod_one, Int.toNat_zero]

end Primary

namespace Bind

variable {b : Bind} {N : ℤ}

/-- **When the primary node is one of the job's nodes**: always with one node or without a primary
node.  With several nodes it is picked by the job id among those that tie for the most free CPUs,
and it belongs to the job if the ones before it do not suffice. -/
theorem cpuBindAlloc_primary_iff (Q : Qsort) (hb : b.Consistent T) (ha : b.Fresh a)
    (hok : (b.cpuBindAlloc Q T a N).2.error = false) :
    let a' := (b.cpuBindAlloc Q T a N).2
    (a'.primaryNode = -1 ∨ ∃ n ∈ nodesOf T a'.osCpus, a'.primaryNode = n) ↔
      (∃ n < T.nodes.length, N ≤ b.pool.nodeFree n) ∨ T.maxCoresPerGroup < N ∨
        a.jobid % tied T b.pool * mostFree T b.pool < N := by
  obtain ⟨hpos, ns, hpath, -, -, hnodes⟩ := cpuBindAlloc_success Q hb ha hok
  have htoNat : (N.toNat : ℤ) = N := Int.toNat_of_nonneg hpos.le
  dsimp only
  rw [hnodes]
  generalize (b.cpuBindAlloc Q T a N).2.primaryNode = pn at hpath
  cases hpath with
  | @single n hn hroom _ =>
    exact ⟨fun _ => .inl ⟨n, hn, htoNat ▸ hroom⟩, fun _ => .inr ⟨n, by simp, rfl⟩⟩
  | merge hfull hns =>
    have hno : ¬∃ n < T.nodes.length, N ≤ b.pool.nodeFree n := by
      rintro ⟨n, hn, hle⟩
      have := hfull n hn
      omega
    simp only [hno, false_or]
    by_cases hcores : T.maxCoresPerGroup < N.toNat
    · rw [primaryNode, if_pos hcores]
      exact ⟨fun _ => .inl (by omega), fun _ => .inl rfl⟩
    · have hT : 0 < T.nodes.length := by
        obtain ⟨l, m, rfl, -, -⟩ := hns.split (by omega)
        exact (Nat.zero_le m).trans_lt (hns.nodes.2 m (by simp))
      obtain ⟨i, hi, hmod, hprimary⟩ :=
        primaryNode_eq (Q := Q) hb.counted hT (j := a.jobid) (not_lt.1 hcores)
      rw [hprimary, ← hmod, ← htoNat, ← hns.getD_mem_iff hb.counted hi]
      constructor
      · rintro (h | ⟨n, hn, h⟩)
        · omega
        · rw [Int.natCast_inj.1 h]
          exact .inr (List.mem_toFinset.1 hn)
      · rintro (h | h)
        · omega
        · exact .inr ⟨_, List.mem_toFinset.2 h, rfl⟩

/-- Three nodes with one group of three CPUs each. -/
def threeNodes : Topology where
  maxOsCpu := 9
  maxCoresPerGroup := 3
  groups := [⟨0, [0, 1, 2]⟩, ⟨1, [3, 4, 5]⟩, ⟨2, [6, 7, 8]⟩]
  nodes := [⟨3, [0]⟩, ⟨3, [1]⟩, ⟨3, [2]⟩]
  maxOsCpu_le := by decide
  cpus_nodup := by decide
  cpus_lt := by decide
  cores_le := by decide
  nodeId_lt := by decide
  groupIds_nodup := by decide
  groupIds_lt := by decide
  mem_groupIds := by decide
  numCores_eq := by decide

/-- The jobs 1, 2 and 3 hold one CPU each, on three different nodes. -/
def oneEach : Bind :=
  (((cpuBindInit threeNodes).apply .insertion threeNodes (.alloc 1 1)).apply .insertion threeNodes
    (.alloc 2 1)).apply .insertion threeNodes (.alloc 3 1)

theorem oneEach_run : Run (fun b op b' => b' = apply .insertion threeNodes b op) Permitted
    (cpuBindInit threeNodes) oneEach ∧ oneEach.Ok threeNodes := by
  have h₀ := cpuBindInit_ok threeNodes
  have p₁ := h₀.permitted_alloc (j := 1) (N := 1) (by decide) (by decide)
  have h₁ := apply_ok .insertion h₀ p₁
  have p₂ := h₁.permitted_alloc (j := 2) (N := 1) (by decide) (by decide +kernel)
  have h₂ := apply_ok .insertion h₁ p₂
  have p₃ := h₂.permitted_alloc (j := 3) (N := 1) (by decide) (by decide +kernel)
  have h₃ := apply_ok .insertion h₂ p₃
  exact ⟨((Run.start.next p₁ rfl).next p₂ rfl).next p₃ rfl, h₃⟩

/-- The record of job 5, which asks for three CPUs. -/
def jobFive : CpuAlloc := { ptr := 3, jobid := 5, slots := 3 }

theorem jobFive_fresh : oneEach.Fresh jobFive :=
  ⟨by decide, fun c => oneEach_run.2.placed.owner_ne (by decide) (by decide +kernel) c, rfl, rfl⟩

/-- The same record after the call. -/
def jobFiveDone : CpuAlloc := (oneEach.cpuBindAlloc .insertion threeNodes jobFive 3).2

theorem jobFive_primary_iff :
    (jobFiveDone.primaryNode = -1 ∨
      ∃ n ∈ nodesOf threeNodes jobFiveDone.osCpus, jobFiveDone.primaryNode = n) ↔
      (∃ n < threeNodes.nodes.length, 3 ≤ oneEach.pool.nodeFree n) ∨
        threeNodes.maxCoresPerGroup < (3 : ℤ) ∨
        5 % (tied threeNodes oneEach.pool : ℤ) * mostFree threeNodes oneEach.pool < 3 :=
  cpuBindAlloc_primary_iff .insertion oneEach_run.2.consistent jobFive_fresh (by decide +kernel)

/-- Job 5 gets CPUs of the nodes 0 and 1, and its primary node is 2. -/
theorem jobFive_primary_outside :
    Run (fun b op b' => b' = apply .insertion threeNodes b op) Permitted
      (cpuBindInit threeNodes) oneEach ∧ oneEach.Fresh jobFive ∧
    jobFiveDone.error = false ∧ jobFiveDone.osCpus = [1, 2, 4] ∧
      ¬(jobFiveDone.primaryNode = -1 ∨
        ∃ n ∈ nodesOf threeNodes jobFiveDone.osCpus, jobFiveDone.primaryNode = n) := by
  refine ⟨oneEach_run.1, jobFive_fresh, by decide +kernel, by decide +kernel, ?_⟩
  have hprimary : jobFiveDone.primaryNode = 2 := by decide +kernel
  have hnodes : nodesOf threeNodes jobFiveDone.osCpus = {0, 1} := by decide +kernel
  rw [hprimary, hnodes]
  simp

end Bind

end CpuBind

end TaskSpooler
