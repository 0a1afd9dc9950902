import TaskSpooler.CpuBind.Loops

/-!
# The nodes an allocation is placed on

`cpu_bind_alloc` puts a job on one node if it can, and otherwise collects the largest nodes until
they suffice.  `Path` says which nodes it picks; `allocCpus_spec` is the main result: exactly `N`
free CPUs of these nodes are handed out, and `mem_nodes` is their bitmap.
-/

namespace TaskSpooler

namespace CpuBind

open Pool

variable {T : Topology} {p : Pool} {j : ℤ} {n N : ℕ} {cpus : List ℕ} {a : CpuAlloc}

/-- The CPU lies on the node. -/
def Topology.OnNode (T : Topology) (n c : ℕ) : Prop :=
  ∃ g ∈ (T.node n).groupIds, c ∈ (T.group g).osCpus

instance (T : Topology) (n c : ℕ) : Decidable (T.OnNode n c) :=
  inferInstanceAs (Decidable (∃ g ∈ (T.node n).groupIds, c ∈ (T.group g).osCpus))

theorem Topology.onNode_iff {g c : ℕ} (hn : n < T.nodes.length) (hc : c ∈ (T.group g).osCpus) :
    T.OnNode n c ↔ (T.group g).nodeId = n := by
  constructor
  · rintro ⟨g', hg', hcg'⟩
    rw [mem_group_unique hc hcg']
    exact ((mem_node_iff hn).1 hg').2
  · intro h
    exact ⟨g, (mem_node_iff hn).2 ⟨lt_of_mem_group hc, h⟩, hc⟩

theorem onNode_unique {n' c : ℕ} (hn : n < T.nodes.length) (hn' : n' < T.nodes.length)
    (h : T.OnNode n c) (h' : T.OnNode n' c) : n = n' := by
  obtain ⟨g, -, hcg⟩ := id h
  rw [← (Topology.onNode_iff hn hcg).1 h, (Topology.onNode_iff hn' hcg).1 h']

/-- A node counter loses the CPUs of its node that are handed out. -/
theorem nodeFree_foldl_occupy (hn : n < T.nodes.length)
    (hin : ∀ c ∈ cpus, ∃ g, c ∈ (T.group g).osCpus) :
    (cpus.foldl (occupy T j) p).nodeFree n =
      p.nodeFree n - (cpus.filter fun c => T.OnNode n c).length := by
  induction cpus generalizing p with
  | nil => simp
  | cons c cpus ih =>
    obtain ⟨g, hg⟩ := hin c List.mem_cons_self
    rw [List.foldl_cons, ih fun x hx => hin x (List.mem_cons_of_mem _ hx)]
    have hiff := Topology.onNode_iff hn hg
    simp only [occupy, Topology.cpuToGroup_eq hg, addFree, setOwner]
    by_cases hng : (T.group g).nodeId = n
    · rw [List.filter_cons_of_pos (by simpa using hiff.2 hng), hng, Function.update_self,
        List.length_cons]
      omega
    · rw [List.filter_cons_of_neg (by simpa using fun h => hng (hiff.1 h)),
        Function.update_of_ne (Ne.symm hng)]

/-- A set of nodes as `mem_nodes` represents it. -/
def bitmapOf (ns : List ℕ) : ℕ := ns.foldl (fun bitmap n => bitmap ||| 1 <<< n) 0

/-- The nodes that `cross_node_merge` collects: a first part of the order that has `N` free CPUs,
and no shorter one has. -/
structure Collected (free : ℕ → ℤ) (N : ℤ) (order ns : List ℕ) : Prop where
  isPrefix : ns <+: order
  enough : N ≤ (ns.map free).sum
  short : ∀ l n, ns = l ++ [n] → (l.map free).sum < N

/-- `cross_node_merge` collects the groups of a first part of the nodes: all of them, or just
enough. -/
theorem collectNodes_eq (free : ℕ → ℤ) (N : ℤ) (order : List ℕ) (total : ℤ) (ids : List ℕ)
    (bitmap : ℕ) : ∃ ns, ns <+: order ∧ (N ≤ total + (ns.map free).sum ∨ ns = order) ∧
      (∀ l n, ns = l ++ [n] → total + (l.map free).sum < N) ∧
      collectNodes T free N order (total, ids, bitmap) =
        (total + (ns.map free).sum, ids ++ ns.flatMap fun n => (T.node n).groupIds,
          ns.foldl (fun bitmap n => bitmap ||| 1 <<< n) bitmap) := by
  induction order generalizing total ids bitmap with
  | nil => exact ⟨[], List.prefix_rfl, .inr rfl, by simp, by simp [collectNodes]⟩
  | cons n order ih =>
    by_cases hlt : total < N
    · obtain ⟨ns, hpre, henough, hshort, heq⟩ :=
        ih (total + free n) (ids ++ (T.node n).groupIds) (bitmap ||| 1 <<< n)
      refine ⟨n :: ns, List.cons_prefix_cons.2 ⟨rfl, hpre⟩, ?_, ?_, ?_⟩
      · simpa [add_assoc] using henough
      · intro l m hl
        cases l with
        | nil => simpa using hlt
        | cons x l =>
          obtain ⟨rfl, hl'⟩ := List.cons.inj hl
          simpa [add_assoc] using hshort l m hl'
      · simp [collectNodes, hlt, heq, add_assoc]
    · exact ⟨[], List.nil_prefix, .inl (by simpa using hlt), by simp, by simp [collectNodes, hlt]⟩

/-- Groups collected from distinct nodes are distinct, and have the free CPUs of the nodes. -/
theorem collected_groups {ns : List ℕ} (hp : p.Counted T) (hnd : ns.Nodup)
    (hlt : ∀ n ∈ ns, n < T.nodes.length) :
    (ns.flatMap fun n => (T.node n).groupIds).Nodup ∧
      (∀ g ∈ ns.flatMap fun n => (T.node n).groupIds, g < T.groups.length) ∧
      ((ns.flatMap fun n => (T.node n).groupIds).map p.groupFree).sum =
        (ns.map p.nodeFree).sum := by
  refine ⟨List.nodup_flatMap.2 ⟨fun n hn => Topology.node_groupIds_nodup (hlt n hn), ?_⟩, ?_, ?_⟩
  · refine hnd.imp_of_mem fun {n n'} hn hn' hne g hg hg' => hne ?_
    rw [← ((Topology.mem_node_iff (hlt n hn)).1 hg).2, ((Topology.mem_node_iff (hlt n' hn')).1 hg').2]
  · intro g hg
    obtain ⟨n, hn, hgn⟩ := List.mem_flatMap.1 hg
    exact ((Topology.mem_node_iff (hlt n hn)).1 hgn).1
  · induction ns with
    | nil => rfl
    | cons n ns ih =>
      rw [List.nodup_cons] at hnd
      rw [List.flatMap_cons, List.map_append, List.sum_append, List.map_cons, List.sum_cons,
        ih hnd.2 fun n hn => hlt n (by simp [hn]), hp.nodeFree_eq n (hlt n (by simp))]

theorem nodeOrder_perm (Q : Qsort) : (nodeOrder Q T p).Perm (List.range T.nodes.length) :=
  Q.perm _ _

theorem Collected.nodes {Q : Qsort} {ns : List ℕ} (h : Collected p.nodeFree N (nodeOrder Q T p) ns) :
    ns.Nodup ∧ ∀ n ∈ ns, n < T.nodes.length := by
  have hperm : (nodeOrder Q T p).Perm (List.range T.nodes.length) := nodeOrder_perm Q
  exact ⟨h.isPrefix.sublist.nodup (hperm.nodup_iff.2 List.nodup_range), fun n hn =>
    List.mem_range.1 (hperm.mem_iff.1 (h.isPrefix.subset hn))⟩

/-- **`cross_node_merge` hands out exactly `N` CPUs**, if the machine has `N` free ones. -/
theorem crossNodeMerge_spec (Q : Qsort) (hj : a.jobid ≠ 0) (hp : p.Counted T) (hpos : 0 < N)
    (hN : (N : ℤ) ≤ Bind.totalFree T p) :
    ∃ ns cpus q, Collected p.nodeFree N (nodeOrder Q T p) ns ∧ Available T p cpus ∧
      cpus.length = N ∧ (∀ c ∈ cpus, ∃ n ∈ ns, T.OnNode n c) ∧ q ≤ a.quality + 1 ∧
      crossNodeMerge Q T N p a =
        { pool := cpus.foldl (occupy T a.jobid) p
          alloc := { a with
            primaryNode := primaryNode T N p a.jobid (nodeOrder Q T p), memNodes := bitmapOf ns
            osCpus := a.osCpus ++ cpus, quality := q } } := by
  obtain ⟨ns, hpre, henough, hshort, heq⟩ :=
    collectNodes_eq (T := T) p.nodeFree N (nodeOrder Q T p) 0 [] 0
  simp only [zero_add, List.nil_append] at henough hshort heq
  have hsum : (N : ℤ) ≤ (ns.map p.nodeFree).sum := by
    obtain h | rfl := henough
    · exact h
    · rw [((nodeOrder_perm Q).map p.nodeFree).sum_eq]
      exact hN
  have hcollected : Collected p.nodeFree N (nodeOrder Q T p) ns := ⟨hpre, hsum, hshort⟩
  obtain ⟨hnd, hlt⟩ := hcollected.nodes
  obtain ⟨hidsNd, hidsLt, hidsSum⟩ := collected_groups hp hnd hlt
  rw [← hidsSum] at hsum
  have hids : (ns.flatMap fun n => (T.node n).groupIds) ≠ [] := by
    intro hnil
    rw [hnil, List.map_nil, List.sum_nil] at hsum
    omega
  obtain ⟨cpus, q, hav, hlen, hin, hq, halloc⟩ := allocFromGroups_spec (N := N) (a := { a with
    primaryNode := primaryNode T N p a.jobid (nodeOrder Q T p), memNodes := bitmapOf ns })
    hidsLt hidsNd hj hp hpos hsum
  refine ⟨ns, cpus, q, hcollected, hav, hlen, fun c hc => ?_, hq, ?_⟩
  · obtain ⟨g, hg, hcg⟩ := hin c hc
    obtain ⟨n, hn, hgn⟩ := List.mem_flatMap.1 hg
    exact ⟨n, hn, g, hgn, hcg⟩
  · simp only [crossNodeMerge, heq, if_neg hids]
    exact halloc

/-- The preferred node has room and the most free CPUs; without one, no node has room. -/
theorem bestNode_spec (hpos : 0 < N) : match bestNode T N p with
    | some n => n < T.nodes.length ∧ (N : ℤ) ≤ p.nodeFree n ∧
        ∀ x < T.nodes.length, p.nodeFree x ≤ p.nodeFree n
    | none => ∀ x < T.nodes.length, p.nodeFree x < N := by
  have hspec := maxFree_spec (fun n => if (N : ℤ) ≤ p.nodeFree n then p.nodeFree n else 0)
    (List.range T.nodes.length)
  rw [← bestNode] at hspec
  cases hb : bestNode T N p with
  | none =>
    simp only [hb] at hspec ⊢
    intro x hx
    have := hspec x (List.mem_range.2 hx)
    split_ifs at this <;> omega
  | some n =>
    simp only [hb] at hspec ⊢
    obtain ⟨⟨hmem, hlt⟩, hmost⟩ := hspec
    split_ifs at hlt with hle
    · refine ⟨List.mem_range.1 hmem, hle, fun x hx => ?_⟩
      have := hmost x (List.mem_range.2 hx)
      rw [if_pos hle] at this
      split_ifs at this <;> omega
    · omega

/-- Allocation on one node whose counter shows enough free CPUs. -/
theorem allocNode_spec (hj : a.jobid ≠ 0) (hp : p.Counted T) (hn : n < T.nodes.length)
    (hpos : 0 < N) (hN : (N : ℤ) ≤ p.nodeFree n) :
    ∃ cpus q, Available T p cpus ∧ cpus.length = N ∧ (∀ c ∈ cpus, T.OnNode n c) ∧
      q ≤ a.quality + 1 ∧
      allocFromGroups T N (T.node n).groupIds p a =
        { pool := cpus.foldl (occupy T a.jobid) p
          alloc := { a with osCpus := a.osCpus ++ cpus, quality := q } } := by
  refine allocFromGroups_spec (fun g hg => ((Topology.mem_node_iff hn).1 hg).1)
    (Topology.node_groupIds_nodup hn) hj hp hpos ?_
  rw [← hp.nodeFree_eq n hn]
  exact hN

/-- The nodes `cpu_bind_alloc` picks for a job, and the primary one. -/
inductive Path (Q : Qsort) (T : Topology) (N : ℕ) (p : Pool) (jobid : ℤ) : List ℕ → ℤ → Prop
  /-- One node with room, the one with the most free CPUs. -/
  | single {n : ℕ} (hn : n < T.nodes.length) (hroom : (N : ℤ) ≤ p.nodeFree n)
      (hmost : ∀ x < T.nodes.length, p.nodeFree x ≤ p.nodeFree n) : Path Q T N p jobid [n] n
  /-- No node has room: the largest ones together. -/
  | merge {ns : List ℕ} (hfull : ∀ n < T.nodes.length, p.nodeFree n < N)
      (hns : Collected p.nodeFree N (nodeOrder Q T p) ns) :
      Path Q T N p jobid ns (primaryNode T N p jobid (nodeOrder Q T p))

/-- **The allocation path of `cpu_bind_alloc` hands out exactly `N` CPUs** of the nodes it picks,
if the machine has `N` free ones. -/
theorem allocCpus_spec (Q : Qsort) (hj : a.jobid ≠ 0) (hp : p.Counted T) (hpos : 0 < N)
    (hN : (N : ℤ) ≤ Bind.totalFree T p) :
    ∃ ns pn cpus q, Path Q T N p a.jobid ns pn ∧ Available T p cpus ∧ cpus.length = N ∧
      (∀ c ∈ cpus, ∃ n ∈ ns, T.OnNode n c) ∧ q ≤ a.quality + 1 ∧
      allocCpus Q T N p a =
        { pool := cpus.foldl (occupy T a.jobid) p
          alloc := { a with
            primaryNode := pn, memNodes := bitmapOf ns, osCpus := a.osCpus ++ cpus
            quality := q } } := by
  have hbest := bestNode_spec (T := T) (p := p) hpos
  unfold allocCpus
  cases hb : bestNode T N p with
  | some n =>
    simp only [hb] at hbest
    obtain ⟨hn, hroom, hmost⟩ := hbest
    obtain ⟨cpus, q, hav, hlen, hin, hq, halloc⟩ := allocNode_spec (a := a) hj hp hn hpos hroom
    refine ⟨[n], n, cpus, q, .single hn hroom hmost, hav, hlen,
      fun c hc => ⟨n, List.mem_singleton_self n, hin c hc⟩, hq, ?_⟩
    simp only [halloc, bitmapOf, List.foldl_cons, List.foldl_nil, Nat.zero_or]
  | none =>
    simp only [hb] at hbest
    obtain ⟨ns, cpus, q, hns, hav, hlen, hin, hq, halloc⟩ := crossNodeMerge_spec Q hj hp hpos hN
    exact ⟨ns, _, cpus, q, .merge hbest hns, hav, hlen, hin, hq, halloc⟩

namespace Bind

/-- **`cpu_bind_alloc` of a record without CPUs**, with binding enabled and enough free CPUs: it
returns the CPUs in order, and its checks find nothing. -/
theorem cpuBindAlloc_spec {b : Bind} {N : ℤ} (Q : Qsort) (hj : a.jobid ≠ 0)
    (hidle : ∀ c, b.pool.owner c ≠ a.jobid) (hp : b.pool.Counted T) (hdis : b.disabled = false)
    (hpos : 0 < N) (hN : N ≤ totalFree T b.pool) :
    ∃ ns pn cpus q, Path Q T N.toNat b.pool a.jobid ns pn ∧ Available T b.pool cpus ∧
      (cpus.length : ℤ) = N ∧ (∀ c ∈ cpus, ∃ n ∈ ns, T.OnNode n c) ∧ q ≤ a.quality + 1 ∧
      let a' := { a with
        primaryNode := pn, memNodes := bitmapOf ns, osCpus := Q.sort (fun x y => x ≤ y) cpus
        quality := q }
      b.cpuBindAlloc Q T a N =
        (store { b with pool := cpus.foldl (occupy T a.jobid) b.pool } a', a') := by
  have hfail : ¬(b.disabled = true ∨ N ≤ 0 ∨ totalFree T b.pool < N) := by
    simp only [hdis, Bool.false_eq_true, false_or]
    omega
  obtain ⟨ns, pn, cpus, q, hpath, hav, hlen, hin, hq, halloc⟩ := allocCpus_spec
    (a := { a with osCpus := [] }) (N := N.toNat) Q hj hp (by omega) (by omega)
  have hlt : ∀ c ∈ cpus, c < T.maxOsCpu := by
    intro c hc
    obtain ⟨g, hg⟩ := hav.known c hc
    exact Topology.cpu_lt hg
  have hpost := cpuBindPostAlloc_eq (p := cpus.foldl (occupy T a.jobid) b.pool)
    (a := { a with primaryNode := pn, memNodes := bitmapOf ns, osCpus := cpus, quality := q })
    Q hav.nodup hlt fun c => by
      rw [foldl_occupy_owner]
      split_ifs with hc
      · simp [hc]
      · simp [hc, hidle c]
  refine ⟨ns, pn, cpus, q, hpath, hav, by omega, hin, hq, ?_⟩
  simp only [cpuBindAlloc, hfail, if_false, halloc, List.nil_append, hpost, Bool.or_false]

theorem cpuBindAlloc_failed {b : Bind} {N : ℤ} {Q : Qsort}
    (h : b.disabled = true ∨ N ≤ 0 ∨ totalFree T b.pool < N) :
    b.cpuBindAlloc Q T a N = (b.store { a with error := true }, { a with error := true }) :=
  if_pos h

end Bind

end CpuBind

end TaskSpooler
