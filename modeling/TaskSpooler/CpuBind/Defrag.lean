import TaskSpooler.CpuBind.Allocation

/-!
# What defragmentation does to the jobs

Results about `cpu_bind_defrag_start` in any state that the operations of the allocator reach.

* `cpuBindDefragStart_improves`: every job keeps the number of its CPUs, those of quality `0` keep
  their CPUs, and no quality gets worse,
* `cpuBindDefragStart_affinity_iff`: when every job whose CPUs lie on its primary node stays there.
-/

namespace TaskSpooler

namespace CpuBind

open Pool

namespace Bind

variable {T : Topology} {Q : Qsort} {b : Bind} {a : CpuAlloc}

/-- No live allocation has an error, and none left more than one group open. -/
def AllClean (b : Bind) : Prop := ∀ a ∈ b.allocs, Clean a

theorem defragLe_iff {x y : CpuAlloc} : defragLe x y = true ↔ x.quality < y.quality ∨
    x.quality = y.quality ∧ y.osCpus.length ≤ x.osCpus.length := by
  unfold defragLe
  split_ifs with h
  · rw [decide_eq_true_eq]
    omega
  · rw [decide_eq_true_eq]
    omega

theorem sorted_pairwise (Q : Qsort) (l : List CpuAlloc) :
    (Q.sort defragLe l).Pairwise fun x y => x.quality ≤ y.quality := by
  have h := Q.pairwise defragLe l (fun x y z => by simp only [defragLe_iff]; omega)
    (fun x y => by simp only [defragLe_iff]; omega)
  refine h.imp fun hxy => ?_
  rw [defragLe_iff] at hxy
  omega

theorem movedOf_quality (ha : a ∈ movedOf Q b) : a.quality ≠ 0 := by
  have hsorted : (Q.sort defragLe b.allocs).Pairwise fun x y =>
      decide (y.quality = 0) = true → decide (x.quality = 0) = true :=
    (sorted_pairwise Q b.allocs).imp fun hxy => by simp only [decide_eq_true_eq]; omega
  simpa using not_of_mem_dropWhile hsorted ha

theorem mem_kept_or_moved (Q : Qsort) (b : Bind) :
    a ∈ keptOf Q b ∨ a ∈ movedOf Q b ↔ a ∈ b.allocs := by
  rw [← List.mem_append, (kept_moved_perm Q b).mem_iff]

/-- The live allocations afterwards: those of quality `0` and the others, made again. -/
theorem cpuBindDefragStart_allocs (Q : Qsort) (h : b.Ok T) :
    (b.cpuBindDefragStart Q T).allocs.Perm b.allocs ∧
        (b.defragDisabled = true ∨ movedOf Q b = []) ∨
      ∃ out p₁ done p₂, b.defragDisabled = false ∧
        (b.cpuBindDefragStart Q T).allocs = keptOf Q b ++ done ∧
        SamePassed T (restore T (keptOf Q b)) (keptOf Q b) (movedOf Q b) out p₁ ∧
        MergePassed T p₁ (keptOf Q b) out done p₂ := by
  obtain ⟨hdis, heq⟩ | ⟨-, hmoved, heq⟩ | ⟨hdis, -, heq⟩ := cpuBindDefragStart_cases Q T b
  · exact .inl ⟨by rw [heq], .inl hdis⟩
  · refine .inl ⟨?_, .inr hmoved⟩
    rw [heq]
    exact Q.perm _ _
  · obtain ⟨-, out, p₁, done, p₂, hsame, hout, hmerge, hdone⟩ :=
      rebuild_spec Q b.hung (h.placed.perm (kept_moved_perm Q b).symm)
    refine .inr ⟨out, p₁, done, p₂, hdis, ?_, hout, hdone⟩
    rw [heq _ _ _ _ _ _ hsame hmerge]

theorem AllClean.defrag (Q : Qsort) (h : b.Ok T) (hc : b.AllClean) :
    (b.cpuBindDefragStart Q T).AllClean := by
  obtain ⟨hperm, -⟩ | ⟨out, p₁, done, p₂, -, hallocs, hout, hdone⟩ := cpuBindDefragStart_allocs Q h
  · exact fun a ha => hc a (hperm.subset ha)
  · intro a ha
    rw [hallocs, List.mem_append] at ha
    obtain ha | ha := ha
    · exact hc a ((mem_kept_or_moved Q b).1 (.inl ha))
    · exact hdone.clean hout.clean a ha

theorem apply_allClean (Q : Qsort) {op : Op} (h : b.Ok T) (hop : Permitted op b)
    (hc : b.AllClean) : (b.apply Q T op).AllClean := by
  cases op with
  | alloc j N =>
    obtain ⟨-, heq⟩ | ⟨-, a, cpus, -, -, -, -, -, -, herror, hquality, heq⟩ :=
      acquire_cases (N := N) Q h hop.1 (h.placed.jobid_notMem hop.2)
    · intro x hx
      rw [apply, heq] at hx
      exact hc x hx
    · intro x hx
      rw [apply, heq, List.mem_append, List.mem_singleton] at hx
      obtain hx | rfl := hx
      · exact hc x hx
      · exact ⟨herror, hquality⟩
  | free a => exact fun x hx => hc x (List.eraseP_sublist.subset hx)
  | defrag => exact hc.defrag Q h
  | setDisabled d => exact hc
  | setDefragDisabled d => exact hc

/-- In every history the allocator is consistent, and its allocations are clean. -/
theorem run_ok_clean (Q : Qsort)
    (h : Run (fun b op b' => b' = apply Q T b op) Permitted (cpuBindInit T) b) :
    b.Ok T ∧ b.AllClean := by
  refine h.invariant (I := fun b => b.Ok T ∧ b.AllClean)
    ⟨cpuBindInit_ok T, fun a ha => absurd ha List.not_mem_nil⟩ ?_
  rintro b _ op ⟨hok, hc⟩ hop rfl
  exact ⟨apply_ok Q hok hop, apply_allClean Q hok hop hc⟩

/-- **Defragmentation loses nothing and makes no job worse**: the live allocations are the same
ones with as many CPUs, none has an error, those of quality `0` are left alone, and the quality of
the others does not grow. -/
theorem cpuBindDefragStart_improves (Q : Qsort)
    (h : Run (fun b op b' => b' = apply Q T b op) Permitted (cpuBindInit T) b) :
    let b' := b.cpuBindDefragStart Q T
    (b'.allocs.map holding).Perm (b.allocs.map holding) ∧
      (∀ a' ∈ b'.allocs, a'.error = false) ∧
      (∀ a ∈ b.allocs, ∃ a' ∈ b'.allocs, holding a' = holding a ∧ a'.quality ≤ a.quality ∧
        (a.quality = 0 → a' = a)) ∧
      b'.Consistent T := by
  obtain ⟨hok, hc⟩ := run_ok_clean Q h
  obtain ⟨hok', hhold⟩ := cpuBindDefragStart_spec Q hok
  refine ⟨hhold, fun a' ha' => (hc.defrag Q hok a' ha').1, fun a ha => ?_, hok'.consistent⟩
  obtain ⟨hperm, -⟩ | ⟨out, p₁, done, p₂, -, hallocs, hout, hdone⟩ :=
    cpuBindDefragStart_allocs Q hok
  · exact ⟨a, hperm.mem_iff.2 ha, rfl, le_rfl, fun _ => rfl⟩
  · rw [hallocs]
    obtain ha | ha := (mem_kept_or_moved Q b).2 ha
    · exact ⟨a, List.mem_append_left _ ha, rfl, le_rfl, fun _ => rfl⟩
    · have hmem : holding a ∈ done.map holding := by
        rw [hdone.holding_eq, hout.holding_eq]
        exact List.mem_map_of_mem ha
      obtain ⟨a', ha', hhold'⟩ := List.mem_map.1 hmem
      -- a fragmented allocation has at least one open group
      have hquality := movedOf_quality ha
      have hclean := (hdone.clean hout.clean a' ha').2
      exact ⟨a', List.mem_append_right _ ha', hhold', by omega, fun h => absurd h hquality⟩

/-- One job holds three of the four CPUs, in two groups. -/
theorem twoNodes_defrag_improves :
    let b := (cpuBindInit twoNodes).apply .insertion twoNodes (.alloc 7 3)
    (b.cpuBindDefragStart .insertion twoNodes).Consistent twoNodes ∧
      ∀ a' ∈ (b.cpuBindDefragStart .insertion twoNodes).allocs, a'.error = false := by
  have hfree : Permitted (.alloc 7 3) (cpuBindInit twoNodes) :=
    ⟨by decide, fun c => by simp [cpuBindInit, fresh]⟩
  have h := cpuBindDefragStart_improves .insertion (Run.start.next hfree rfl)
  exact ⟨h.2.2.2, h.2.1⟩

/-! ### NUMA affinity -/

/-- The CPUs of each node that are left beside some allocations. -/
def roomBeside (T : Topology) (as : List CpuAlloc) (n : ℕ) : ℤ :=
  (T.node n).numCores -
    (as.map fun a => ((a.osCpus.filter fun c => T.OnNode n c).length : ℤ)).sum

variable {as : List CpuAlloc} {p : Pool} {room : ℕ → ℤ}

theorem Local.node_lt (h : Local T a) (hne : a.osCpus ≠ []) :
    a.primaryNode.toNat < T.nodes.length := by
  obtain ⟨c, hc⟩ := List.exists_mem_of_ne_nil _ hne
  obtain ⟨g, hg, -⟩ := h.2 c hc
  by_contra hlt
  rw [Topology.node, List.getD_eq_default _ _ (not_lt.1 hlt)] at hg
  exact absurd hg List.not_mem_nil

/-- The counters of the nodes when only some allocations are restored. -/
theorem nodeFree_restore {n : ℕ} (hn : n < T.nodes.length)
    (has : ∀ a ∈ as, ∀ c ∈ a.osCpus, ∃ g, c ∈ (T.group g).osCpus) :
    (restore T as).nodeFree n = roomBeside T as n := by
  have hstep : ∀ p : Pool,
      (as.foldl (fun p a => a.osCpus.foldl (occupy T a.jobid) p) p).nodeFree n = p.nodeFree n -
        (as.map fun a => ((a.osCpus.filter fun c => T.OnNode n c).length : ℤ)).sum := by
    induction as with
    | nil => simp
    | cons a as ih =>
      intro p
      rw [List.foldl_cons, ih fun x hx => has x (List.mem_cons_of_mem _ hx),
        nodeFree_foldl_occupy hn (has a List.mem_cons_self), List.map_cons, List.sum_cons]
      omega
  exact hstep _

/-- Two records at one address in the list are one. -/
theorem eq_of_ptr {l : List CpuAlloc} {a a' : CpuAlloc} (hnd : (l.map CpuAlloc.ptr).Nodup)
    (ha : a ∈ l) (ha' : a' ∈ l) (h : a.ptr = a'.ptr) : a = a' :=
  List.inj_on_of_nodup_map hnd ha ha' h

/-- Every local job stays on its node. -/
def KeepsAffinity (T : Topology) (b b' : Bind) : Prop :=
  ∀ a ∈ b.allocs, Local T a → ∀ a' ∈ b'.allocs, a'.ptr = a.ptr →
    ∀ c ∈ a'.osCpus, T.OnNode a.primaryNode.toNat c

/-- **When defragmentation preserves NUMA affinity**: it is disabled, or no local job among those
that are made again is turned away from its node by the ones before it. -/
theorem cpuBindDefragStart_affinity_iff (Q : Qsort)
    (h : Run (fun b op b' => b' = apply Q T b op) Permitted (cpuBindInit T) b) :
    KeepsAffinity T b (b.cpuBindDefragStart Q T) ↔
      b.defragDisabled = true ∨ NoneDisplaced T (roomBeside T (keptOf Q b)) (movedOf Q b) := by
  obtain ⟨hok, -⟩ := run_ok_clean Q h
  have hok' := (cpuBindDefragStart_spec Q hok).1
  have hsame : ∀ {a a' : CpuAlloc}, a ∈ (b.cpuBindDefragStart Q T).allocs →
      a' ∈ (b.cpuBindDefragStart Q T).allocs → a'.ptr = a.ptr → a' = a := fun ha ha' hptr =>
    eq_of_ptr hok'.ptr_nodup ha' ha hptr
  obtain ⟨hperm, hquiet⟩ | ⟨out, p₁, done, p₂, hdis, hallocs, hout, hdone⟩ :=
    cpuBindDefragStart_allocs Q hok
  · refine ⟨fun _ => hquiet.imp_right fun hnil => ?_, fun _ a ha hlocal a' ha' hptr => ?_⟩
    · rw [hnil, NoneDisplaced]
      trivial
    · rw [hsame (hperm.mem_iff.2 ha) ha' hptr]
      exact hlocal.2
  · have hknown : ∀ a ∈ keptOf Q b, ∀ c ∈ a.osCpus, ∃ g, c ∈ (T.group g).osCpus := fun a ha =>
      hok.placed.known a ((mem_kept_or_moved Q b).1 (.inl ha))
    rw [← noneDisplaced_congr fun n hn => nodeFree_restore hn hknown, hout.displaced]
    simp only [hdis, Bool.false_eq_true, false_or]
    have hmem : ∀ {a}, a ∈ done → a ∈ (b.cpuBindDefragStart Q T).allocs := fun ha => by
      rw [hallocs]
      exact List.mem_append_right _ ha
    constructor
    · -- an allocation that was skipped does not fit on its node any more
      intro hkeeps a ha hlocal
      have hab := (mem_kept_or_moved Q b).1 (.inr (hout.skipped_subset ha))
      obtain ⟨a', ha', hhold, q, hq, hav, hle⟩ := hdone.remade a ha
      have hptr : a'.ptr = a.ptr := congrArg Prod.fst hhold
      have hlen : a'.osCpus.length = a.osCpus.length := by
        simpa [holding] using congrArg (fun x : ℕ × ℤ × ℤ × ℕ => x.2.2.2) hhold
      have hlt := hlocal.node_lt (hok.placed.nonempty a hab)
      have hlt' : ∀ n ∈ [a.primaryNode.toNat], n < T.nodes.length := fun n hn =>
        List.mem_singleton.1 hn ▸ hlt
      have hroom := hav.length_le hq hlt' fun c hc =>
        ⟨_, List.mem_singleton_self _, hkeeps a hab hlocal a' (hmem ha') hptr c hc⟩
      refine hout.not_fits a ha ⟨hlocal.1, by omega, ?_⟩
      have := hle _ hlt
      simp only [List.map_cons, List.map_nil, List.sum_cons, List.sum_nil] at hroom
      omega
    · intro hnone a ha hlocal a' ha' hptr
      obtain ha | ha := (mem_kept_or_moved Q b).2 ha
      · rw [hsame (by rw [hallocs]; exact List.mem_append_left _ ha) ha' hptr]
        exact hlocal.2
      · obtain hskip | ⟨x, hx, hhold, hin⟩ := hout.stays a ha
        · exact absurd hlocal (hnone a hskip)
        · have hxptr : x.ptr = a.ptr := congrArg Prod.fst hhold
          rw [hsame (hmem (hdone.placed_subset hx)) ha' (hptr.trans hxptr.symm)]
          exact hin

/-- Two nodes with one group of four CPUs each. -/
def twoQuads : Topology where
  maxOsCpu := 8
  maxCoresPerGroup := 4
  groups := [⟨0, [0, 1, 2, 3]⟩, ⟨1, [4, 5, 6, 7]⟩]
  nodes := [⟨4, [0]⟩, ⟨4, [1]⟩]
  maxOsCpu_le := by decide
  cpus_nodup := by decide
  cpus_lt := by decide
  cores_le := by decide
  nodeId_lt := by decide
  groupIds_nodup := by decide
  groupIds_lt := by decide
  mem_groupIds := by decide
  numCores_eq := by decide

/-- The jobs 1 and 2 hold two CPUs each, on different nodes, and job 3 holds three on both. -/
def crowded : Bind :=
  (((cpuBindInit twoQuads).apply .insertion twoQuads (.alloc 1 2)).apply .insertion twoQuads
    (.alloc 2 2)).apply .insertion twoQuads (.alloc 3 3)

theorem crowded_run : Run (fun b op b' => b' = apply .insertion twoQuads b op) Permitted
    (cpuBindInit twoQuads) crowded := by
  have h₀ := cpuBindInit_ok twoQuads
  have p₁ := h₀.permitted_alloc (j := 1) (N := 2) (by decide) (by decide)
  have h₁ := apply_ok .insertion h₀ p₁
  have p₂ := h₁.permitted_alloc (j := 2) (N := 2) (by decide) (by decide +kernel)
  have h₂ := apply_ok .insertion h₁ p₂
  have p₃ := h₂.permitted_alloc (j := 3) (N := 3) (by decide) (by decide +kernel)
  exact ((Run.start.next p₁ rfl).next p₂ rfl).next p₃ rfl

theorem crowded_affinity_iff :
    KeepsAffinity twoQuads crowded (crowded.cpuBindDefragStart .insertion twoQuads) ↔
      crowded.defragDisabled = true ∨ NoneDisplaced twoQuads
        (roomBeside twoQuads (keptOf .insertion crowded)) (movedOf .insertion crowded) :=
  cpuBindDefragStart_affinity_iff .insertion crowded_run

/-- Job 3 is made again on node 1, and job 2 has to leave it. -/
theorem crowded_displaced :
    Run (fun b op b' => b' = apply .insertion twoQuads b op) Permitted (cpuBindInit twoQuads)
      crowded ∧
    (crowded.allocs.map fun a => (a.jobid, a.primaryNode, a.osCpus)) =
      [(1, 0, [0, 1]), (2, 1, [4, 5]), (3, 1, [2, 3, 6])] ∧
    ((crowded.cpuBindDefragStart .insertion twoQuads).allocs.map fun a => (a.jobid, a.osCpus)) =
      [(3, [4, 5, 6]), (1, [0, 1]), (2, [2, 3])] ∧
    ¬KeepsAffinity twoQuads crowded (crowded.cpuBindDefragStart .insertion twoQuads) := by
  refine ⟨crowded_run, by decide +kernel, by decide +kernel, ?_⟩
  unfold KeepsAffinity
  decide +kernel

end Bind

end CpuBind

end TaskSpooler
