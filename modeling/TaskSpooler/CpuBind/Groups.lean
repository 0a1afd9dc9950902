import TaskSpooler.CpuBind.Histories
import Mathlib.Data.Finset.Card

/-!
# Few groups, and one of them open

`alloc_from_groups` keeps the caches of the machine apart.  `Frugal` says how well: the CPUs come
from as few groups as possible, at most one of these groups is left with free CPUs, and it is the
smallest one that could hold what was taken from it.  `allocFromGroups_optimal` is the main
result.  It also gives the meaning of `quality`: the number of groups left open, which is `0`
or `1` after one allocation.
-/

namespace TaskSpooler

namespace CpuBind

open Pool

variable {T : Topology} {p : Pool} {j : ℤ} {g N : ℕ} {ids cpus : List ℕ} {a : CpuAlloc}

/-- The groups among `ids` that some of the CPUs are from. -/
def groupsOf (T : Topology) (ids cpus : List ℕ) : Finset ℕ :=
  ids.toFinset.filter fun g => ∃ c ∈ cpus, c ∈ (T.group g).osCpus

/-- The CPUs `cpus`, which the step from `p` to `p'` takes from the groups `ids`, are well
chosen. -/
structure Frugal (T : Topology) (ids : List ℕ) (p p' : Pool) (cpus : List ℕ) : Prop where
  /-- Fewer groups do not hold as many free CPUs. -/
  fewest : ∀ S ⊆ ids.toFinset, (cpus.length : ℤ) ≤ ∑ g ∈ S, p.groupFree g →
    (groupsOf T ids cpus).card ≤ S.card
  /-- At most one of the groups is left with free CPUs. -/
  one_open : ∀ g ∈ groupsOf T ids cpus, ∀ g' ∈ groupsOf T ids cpus,
    0 < p'.groupFree g → 0 < p'.groupFree g' → g = g'
  /-- It was the smallest group for what was taken from it. -/
  best_fit : ∀ g ∈ groupsOf T ids cpus, 0 < p'.groupFree g → ∀ x ∈ ids,
    p.groupFree g - p'.groupFree g ≤ p.groupFree x → p.groupFree g ≤ p.groupFree x

theorem mem_groupsOf : g ∈ groupsOf T ids cpus ↔ g ∈ ids ∧ ∃ c ∈ cpus, c ∈ (T.group g).osCpus := by
  simp [groupsOf]

section Chosen

variable {full : List ℕ} {r last rest : ℕ}

/-- The groups the CPUs come from are those that were drained, and the last one. -/
theorem Choice.groupsOf_eq (hp : Tallied T ids p) (h : Choice p.groupFree ids r full last rest) :
    groupsOf T ids (chosenCpus T p full last rest) = insert last full.toFinset := by
  ext g
  rw [mem_groupsOf, Finset.mem_insert, List.mem_toFinset]
  constructor
  · rintro ⟨-, c, hc, hcg⟩
    obtain ⟨x, hx, hcx⟩ | hc := mem_chosenCpus.1 hc
    · exact .inr (Topology.mem_group_unique hcg (List.mem_of_mem_filter hcx) ▸ hx)
    · exact .inl (Topology.mem_group_unique hcg (mem_firstFree hc).1)
  · rintro (rfl | hg)
    · have hlen := length_firstFree (N := rest) hp h.last_mem
      have h₁ := h.rest_pos
      have h₂ := h.rest_le
      obtain ⟨c, hc⟩ := List.exists_mem_of_length_pos (l := firstFree T g rest p) (by omega)
      exact ⟨h.last_mem, c, mem_chosenCpus.2 (.inr hc), (mem_firstFree hc).1⟩
    · have hlen := length_freeOf hp (h.subset hg)
      have hpos := h.pos g hg
      obtain ⟨c, hc⟩ := List.exists_mem_of_length_pos (l := freeOf T p g) (by omega)
      exact ⟨h.subset hg, c, mem_chosenCpus.2 (.inl ⟨g, hg, hc⟩), List.mem_of_mem_filter hc⟩

/-- The counters afterwards: the groups in `full` have nothing left. -/
theorem Choice.groupFree_full (hj : j ≠ 0) (hp : Tallied T ids p)
    (h : Choice p.groupFree ids r full last rest) (hg : g ∈ full) :
    ((chosenCpus T p full last rest).foldl (occupy T j) p).groupFree g = 0 := by
  have hav := (h.available hp).1
  rw [hp.foldl_occupy hj hav.nodup hav.free g (h.subset hg), freeIn, Nat.cast_eq_zero,
    List.countP_eq_zero]
  intro c hc
  rw [foldl_occupy_owner, decide_eq_true_eq]
  split_ifs with hmem
  · exact hj
  · intro hfree
    refine hmem (mem_chosenCpus.2 (.inl ⟨g, hg, ?_⟩))
    simpa [freeOf] using ⟨hc, hfree⟩

/-- The last group loses the rest. -/
theorem Choice.groupFree_last (hj : j ≠ 0) (hp : Tallied T ids p)
    (h : Choice p.groupFree ids r full last rest) :
    ((chosenCpus T p full last rest).foldl (occupy T j) p).groupFree last =
      p.groupFree last - rest := by
  have hav := (h.available hp).1
  have hlen := length_firstFree (N := rest) hp h.last_mem
  have hle := h.rest_le
  rw [hp.foldl_occupy hj hav.nodup hav.free last h.last_mem, hp last h.last_mem, chosenCpus,
    List.foldl_append]
  set q := (full.flatMap (freeOf T p)).foldl (occupy T j) p with hq
  -- the groups drained before do not matter
  have hsame : ∀ c ∈ (T.group last).osCpus, q.owner c = p.owner c := by
    intro c hc
    rw [hq, foldl_occupy_owner, if_neg]
    intro hmem
    obtain ⟨x, hx, hcx⟩ := List.mem_flatMap.1 hmem
    exact h.last_notMem (Topology.mem_group_unique hc (List.mem_of_mem_filter hcx) ▸ hx)
  have hcount : freeIn q.owner (T.group last).osCpus = freeIn p.owner (T.group last).osCpus :=
    List.countP_congr fun c hc => by rw [hsame c hc]
  have htaken := freeIn_foldl_occupy (T := T) (p := q) hj
    (firstFree_available (T := T) (g := last) (N := rest) (p := p)).nodup (T.osCpus_nodup last)
    (fun c hc => (hsame c (mem_firstFree hc).1).trans (mem_firstFree hc).2)
    fun c hc => (mem_firstFree hc).1
  have hfree := hp last h.last_mem
  omega

/-- **A choice is frugal.** -/
theorem Choice.frugal (hj : j ≠ 0) (hp : Tallied T ids p)
    (h : Choice p.groupFree ids r full last rest) :
    Frugal T ids p ((chosenCpus T p full last rest).foldl (occupy T j) p)
      (chosenCpus T p full last rest) := by
  have hopen : ∀ g ∈ groupsOf T ids (chosenCpus T p full last rest),
      0 < ((chosenCpus T p full last rest).foldl (occupy T j) p).groupFree g → g = last := by
    intro g hg hpos
    rw [h.groupsOf_eq hp, Finset.mem_insert, List.mem_toFinset] at hg
    obtain rfl | hg := hg
    · rfl
    · exact absurd hpos (h.groupFree_full hj hp hg).not_gt
  refine ⟨fun S hS hsum => ?_, fun g hg g' hg' hpos hpos' => ?_, fun g hg hpos x hx hle => ?_⟩
  · have hnot : last ∉ full.toFinset := by simpa using h.last_notMem
    rw [h.groupsOf_eq hp, Finset.card_insert_of_notMem hnot]
    refine card_lt_of_largest (fun g hg => (h.pos g (List.mem_toFinset.1 hg)).le) ?_ ?_ hsum
    · intro g hg x hx hxf
      exact h.largest g (List.mem_toFinset.1 hg) x (List.mem_toFinset.1 (hS hx))
        fun hmem => hxf (List.mem_toFinset.2 hmem)
    · have h₁ : (full.map fun g => p.groupFree g).sum + rest = r := h.sum
      have h₂ := h.rest_pos
      rw [(h.available hp).2, List.sum_toFinset _ h.nodup]
      omega
  · exact (hopen g hg hpos).trans (hopen g' hg' hpos').symm
  · obtain rfl := hopen g hg hpos
    rw [h.groupFree_last hj hp, sub_sub_cancel] at hle
    by_cases hxf : x ∈ full
    · exact h.largest x hxf g h.last_mem h.last_notMem
    · exact h.least x hx hxf hle

theorem Choice.open_iff (hj : j ≠ 0) (hp : Tallied T ids p)
    (h : Choice p.groupFree ids r full last rest) :
    (∃ g ∈ groupsOf T ids (chosenCpus T p full last rest),
      0 < ((chosenCpus T p full last rest).foldl (occupy T j) p).groupFree g) ↔
      (rest : ℤ) < p.groupFree last := by
  have hlast := h.groupFree_last hj hp
  rw [h.groupsOf_eq hp]
  constructor
  · rintro ⟨g, hg, hpos⟩
    rw [Finset.mem_insert, List.mem_toFinset] at hg
    obtain rfl | hg := hg
    · omega
    · exact absurd hpos (h.groupFree_full hj hp hg).not_gt
  · intro hlt
    exact ⟨last, Finset.mem_insert_self _ _, by omega⟩

end Chosen

/-- **`alloc_from_groups` takes `N` CPUs from as few groups as possible**, leaves at most one of
them open, which was the smallest one for it, and adds `1` to the quality if there is one. -/
theorem allocFromGroups_optimal (hnd : ids.Nodup) (hj : 0 < a.jobid) (hp : Tallied T ids p)
    (hN : 1 ≤ N) (hsum : (N : ℤ) ≤ (ids.map p.groupFree).sum) :
    ∃ cpus, cpus.Nodup ∧ cpus.length = N ∧
      (∀ c ∈ cpus, p.owner c = 0 ∧ ∃ g ∈ ids, c ∈ (T.group g).osCpus) ∧
      let o := allocFromGroups T N ids p a
      o.hung = false ∧ o.alloc.error = a.error ∧ o.alloc.osCpus = a.osCpus ++ cpus ∧
      (∀ c, o.pool.owner c = if c ∈ cpus then a.jobid else p.owner c) ∧
      Tallied T ids o.pool ∧ Frugal T ids p o.pool cpus ∧
      o.alloc.quality = a.quality +
        if ∃ g ∈ groupsOf T ids cpus, 0 < o.pool.groupFree g then 1 else 0 := by
  obtain ⟨full, last, rest, hchoice, heq⟩ := allocLoop_choice hnd hj.ne' N N hN le_rfl hp hsum
  obtain ⟨hav, hlen⟩ := hchoice.available hp
  refine ⟨chosenCpus T p full last rest, hav.nodup, hlen,
    fun c hc => ⟨hav.free c hc, hchoice.mem_groups hc⟩, ?_⟩
  rw [show allocFromGroups T N ids p a = _ from heq]
  refine ⟨rfl, rfl, rfl, foldl_occupy_owner, hp.foldl_occupy hj.ne' hav.nodup hav.free,
    hchoice.frugal hj.ne' hp, ?_⟩
  exact congrArg _ (if_congr (hchoice.open_iff hj.ne' hp).symm rfl rfl)

/-- Three CPUs out of two groups of two: one group is drained and the other left open. -/
theorem allocFromGroups_optimal_twoNodes :
    ∃ cpus : List ℕ, cpus.length = 3 ∧
      let o := allocFromGroups Bind.twoNodes 3 [0, 1] (fresh Bind.twoNodes)
        { ptr := 0, jobid := 7, slots := 3 }
      o.alloc.osCpus = cpus ∧ o.alloc.quality = 1 ∧
      Frugal Bind.twoNodes [0, 1] (fresh Bind.twoNodes) o.pool cpus := by
  have hp : Tallied Bind.twoNodes [0, 1] (fresh Bind.twoNodes) :=
    (counted_fresh Bind.twoNodes).tallied (by decide)
  obtain ⟨cpus, -, hlen, -, -, -, hcpus, -, -, hfrugal, -⟩ :=
    allocFromGroups_optimal (N := 3) (a := { ptr := 0, jobid := 7, slots := 3 })
      (by decide) (by decide) hp (by decide) (by decide)
  exact ⟨cpus, hlen, hcpus, by decide, hfrugal⟩

end CpuBind

end TaskSpooler
