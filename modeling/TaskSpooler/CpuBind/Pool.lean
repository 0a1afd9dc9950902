import TaskSpooler.CpuBind.Basic
import TaskSpooler.Lib.Count
import Mathlib.Data.List.GetD
import Mathlib.Algebra.BigOperators.Ring.Finset
import Mathlib.Algebra.Order.BigOperators.Group.List
import Mathlib.Data.List.Flatten

/-!
# The owner array and its free counters

`Pool.Counted` says that the two levels of `free_count` agree with the owner array.  Handing out
one free CPU and taking back one owned CPU keep it, and so do whole lists of such steps
(`Counted.foldl_occupy`, `Counted.foldl_release`).
-/

namespace TaskSpooler

namespace CpuBind

namespace Topology

variable {T : Topology} {c g g' n : ℕ}

theorem group_mem (h : g < T.groups.length) : T.group g ∈ T.groups := by
  unfold group
  rw [List.getD_eq_getElem _ _ h]
  exact List.getElem_mem h

theorem node_mem (h : n < T.nodes.length) : T.node n ∈ T.nodes := by
  unfold node
  rw [List.getD_eq_getElem _ _ h]
  exact List.getElem_mem h

theorem lt_of_mem_group (h : c ∈ (T.group g).osCpus) : g < T.groups.length := by
  by_contra hlt
  unfold group at h
  rw [List.getD_eq_default _ _ (not_lt.1 hlt)] at h
  exact absurd h List.not_mem_nil

theorem osCpus_nodup (T : Topology) (g : ℕ) : (T.group g).osCpus.Nodup := by
  by_cases h : g < T.groups.length
  · exact (List.nodup_flatMap.1 T.cpus_nodup).1 _ (group_mem h)
  · unfold group
    rw [List.getD_eq_default _ _ (not_lt.1 h)]
    exact List.nodup_nil

theorem mem_group_unique (h : c ∈ (T.group g).osCpus) (h' : c ∈ (T.group g').osCpus) : g = g' := by
  have hpw := (List.nodup_flatMap.1 T.cpus_nodup).2
  have hg := lt_of_mem_group h
  have hg' := lt_of_mem_group h'
  unfold group at h h'
  rw [List.getD_eq_getElem _ _ hg] at h
  rw [List.getD_eq_getElem _ _ hg'] at h'
  rcases lt_trichotomy g g' with hlt | heq | hlt
  · exact absurd h' ((List.pairwise_iff_getElem.1 hpw g g' hg hg' hlt) h)
  · exact heq
  · exact absurd h ((List.pairwise_iff_getElem.1 hpw g' g hg' hg hlt) h')

theorem cpuToGroup_eq (h : c ∈ (T.group g).osCpus) : T.cpuToGroup c = some g := by
  have hsome : (T.cpuToGroup c).isSome := by
    unfold cpuToGroup
    rw [List.find?_isSome]
    exact ⟨g, List.mem_range.2 (lt_of_mem_group h), by simpa using h⟩
  obtain ⟨g', hg'⟩ := Option.isSome_iff_exists.1 hsome
  have hmem : c ∈ (T.group g').osCpus := by simpa using List.find?_some hg'
  rw [hg', mem_group_unique h hmem]

theorem mem_of_cpuToGroup (h : T.cpuToGroup c = some g) : c ∈ (T.group g).osCpus := by
  simpa using List.find?_some h

theorem cpu_lt (h : c ∈ (T.group g).osCpus) : c < T.maxOsCpu :=
  T.cpus_lt _ (group_mem (lt_of_mem_group h)) _ h

theorem mem_node_iff (hn : n < T.nodes.length) :
    g ∈ (T.node n).groupIds ↔ g < T.groups.length ∧ (T.group g).nodeId = n := by
  refine ⟨fun h => ?_, fun h => (T.mem_groupIds n hn g h.1).2 h.2⟩
  have hlt := T.groupIds_lt _ (node_mem hn) g h
  exact ⟨hlt, (T.mem_groupIds n hn g hlt).1 h⟩

theorem node_groupIds_nodup (hn : n < T.nodes.length) : (T.node n).groupIds.Nodup :=
  T.groupIds_nodup _ (node_mem hn)

end Topology

/-! ### One CPU at a time -/

namespace Pool

variable {T : Topology} {p : Pool} {c g : ℕ} {j d : ℤ}

/-- The number of free CPUs in a list. -/
def freeIn (owner : ℕ → ℤ) (cpus : List ℕ) : ℕ := cpus.countP fun c => owner c = 0

theorem freeIn_update_of_notMem {l : List ℕ} (owner : ℕ → ℤ) (v : ℤ) (h : c ∉ l) :
    freeIn (Function.update owner c v) l = freeIn owner l :=
  countP_update_of_notMem (fun x => decide (x = 0)) owner v h

theorem freeIn_update_of_mem {l : List ℕ} (owner : ℕ → ℤ) (v : ℤ) (hnd : l.Nodup) (h : c ∈ l) :
    freeIn (Function.update owner c v) l + (if owner c = 0 then 1 else 0) =
      freeIn owner l + if v = 0 then 1 else 0 := by
  simpa [freeIn] using countP_update_of_mem (fun x : ℤ => decide (x = 0)) owner v hnd h

/-- The free counters agree with the owner array. -/
structure Counted (T : Topology) (p : Pool) : Prop where
  groupFree_eq : ∀ g < T.groups.length, p.groupFree g = freeIn p.owner (T.group g).osCpus
  nodeFree_eq : ∀ n < T.nodes.length, p.nodeFree n = ((T.node n).groupIds.map p.groupFree).sum

@[simp] theorem occupy_owner : (p.occupy T j c).owner = Function.update p.owner c j := by
  unfold occupy
  split <;> rfl

@[simp] theorem release_owner : (p.release T c).owner = Function.update p.owner c 0 := by
  unfold release
  split <;> rfl

theorem counted_fresh (T : Topology) : (fresh T).Counted T where
  groupFree_eq g _ := by simp [fresh, freeIn]
  nodeFree_eq n hn := by
    have h := T.numCores_eq _ (Topology.node_mem hn)
    simp only [fresh, h, Nat.cast_list_sum, List.map_map]
    rfl

/-- The two levels of counters stay consistent when `d` is added to a group and to its node. -/
theorem Counted.nodeFree_addFree (hp : p.Counted T) (hg : g < T.groups.length) (owner : ℕ → ℤ) :
    ∀ n < T.nodes.length, ({ p with owner := owner }.addFree T g d).nodeFree n =
      ((T.node n).groupIds.map ({ p with owner := owner }.addFree T g d).groupFree).sum := by
  intro n hn
  simp only [addFree]
  by_cases hng : n = (T.group g).nodeId
  · have hmem : g ∈ (T.node n).groupIds := (Topology.mem_node_iff hn).2 ⟨hg, hng.symm⟩
    rw [sum_map_update_of_mem _ _ (Topology.node_groupIds_nodup hn) hmem, hng,
      Function.update_self, hp.nodeFree_eq _ (hng ▸ hn)]
    omega
  · have hmem : g ∉ (T.node n).groupIds :=
      fun h => hng ((Topology.mem_node_iff hn).1 h).2.symm
    rw [sum_map_update_of_notMem _ _ hmem, Function.update_of_ne hng, hp.nodeFree_eq n hn]

/-- Writing the owner of a CPU outside of all groups changes no counter. -/
theorem Counted.setOwner_none (hp : p.Counted T) (hc : T.cpuToGroup c = none) (v : ℤ) :
    (p.setOwner c v).Counted T where
  groupFree_eq g hg := by
    have hnot : c ∉ (T.group g).osCpus := fun h => by simp [Topology.cpuToGroup_eq h] at hc
    simp only [setOwner, freeIn_update_of_notMem p.owner v hnot, hp.groupFree_eq g hg]
  nodeFree_eq n hn := hp.nodeFree_eq n hn

/-- Writing the owner of a CPU of group `g`, with the counters adjusted by `d`. -/
theorem Counted.setOwner_addFree (hp : p.Counted T) (hc : c ∈ (T.group g).osCpus) (v : ℤ)
    (hd : d = (if v = 0 then 1 else 0) - (if p.owner c = 0 then 1 else 0)) :
    ((p.setOwner c v).addFree T g d).Counted T where
  groupFree_eq g' hg' := by
    simp only [addFree, setOwner]
    by_cases hgg : g' = g
    · subst hgg
      rw [Function.update_self, hp.groupFree_eq g' hg', hd]
      have := freeIn_update_of_mem p.owner v (T.osCpus_nodup g') hc
      split_ifs at this ⊢ <;> omega
    · have hnot : c ∉ (T.group g').osCpus := fun h => hgg (Topology.mem_group_unique h hc)
      rw [Function.update_of_ne hgg, hp.groupFree_eq g' hg', freeIn_update_of_notMem _ v hnot]
  nodeFree_eq := hp.nodeFree_addFree (Topology.lt_of_mem_group hc) _

theorem Counted.occupy (hp : p.Counted T) (hj : j ≠ 0) (hc : p.owner c = 0) :
    (p.occupy T j c).Counted T := by
  unfold Pool.occupy
  split
  · rename_i g hg
    exact hp.setOwner_addFree (Topology.mem_of_cpuToGroup hg) j (by simp [hj, hc])
  · rename_i hg
    exact hp.setOwner_none hg j

theorem Counted.release (hp : p.Counted T) (hc : p.owner c ≠ 0) :
    (p.release T c).Counted T := by
  unfold Pool.release
  split
  · rename_i g hg
    exact hp.setOwner_addFree (Topology.mem_of_cpuToGroup hg) 0 (by simp [hc])
  · rename_i hg
    exact hp.setOwner_none hg 0

/-- The free counters of some groups agree with the owner array. -/
def Tallied (T : Topology) (ids : List ℕ) (p : Pool) : Prop :=
  ∀ g ∈ ids, p.groupFree g = freeIn p.owner (T.group g).osCpus

theorem Counted.tallied {ids : List ℕ} (hp : p.Counted T) (hids : ∀ g ∈ ids, g < T.groups.length) :
    Tallied T ids p := fun g hg => hp.groupFree_eq g (hids g hg)

theorem Tallied.occupy {ids : List ℕ} (hp : Tallied T ids p) (hj : j ≠ 0) (hc : p.owner c = 0) :
    Tallied T ids (p.occupy T j c) := by
  intro g hg
  rw [occupy_owner, Pool.occupy]
  split
  · rename_i g₀ hg₀
    have hmem := Topology.mem_of_cpuToGroup hg₀
    simp only [addFree, setOwner]
    by_cases hgg : g = g₀
    · subst hgg
      have hupdate := freeIn_update_of_mem p.owner j (T.osCpus_nodup g) hmem
      rw [if_pos hc, if_neg hj] at hupdate
      rw [Function.update_self, hp g hg]
      omega
    · have hnot : c ∉ (T.group g).osCpus := fun h => hgg (Topology.mem_group_unique h hmem)
      rw [Function.update_of_ne hgg, hp g hg, freeIn_update_of_notMem _ j hnot]
  · rename_i hnone
    have hnot : c ∉ (T.group g).osCpus := fun h => by simp [Topology.cpuToGroup_eq h] at hnone
    rw [freeIn_update_of_notMem _ j hnot]
    exact hp g hg

/-- The free CPUs of the machine. -/
theorem totalFree_addFree (hg : g < T.groups.length) :
    Bind.totalFree T (p.addFree T g d) = Bind.totalFree T p + d := by
  have hmem : (T.group g).nodeId ∈ List.range T.nodes.length :=
    List.mem_range.2 (T.nodeId_lt _ (Topology.group_mem hg))
  simp only [Bind.totalFree, addFree]
  rw [sum_map_update_of_mem _ _ List.nodup_range hmem]
  omega

theorem totalFree_occupy (hc : c ∈ (T.group g).osCpus) :
    Bind.totalFree T (p.occupy T j c) = Bind.totalFree T p - 1 := by
  simp only [Pool.occupy, Topology.cpuToGroup_eq hc]
  rw [totalFree_addFree (Topology.lt_of_mem_group hc)]
  rfl

theorem totalFree_release (hc : c ∈ (T.group g).osCpus) :
    Bind.totalFree T (p.release T c) = Bind.totalFree T p + 1 := by
  simp only [Pool.release, Topology.cpuToGroup_eq hc]
  rw [totalFree_addFree (Topology.lt_of_mem_group hc)]
  rfl

/-! ### Lists of CPUs -/

variable {cpus : List ℕ}

theorem foldl_occupy_owner (c : ℕ) :
    (cpus.foldl (occupy T j) p).owner c = if c ∈ cpus then j else p.owner c := by
  induction cpus generalizing p with
  | nil => simp
  | cons x cpus ih =>
    rw [List.foldl_cons, ih, occupy_owner]
    by_cases hx : c = x
    · subst hx; simp
    · simp [hx]

theorem foldl_release_owner (c : ℕ) :
    (cpus.foldl (release T) p).owner c = if c ∈ cpus then 0 else p.owner c := by
  induction cpus generalizing p with
  | nil => simp
  | cons x cpus ih =>
    rw [List.foldl_cons, ih, release_owner]
    by_cases hx : c = x
    · subst hx; simp
    · simp [hx]

/-- CPUs of the machine that are all free: what the allocator may hand out. -/
structure Available (T : Topology) (p : Pool) (cpus : List ℕ) : Prop where
  nodup : cpus.Nodup
  free : ∀ c ∈ cpus, p.owner c = 0
  known : ∀ c ∈ cpus, ∃ g, c ∈ (T.group g).osCpus

theorem Available.nil : Available T p [] := ⟨List.nodup_nil, by simp, by simp⟩

/-- What is available after some CPUs were handed out was available before, besides these. -/
theorem Available.append {rest : List ℕ} (hj : j ≠ 0) (h : Available T p cpus)
    (h' : Available T (cpus.foldl (occupy T j) p) rest) : Available T p (cpus ++ rest) := by
  have hout : ∀ c ∈ rest, c ∉ cpus ∧ p.owner c = 0 := by
    intro c hc
    have := h'.free c hc
    rw [foldl_occupy_owner] at this
    split_ifs at this with hmem
    · exact absurd this hj
    · exact ⟨hmem, this⟩
  refine ⟨h.nodup.append h'.nodup fun c hc hr => (hout c hr).1 hc, ?_, ?_⟩
  · intro c hc
    rcases List.mem_append.1 hc with hc | hc
    · exact h.free c hc
    · exact (hout c hc).2
  · intro c hc
    rcases List.mem_append.1 hc with hc | hc
    · exact h.known c hc
    · exact h'.known c hc

theorem Counted.foldl_occupy (hp : p.Counted T) (hj : j ≠ 0) (hnd : cpus.Nodup)
    (hfree : ∀ c ∈ cpus, p.owner c = 0) : (cpus.foldl (Pool.occupy T j) p).Counted T := by
  induction cpus generalizing p with
  | nil => exact hp
  | cons x cpus ih =>
    rw [List.nodup_cons] at hnd
    refine ih (hp.occupy hj (hfree x (by simp))) hnd.2 fun c hc => ?_
    have hne : c ≠ x := fun h => hnd.1 (h ▸ hc)
    rw [occupy_owner, Function.update_of_ne hne]
    exact hfree c (by simp [hc])

theorem Tallied.foldl_occupy {ids : List ℕ} (hp : Tallied T ids p) (hj : j ≠ 0) (hnd : cpus.Nodup)
    (hfree : ∀ c ∈ cpus, p.owner c = 0) : Tallied T ids (cpus.foldl (Pool.occupy T j) p) := by
  induction cpus generalizing p with
  | nil => exact hp
  | cons x cpus ih =>
    rw [List.nodup_cons] at hnd
    refine ih (hp.occupy hj (hfree x (by simp))) hnd.2 fun c hc => ?_
    have hne : c ≠ x := fun h => hnd.1 (h ▸ hc)
    rw [occupy_owner, Function.update_of_ne hne]
    exact hfree c (by simp [hc])

theorem Counted.foldl_release (hp : p.Counted T) (hnd : cpus.Nodup)
    (howned : ∀ c ∈ cpus, p.owner c ≠ 0) : (cpus.foldl (Pool.release T) p).Counted T := by
  induction cpus generalizing p with
  | nil => exact hp
  | cons x cpus ih =>
    rw [List.nodup_cons] at hnd
    refine ih (hp.release (howned x (by simp))) hnd.2 fun c hc => ?_
    have hne : c ≠ x := fun h => hnd.1 (h ▸ hc)
    rw [release_owner, Function.update_of_ne hne]
    exact howned c (by simp [hc])

theorem freeIn_foldl_occupy {l : List ℕ} (hj : j ≠ 0) (hnd : cpus.Nodup) (hl : l.Nodup)
    (hfree : ∀ c ∈ cpus, p.owner c = 0) (hsub : ∀ c ∈ cpus, c ∈ l) :
    freeIn (cpus.foldl (Pool.occupy T j) p).owner l + cpus.length = freeIn p.owner l := by
  induction cpus generalizing p with
  | nil => rfl
  | cons x cpus ih =>
    rw [List.nodup_cons] at hnd
    have hx := freeIn_update_of_mem p.owner j hl (hsub x (by simp))
    rw [if_pos (hfree x (by simp)), if_neg hj] at hx
    have hrest := ih (p := p.occupy T j x) hnd.2 (fun c hc => ?_) fun c hc => hsub c (by simp [hc])
    · rw [occupy_owner] at hrest
      rw [List.foldl_cons, List.length_cons]
      omega
    · have hne : c ≠ x := fun h => hnd.1 (h ▸ hc)
      rw [occupy_owner, Function.update_of_ne hne]
      exact hfree c (by simp [hc])

theorem totalFree_foldl_occupy (hin : ∀ c ∈ cpus, ∃ g, c ∈ (T.group g).osCpus) :
    Bind.totalFree T (cpus.foldl (occupy T j) p) = Bind.totalFree T p - cpus.length := by
  induction cpus generalizing p with
  | nil => simp
  | cons x cpus ih =>
    obtain ⟨g, hg⟩ := hin x (by simp)
    rw [List.foldl_cons, ih fun c hc => hin c (by simp [hc]), totalFree_occupy hg,
      List.length_cons]
    omega

theorem totalFree_foldl_release (hin : ∀ c ∈ cpus, ∃ g, c ∈ (T.group g).osCpus) :
    Bind.totalFree T (cpus.foldl (release T) p) = Bind.totalFree T p + cpus.length := by
  induction cpus generalizing p with
  | nil => simp
  | cons x cpus ih =>
    obtain ⟨g, hg⟩ := hin x (by simp)
    rw [List.foldl_cons, ih fun c hc => hin c (by simp [hc]), totalFree_release hg,
      List.length_cons]
    omega

/-- Handing out CPUs of one group is one update of the owners and one of the counters. -/
theorem foldl_occupy_group (h : ∀ c ∈ cpus, c ∈ (T.group g).osCpus) :
    cpus.foldl (occupy T j) p =
      { p with owner := cpus.foldl (fun o c => Function.update o c j) p.owner }.addFree T g
        (-(cpus.length : ℤ)) := by
  induction cpus generalizing p with
  | nil => simp [addFree]
  | cons x cpus ih =>
    rw [List.foldl_cons, ih fun c hc => h c (by simp [hc])]
    simp only [occupy, Topology.cpuToGroup_eq (h x (by simp)), addFree, setOwner,
      List.foldl_cons, Function.update_idem, Function.update_self, List.length_cons]
    push_cast
    simp only [neg_add, add_assoc, add_comm]

end Pool

end CpuBind

end TaskSpooler
