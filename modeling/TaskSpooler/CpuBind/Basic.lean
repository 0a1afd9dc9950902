import TaskSpooler.Lib.Qsort
import Mathlib.Logic.Function.Basic
import Mathlib.Algebra.Order.Ring.Int

/-!
# The CPU binding allocator (`cpu_bind.c`)

The machine is described by a generated `topology.h`: core groups (the CPUs sharing a cache) that
lie on NUMA nodes.  `Topology` carries the well-formedness of a generated file in its fields.  The
allocator keeps three redundant representations of who holds which CPU, and each has its own
field here:

* `Pool.owner` is `cpu_owner[]` (`0` for a free CPU, a job id otherwise),
* `Pool.groupFree` and `Pool.nodeFree` are the `free_count` of the groups and of the nodes,
* `Bind.allocs` is the vector `cpu_allocs` of live `struct CpuAlloc`s with their `os_cpus` lists.

A `struct CpuAlloc *` is modelled by the field `ptr` of the record it points to.  An array that
the C code indexes is a function on `ℕ`.  The loop of `alloc_from_groups` runs forever if a group
claims free CPUs it does not have; it is modelled with fuel, and `Bind.hung` is set when the fuel
runs out, that is when the C loop would not terminate.
-/

namespace TaskSpooler

namespace CpuBind

/-- `struct CoreGroup` without its `free_count`; `num_cores` is the length of `os_cpus`. -/
structure CoreGroup where
  nodeId : ℕ
  osCpus : List ℕ
  deriving Inhabited

/-- `struct NodeInfo` without its `free_count`; `node_id` is the index of the node. -/
structure NodeInfo where
  numCores : ℕ
  groupIds : List ℕ
  deriving Inhabited

/-- A well-formed generated `topology.h`. -/
structure Topology where
  maxOsCpu : ℕ
  maxCoresPerGroup : ℕ
  groups : List CoreGroup
  nodes : List NodeInfo
  /-- CPU numbers are C `int`s. -/
  maxOsCpu_le : maxOsCpu ≤ 2 ^ 31
  /-- Every CPU is listed once. -/
  cpus_nodup : (groups.flatMap CoreGroup.osCpus).Nodup
  cpus_lt : ∀ g ∈ groups, ∀ c ∈ g.osCpus, c < maxOsCpu
  cores_le : ∀ g ∈ groups, g.osCpus.length ≤ maxCoresPerGroup
  nodeId_lt : ∀ g ∈ groups, g.nodeId < nodes.length
  /-- A node lists its groups, each of them once. -/
  groupIds_nodup : ∀ nd ∈ nodes, nd.groupIds.Nodup
  groupIds_lt : ∀ nd ∈ nodes, ∀ g ∈ nd.groupIds, g < groups.length
  mem_groupIds : ∀ n < nodes.length, ∀ g < groups.length,
    g ∈ (nodes.getD n default).groupIds ↔ (groups.getD g default).nodeId = n
  numCores_eq : ∀ nd ∈ nodes,
    nd.numCores = (nd.groupIds.map fun g => (groups.getD g default).osCpus.length).sum

namespace Topology

variable (T : Topology)

/-- `sys_topology.groups[g]`. -/
def group (g : ℕ) : CoreGroup := T.groups.getD g default

/-- `sys_topology.nodes[n]`. -/
def node (n : ℕ) : NodeInfo := T.nodes.getD n default

/-- `cpu_to_group[cpu]`, `none` for the invalid entry `-1`. -/
def cpuToGroup (cpu : ℕ) : Option ℕ :=
  (List.range T.groups.length).find? fun g => cpu ∈ (T.group g).osCpus

end Topology

/-- `struct CpuAlloc`; `count` is the length of `os_cpus`. -/
structure CpuAlloc where
  /-- The address of the record. -/
  ptr : ℕ
  jobid : ℤ
  slots : ℤ
  primaryNode : ℤ := 0
  memNodes : ℕ := 0
  error : Bool := false
  quality : ℕ := 0
  osCpus : List ℕ := []
  deriving DecidableEq

/-- The owner array and the two levels of free counters. -/
structure Pool where
  owner : ℕ → ℤ
  groupFree : ℕ → ℤ
  nodeFree : ℕ → ℤ

namespace Pool

/-- Every CPU free: the state `cpu_bind_init` sets up and `cpu_bind_defrag_start` rebuilds from. -/
def fresh (T : Topology) : Pool where
  owner _ := 0
  groupFree g := (T.group g).osCpus.length
  nodeFree n := (T.node n).numCores

/-- Add `d` to the free counters of group `g` and of its node. -/
def addFree (T : Topology) (p : Pool) (g : ℕ) (d : ℤ) : Pool :=
  { p with
    groupFree := Function.update p.groupFree g (p.groupFree g + d)
    nodeFree := Function.update p.nodeFree (T.group g).nodeId
      (p.nodeFree (T.group g).nodeId + d) }

/-- `cpu_owner[cpu] = j`. -/
def setOwner (p : Pool) (cpu : ℕ) (j : ℤ) : Pool :=
  { p with owner := Function.update p.owner cpu j }

/-- Mark one CPU as held by `j` (the loops of defrag and of `cpu_bind_claim`). -/
def occupy (T : Topology) (j : ℤ) (p : Pool) (cpu : ℕ) : Pool :=
  match T.cpuToGroup cpu with
  | some g => (p.setOwner cpu j).addFree T g (-1)
  | none => p.setOwner cpu j

/-- Mark one CPU as free (the loop of `cpu_bind_free`). -/
def release (T : Topology) (p : Pool) (cpu : ℕ) : Pool :=
  match T.cpuToGroup cpu with
  | some g => (p.setOwner cpu 0).addFree T g 1
  | none => p.setOwner cpu 0

end Pool

/-! ### Taking CPUs from groups -/

/-- The loop of `take_from_group` over the CPUs of the group, with the CPUs taken so far. -/
def takeLoop (N : ℕ) (jobid : ℤ) : List ℕ → (ℕ → ℤ) × List ℕ → (ℕ → ℤ) × List ℕ
  | [], st => st
  | cpu :: rest, (owner, taken) =>
    if taken.length < N then
      if owner cpu = 0 then
        takeLoop N jobid rest (Function.update owner cpu jobid, taken ++ [cpu])
      else takeLoop N jobid rest (owner, taken)
    else (owner, taken)

/-- `take_from_group`: take up to `N` free CPUs of group `g`; returns the number taken. -/
def takeFromGroup (T : Topology) (g N : ℕ) (p : Pool) (a : CpuAlloc) : ℕ × Pool × CpuAlloc :=
  let (owner, taken) := takeLoop N a.jobid (T.group g).osCpus (p.owner, [])
  let p' := { p with owner := owner }.addFree T g (-(taken.length : ℤ))
  -- the group still has free CPUs: one more fragmented group
  let quality := if 0 < p'.groupFree g then a.quality + 1 else a.quality
  (taken.length, p', { a with osCpus := a.osCpus ++ taken, quality := quality })

/-- The group with `free_count >= remaining` and the least excess, the first one among ties. -/
def bestFit (free : ℕ → ℤ) (remaining : ℤ) (ids : List ℕ) : Option ℕ :=
  (ids.foldl (fun best g =>
    if remaining ≤ free g then
      match best with
      | none => some (g, free g - remaining)
      | some (b, excess) =>
        if free g - remaining < excess then some (g, free g - remaining) else some (b, excess)
    else best) none).map Prod.fst

/-- The group with the largest positive `free_count`, the first one among ties. -/
def maxFree (free : ℕ → ℤ) (ids : List ℕ) : Option ℕ :=
  (ids.foldl (fun best g =>
    if 0 < free g then
      match best with
      | none => some (g, free g)
      | some (b, most) => if most < free g then some (g, free g) else some (b, most)
    else best) none).map Prod.fst

/-- The outcome of `alloc_from_groups`: the new pool and record, and whether the loop hangs. -/
structure Outcome where
  pool : Pool
  alloc : CpuAlloc
  hung : Bool := false

/-- The `while (remaining > 0)` loop of `alloc_from_groups`.  An iteration that takes nothing is
repeated forever, so `N` iterations of fuel decide whether the loop ends. -/
def allocLoop (T : Topology) (ids : List ℕ) : ℕ → ℕ → Pool → CpuAlloc → Outcome
  | _, 0, p, a => { pool := p, alloc := a }
  | 0, _ + 1, p, a => { pool := p, alloc := a, hung := true }
  | fuel + 1, r + 1, p, a =>
    match (bestFit p.groupFree (r + 1) ids).or (maxFree p.groupFree ids) with
    | some g =>
      let (got, p', a') := takeFromGroup T g (r + 1) p a
      allocLoop T ids fuel (r + 1 - got) p' a'
    | none => { pool := p, alloc := { a with error := true } }

/-- `alloc_from_groups`. -/
def allocFromGroups (T : Topology) (N : ℕ) (ids : List ℕ) (p : Pool) (a : CpuAlloc) : Outcome :=
  allocLoop T ids N N p a

/-- `cpu_bind_post_alloc`: sort the CPUs and check them against the owner array. -/
def cpuBindPostAlloc (Q : Qsort) (T : Topology) (p : Pool) (a : CpuAlloc) : CpuAlloc :=
  let a := { a with osCpus := Q.sort (fun x y => x ≤ y) a.osCpus }
  let bad := a.osCpus.any fun cpu => p.owner cpu ≠ a.jobid
  let ownerCnt := ((List.range T.maxOsCpu).filter fun cpu => p.owner cpu = a.jobid).length
  { a with error := a.error || bad || ownerCnt ≠ a.osCpus.length }

/-! ### Several nodes -/

/-- The node loop of `cross_node_merge`: collect groups in the given order of the nodes until
their free CPUs reach `N`. -/
def collectNodes (T : Topology) (free : ℕ → ℤ) (N : ℤ) :
    List ℕ → ℤ × List ℕ × ℕ → ℤ × List ℕ × ℕ
  | [], st => st
  | ni :: rest, (total, ids, bitmap) =>
    if total < N then
      collectNodes T free N rest
        (total + free ni, ids ++ (T.node ni).groupIds, bitmap ||| 1 <<< ni)
    else (total, ids, bitmap)

/-- The order in which `cross_node_merge` visits the nodes: by `free_count`, largest first. -/
def nodeOrder (Q : Qsort) (T : Topology) (p : Pool) : List ℕ :=
  Q.sort (fun i j => p.nodeFree j ≤ p.nodeFree i) (List.range T.nodes.length)

/-- The primary node chosen by `cross_node_merge`. -/
def primaryNode (T : Topology) (N : ℕ) (p : Pool) (jobid : ℤ) (order : List ℕ) : ℤ :=
  if T.maxCoresPerGroup < N then -1
  else
    let best := p.nodeFree (order.getD 0 0)
    let nt := (order.takeWhile fun n => p.nodeFree n = best).length
    if 1 < nt then order.getD (jobid % nt).toNat 0 else order.getD 0 0

/-- `cross_node_merge`. -/
def crossNodeMerge (Q : Qsort) (T : Topology) (N : ℕ) (p : Pool) (a : CpuAlloc) : Outcome :=
  let order := nodeOrder Q T p
  let (_, ids, bitmap) := collectNodes T p.nodeFree N order (0, [], 0)
  let a := { a with primaryNode := primaryNode T N p a.jobid order, memNodes := bitmap }
  if ids = [] then { pool := p, alloc := a } else allocFromGroups T N ids p a

/-- The node `cpu_bind_alloc` prefers: room for `N` and the most free CPUs, first among ties. -/
def bestNode (T : Topology) (N : ℤ) (p : Pool) : Option ℕ :=
  maxFree (fun n => if N ≤ p.nodeFree n then p.nodeFree n else 0) (List.range T.nodes.length)

/-- The selection of the path and the allocation proper of `cpu_bind_alloc`. -/
def allocCpus (Q : Qsort) (T : Topology) (N : ℕ) (p : Pool) (a : CpuAlloc) : Outcome :=
  match bestNode T N p with
  | some n =>
    let o := allocFromGroups T N (T.node n).groupIds p a
    { o with alloc := { o.alloc with primaryNode := n, memNodes := 1 <<< n } }
  | none => crossNodeMerge Q T N p a

/-! ### The public interface -/

/-- The allocator: the pool, the switches and the live allocations (`cpu_allocs`). -/
structure Bind where
  pool : Pool
  disabled : Bool := false
  defragDisabled : Bool := false
  allocs : List CpuAlloc := []
  /-- Addresses not yet used. -/
  nextPtr : ℕ := 0
  /-- A loop of the allocator did not terminate. -/
  hung : Bool := false

namespace Bind

/-- `cpu_bind_init`. -/
def cpuBindInit (T : Topology) : Bind := { pool := Pool.fresh T }

/-- Write the record `a` back to its address. -/
def store (b : Bind) (a : CpuAlloc) : Bind :=
  { b with allocs := b.allocs.map fun x => if x.ptr = a.ptr then a else x }

/-- `cpu_bind_alloc_init`: a fresh record, already listed in `cpu_allocs`. -/
def cpuBindAllocInit (b : Bind) (jobid maxCpus : ℤ) : Bind × CpuAlloc :=
  let a : CpuAlloc := { ptr := b.nextPtr, jobid := jobid, slots := maxCpus }
  ({ b with allocs := b.allocs ++ [a], nextPtr := b.nextPtr + 1 }, a)

/-- `total_free` of `cpu_bind_alloc`. -/
def totalFree (T : Topology) (p : Pool) : ℤ := ((List.range T.nodes.length).map p.nodeFree).sum

/-- `cpu_bind_alloc`; returns the allocator and the record as left in it. -/
def cpuBindAlloc (Q : Qsort) (T : Topology) (b : Bind) (a : CpuAlloc) (N : ℤ) : Bind × CpuAlloc :=
  if b.disabled ∨ N ≤ 0 ∨ totalFree T b.pool < N then
    let a := { a with error := true }
    (b.store a, a)
  else
    let o := allocCpus Q T N.toNat b.pool { a with osCpus := [] }
    let a := cpuBindPostAlloc Q T o.pool o.alloc
    ({ b with pool := o.pool, hung := b.hung || o.hung }.store a, a)

/-- `cpu_bind_free` of a live allocation. -/
def cpuBindFree (T : Topology) (b : Bind) (a : CpuAlloc) : Bind :=
  { b with
    pool := a.osCpus.foldl (Pool.release T) b.pool
    allocs := b.allocs.eraseP fun x => x.ptr = a.ptr }

/-- Allocation as both callers do it: a record that got no CPUs is freed at once. -/
def acquire (Q : Qsort) (T : Topology) (b : Bind) (jobid N : ℤ) : Bind × Option CpuAlloc :=
  let (b, a) := b.cpuBindAllocInit jobid N
  let (b, a) := b.cpuBindAlloc Q T a N
  if a.error = false ∧ a.osCpus ≠ [] then (b, some a) else (b.cpuBindFree T a, none)

/-! ### Defragmentation -/

/-- `alloc_defrag_cmp`: by quality, then the larger allocation first. -/
def defragLe (a b : CpuAlloc) : Bool :=
  if a.quality ≠ b.quality then a.quality ≤ b.quality else b.osCpus.length ≤ a.osCpus.length

/-- The part of the rebuild that both passes share: drop the old CPUs of the record. -/
def reset (a : CpuAlloc) : CpuAlloc := { a with osCpus := [], error := false, quality := 0 }

/-- First pass over the fragmented allocations: allocate again on the primary node, or skip. -/
def samePass (Q : Qsort) (T : Topology) : List CpuAlloc → Pool × Bool → List (CpuAlloc × Bool) ×
    Pool × Bool
  | [], (p, hung) => ([], p, hung)
  | a :: rest, (p, hung) =>
    if 0 ≤ a.primaryNode ∧ a.primaryNode < T.nodes.length ∧
        (a.osCpus.length : ℤ) ≤ p.nodeFree a.primaryNode.toNat then
      let o := allocFromGroups T a.osCpus.length (T.node a.primaryNode.toNat).groupIds p (reset a)
      let a' := cpuBindPostAlloc Q T o.pool o.alloc
      let (done, st) := samePass Q T rest (o.pool, hung || o.hung)
      ((a', false) :: done, st)
    else
      let (done, st) := samePass Q T rest (p, hung)
      ((a, true) :: done, st)

/-- Second pass: the skipped allocations are spread over several nodes and keep their NUMA
fields. -/
def mergePass (Q : Qsort) (T : Topology) : List (CpuAlloc × Bool) → Pool × Bool →
    List CpuAlloc × Pool × Bool
  | [], (p, hung) => ([], p, hung)
  | (a, false) :: rest, st =>
    let (done, st) := mergePass Q T rest st
    (a :: done, st)
  | (a, true) :: rest, (p, hung) =>
    let o := crossNodeMerge Q T a.osCpus.length p (reset a)
    let a' := cpuBindPostAlloc Q T o.pool
      { o.alloc with primaryNode := a.primaryNode, memNodes := a.memNodes }
    let (done, st) := mergePass Q T rest (o.pool, hung || o.hung)
    (a' :: done, st)

/-- The computation of `cpu_bind_defrag_start`: keep the allocations of quality 0, allocate the
others again.  The records are sorted in place. -/
def cpuBindDefragStart (Q : Qsort) (T : Topology) (b : Bind) : Bind :=
  if b.defragDisabled then b
  else
    let sorted := Q.sort defragLe b.allocs
    let kept := sorted.takeWhile fun a => a.quality = 0
    let moved := sorted.dropWhile fun a => a.quality = 0
    if moved = [] then { b with allocs := sorted }
    else
      let p := kept.foldl (fun p a => a.osCpus.foldl (Pool.occupy T a.jobid) p) (Pool.fresh T)
      let (same, st) := samePass Q T moved (p, b.hung)
      let (done, p, hung) := mergePass Q T same st
      { b with pool := p, allocs := kept ++ done, hung := hung }

/-! ### Recovery after a restart -/

/-- `cpu_bind_claim`: take over the CPUs a job was bound to before the restart. -/
def cpuBindClaim (Q : Qsort) (T : Topology) (b : Bind) (jobid : ℤ) (cpus : List ℕ)
    (memNodes : ℕ) (primaryNode : ℤ) : Bind × Option CpuAlloc :=
  if cpus = [] then (b, none)
  else
    let a : CpuAlloc :=
      { ptr := b.nextPtr, jobid := jobid, slots := cpus.length, memNodes := memNodes,
        primaryNode := primaryNode, osCpus := Q.sort (fun x y => x ≤ y) cpus }
    ({ b with
        pool := a.osCpus.foldl (Pool.occupy T jobid) b.pool
        allocs := b.allocs ++ [a]
        nextPtr := b.nextPtr + 1 }, some a)

end Bind

end CpuBind

end TaskSpooler
