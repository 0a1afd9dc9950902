import TaskSpooler.CpuBind.Rebuild
import TaskSpooler.Lib.Run

/-!
# Histories of the allocator

The server allocates, frees and defragments.  `cpu_bind_run_consistent` is the main result: after
`cpu_bind_init` and any sequence of operations the three representations agree, the allocations
are disjoint, and no loop has failed to terminate.
-/

namespace TaskSpooler

namespace CpuBind

open Pool

namespace Bind

variable {T : Topology} {b : Bind}

/-- What the server does with the allocator. -/
inductive Op
  | alloc (jobid N : ℤ)
  | free (a : CpuAlloc)
  | defrag
  | setDisabled (disabled : Bool)
  | setDefragDisabled (disabled : Bool)

/-- The effect of an operation. -/
def apply (Q : Qsort) (T : Topology) (b : Bind) : Op → Bind
  | .alloc j N => (b.acquire Q T j N).1
  | .free a => b.cpuBindFree T a
  | .defrag => b.cpuBindDefragStart Q T
  | .setDisabled d => { b with disabled := d }
  | .setDefragDisabled d => { b with defragDisabled := d }

/-- CPUs are allocated for a job with a positive id that holds none, and a live allocation is
freed. -/
def Permitted : Op → Bind → Prop
  | .alloc j _, b => 0 < j ∧ ∀ c, b.pool.owner c ≠ j
  | .free a, b => a ∈ b.allocs
  | .defrag, _ => True
  | .setDisabled _, _ => True
  | .setDefragDisabled _, _ => True

theorem apply_ok (Q : Qsort) {op : Op} (h : b.Ok T) (hop : Permitted op b) :
    (b.apply Q T op).Ok T := by
  cases op with
  | alloc j N => exact acquire_ok Q h hop.1 (h.placed.jobid_notMem hop.2)
  | free a => exact cpuBindFree_ok h hop
  | defrag => exact (cpuBindDefragStart_spec Q h).1
  | setDisabled d => exact ⟨h.placed, h.ptr_nodup, h.ptr_lt, h.hung⟩
  | setDefragDisabled d => exact ⟨h.placed, h.ptr_nodup, h.ptr_lt, h.hung⟩

/-- Allocation for a job without a live allocation is permitted. -/
theorem Ok.permitted_alloc {j N : ℤ} (h : b.Ok T) (hj : 0 < j)
    (hnew : j ∉ b.allocs.map CpuAlloc.jobid) : Permitted (.alloc j N) b :=
  ⟨hj, fun c => h.placed.owner_ne hj hnew c⟩

/-- The counters, the owner array and the live allocations agree. -/
structure Consistent (T : Topology) (b : Bind) : Prop where
  groupFree_eq : ∀ g < T.groups.length,
    b.pool.groupFree g = ((T.group g).osCpus.filter fun c => b.pool.owner c = 0).length
  nodeFree_eq : ∀ n < T.nodes.length,
    b.pool.nodeFree n = ((T.node n).groupIds.map b.pool.groupFree).sum
  osCpus_nodup : ∀ a ∈ b.allocs, a.osCpus.Nodup
  osCpus_disjoint : b.allocs.Pairwise fun a a' => a.osCpus.Disjoint a'.osCpus
  owner_iff : ∀ c j, 0 < j → (b.pool.owner c = j ↔ ∃ a ∈ b.allocs, a.jobid = j ∧ c ∈ a.osCpus)
  /-- No loop of the allocator ran forever. -/
  terminated : b.hung = false

theorem Ok.consistent (h : b.Ok T) : b.Consistent T where
  groupFree_eq g hg := by
    rw [h.placed.counted.groupFree_eq g hg, freeIn, List.countP_eq_length_filter]
  nodeFree_eq := h.placed.counted.nodeFree_eq
  osCpus_nodup := h.placed.nodup
  osCpus_disjoint := h.placed.disjoint
  owner_iff := h.placed.owner_iff
  terminated := h.hung

/-- **The three representations never drift**: after `cpu_bind_init` and any history of
allocations, releases and defragmentations the counters, the owner array and the live allocations
agree. -/
theorem cpu_bind_run_consistent (Q : Qsort) (T : Topology)
    (h : Run (fun b op b' => b' = apply Q T b op) Permitted (cpuBindInit T) b) :
    b.Consistent T := by
  refine (h.invariant (I := Ok T) (cpuBindInit_ok T) ?_).consistent
  rintro b _ op hb hop rfl
  exact apply_ok Q hb hop

/-- Two nodes with one group of two CPUs each. -/
def twoNodes : Topology where
  maxOsCpu := 4
  maxCoresPerGroup := 2
  groups := [⟨0, [0, 1]⟩, ⟨1, [2, 3]⟩]
  nodes := [⟨2, [0]⟩, ⟨2, [1]⟩]
  maxOsCpu_le := by decide
  cpus_nodup := by decide
  cpus_lt := by decide
  cores_le := by decide
  nodeId_lt := by decide
  groupIds_nodup := by decide
  groupIds_lt := by decide
  mem_groupIds := by decide
  numCores_eq := by decide

theorem twoNodes_history_consistent :
    (List.range 4).map (((cpuBindInit twoNodes).apply .insertion twoNodes (.alloc 7 3)).apply
      .insertion twoNodes .defrag).pool.owner = [7, 7, 7, 0] ∧
    (((cpuBindInit twoNodes).apply .insertion twoNodes (.alloc 7 3)).apply
      .insertion twoNodes .defrag).Consistent twoNodes := by
  refine ⟨by decide +kernel, cpu_bind_run_consistent .insertion twoNodes ?_⟩
  have hfree : Permitted (.alloc 7 3) (cpuBindInit twoNodes) :=
    ⟨by decide, fun c => by simp [cpuBindInit, fresh]⟩
  exact (Run.start.next hfree rfl).next (l := Op.defrag) trivial rfl

end Bind

end CpuBind

end TaskSpooler
