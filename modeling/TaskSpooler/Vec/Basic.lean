import Mathlib.Algebra.Group.Nat.Defs
import Mathlib.Data.Int.Notation
import TaskSpooler.Lib.Cells

/-!
# The vectors of the server (`vec.c`)

The queue, the finished jobs and the users are kept in vectors of pointers that grow by doubling.  A
pointer is an `Option`, `none` for the null pointer.  `data` points to a block of memory of cells of
eight bytes; an operation that reads or writes outside the block, reads a cell that nothing has been
written to, or uses a block that has been freed is not defined.  Sizes are those of a 64-bit machine.
-/

namespace TaskSpooler

/-- What `malloc` and `realloc` do when they are called: they grant so many bytes or not, and never
more than an object may have. -/
structure Memory where
  grants : ℕ → Bool
  bounded : ∀ n, grants n = true → n < 2 ^ 63

/-- `SIZE_MAX`. -/
def sizeMax : ℕ := 2 ^ 64 - 1

/-- `sizeof(void *)`. -/
def pointerSize : ℕ := 8

variable {α : Type*}

/-- `void **data`. -/
inductive Data (α : Type*)
  | null
  | block (cells : Cells (Option α))
  | freed

/-- `vec_t`. -/
structure Vec (α : Type*) where
  data : Data α := .null
  size : ℕ := 0
  capacity : ℕ := 0

/-- What a function of `vec.c` returns. -/
inductive Ret (α : Type*)
  | code (res : ℤ)
  | item (p : Option α)
  | void
  deriving DecidableEq

/-- `VEC_INITIAL_CAPACITY`. -/
def vecInitialCapacity : ℕ := 8

/-- The block, if there is one to read and write. -/
def Data.cells : Data α → Option (Cells (Option α))
  | null => none
  | block cells => some cells
  | freed => none

namespace Vec

variable (M : Memory) (v : Vec α)

/-- `vec_init`. -/
def init : Vec α × ℤ :=
  if M.grants (vecInitialCapacity * pointerSize) then
    ({ data := .block (List.replicate vecInitialCapacity none), size := 0,
       capacity := vecInitialCapacity }, 0)
  else ({ v with data := .null }, -1)

/-- `vec_reserve`.  The product is a `size_t`, and `realloc` to no bytes frees the block. -/
def reserve (cap : ℕ) : Option (Vec α × ℤ) :=
  match v.data with
  | .null => some (v, -1)
  | .block cells =>
    if cap ≤ v.capacity then some (v, 0)
    else
      let bytes := cap * pointerSize % 2 ^ 64
      if bytes = 0 then some ({ v with data := .freed }, -1)
      else if M.grants bytes then
        some ({ v with data := .block (cells.resize (bytes / pointerSize)), capacity := cap }, 0)
      else some (v, -1)
  | .freed => if cap ≤ v.capacity then some (v, 0) else none

/-- The growth step of `vec_push` and `vec_insert`, and whether they go on. -/
def grow : Option (Vec α × Bool) :=
  if v.capacity ≤ v.size then
    if sizeMax / 2 < v.capacity then some (v, false)
    else (v.reserve M (v.capacity * 2)).map fun r => (r.1, r.2 = 0)
  else some (v, true)

/-- `vec_push`. -/
def push (item : Option α) : Option (Vec α × ℤ) :=
  match v.data with
  | .null => some (v, -1)
  | _ => do
    let (v, ok) ← v.grow M
    if ok then
      let cells ← v.data.cells
      let cells ← cells.store v.size item
      some ({ v with data := .block cells, size := (v.size + 1) % 2 ^ 64 }, 0)
    else some (v, -1)

/-- `vec_pop`. -/
def pop : Option (Vec α × Option α) :=
  match v.data with
  | .null => some (v, none)
  | _ =>
    if v.size = 0 then some (v, none)
    else do
      let cells ← v.data.cells
      let item ← cells.load (v.size - 1)
      some ({ v with size := v.size - 1 }, item)

/-- `vec_get`. -/
def get (index : ℕ) : Option (Option α) :=
  match v.data with
  | .null => some none
  | _ =>
    if v.size ≤ index then some none
    else do
      let cells ← v.data.cells
      cells.load index

/-- `vec_set`. -/
def set (index : ℕ) (item : Option α) : Option (Vec α × Option α) :=
  match v.data with
  | .null => some (v, none)
  | _ =>
    if v.size ≤ index then some (v, none)
    else do
      let cells ← v.data.cells
      let old ← cells.load index
      let cells ← cells.store index item
      some ({ v with data := .block cells }, old)

/-- The number of cells in so many bytes, which `memmove` takes as a `size_t`. -/
def cellsOf (n : ℕ) : ℕ := n * pointerSize % 2 ^ 64 / pointerSize

/-- `vec_insert`. -/
def insert (index : ℕ) (item : Option α) : Option (Vec α × ℤ) :=
  match v.data with
  | .null => some (v, -1)
  | _ =>
    if v.size < index then some (v, -1)
    else do
      let (v, ok) ← v.grow M
      if ok then
        let cells ← v.data.cells
        let cells ← cells.move (index + 1) index (cellsOf (v.size - index))
        let cells ← cells.store index item
        some ({ v with data := .block cells, size := (v.size + 1) % 2 ^ 64 }, 0)
      else some (v, -1)

/-- `vec_remove`. -/
def remove (index : ℕ) : Option (Vec α × Option α) :=
  match v.data with
  | .null => some (v, none)
  | _ =>
    if v.size ≤ index then some (v, none)
    else do
      let cells ← v.data.cells
      let removed ← cells.load index
      let cells ← cells.move index (index + 1) (cellsOf (v.size - index - 1))
      some ({ v with data := .block cells, size := v.size - 1 }, removed)

/-- `vec_clear`. -/
def clear : Vec α :=
  match v.data with
  | .null => v
  | _ => { v with size := 0 }

/-! ### Sequences of calls -/

/-- A call; an index or a capacity is any `size_t`. -/
inductive Op (α : Type*)
  | init
  | push (item : Option α)
  | pop
  | insert (index : UInt64) (item : Option α)
  | remove (index : UInt64)
  | set (index : UInt64) (item : Option α)
  | get (index : UInt64)
  | reserve (cap : UInt64)
  | clear

/-- A call with the vector it leaves and what it returns; `none` if it is not defined. -/
def call : Op α → Option (Vec α × Ret α)
  | .init => some ((v.init M).1, .code (v.init M).2)
  | .push item => (v.push M item).map fun r => (r.1, .code r.2)
  | .pop => v.pop.map fun r => (r.1, .item r.2)
  | .insert index item => (v.insert M index.toNat item).map fun r => (r.1, .code r.2)
  | .remove index => (v.remove index.toNat).map fun r => (r.1, .item r.2)
  | .set index item => (v.set index.toNat item).map fun r => (r.1, .item r.2)
  | .get index => (v.get index.toNat).map fun p => (v, .item p)
  | .reserve cap => (v.reserve M cap.toNat).map fun r => (r.1, .code r.2)
  | .clear => some (v.clear, .void)

/-- One call in a sequence, with the memory that it finds. -/
def Step (v : Vec α) (l : Memory × Op α) (v' : Vec α) : Prop := ∃ r, v.call l.1 l.2 = some (v', r)

end Vec

end TaskSpooler
