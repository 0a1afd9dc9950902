import TaskSpooler.Lib.Run
import TaskSpooler.Vec.Basic

/-!
# A vector is a list

`Vec.Holds v l rest` says that the block of `v` begins with the items `l`; behind them are the cells
`rest`, as many as there is capacity left.  Every call keeps this, or leaves a vector without a block
as empty as it was (`Sound`), and does to the list what its name says (`Meets`).

Two calls do so only with care (`Careful`).  `vec_reserve` computes the size of the block without
looking at the range of a `size_t`: from `2 ^ 61` pointers on, `realloc` is asked for too little, or
for nothing at all, which frees the block.  `vec_init` of a vector that is in use drops its block
before it knows that there is another one.
-/

namespace TaskSpooler

namespace Vec

variable {α : Type*} {M : Memory} {v v' : Vec α} {l : List (Option α)} {rest : Cells (Option α)}
  {x : Option α} {cap i : ℕ} {c : Option (Option α)}

/-! ### Lists -/

/-- The sequence that is stored. -/
def seq (v : Vec α) : List (Option α) := ((v.data.cells.getD []).take v.size).reduceOption

/-- What a call does to a list, and what it returns; `none` if it is out of range. -/
def Op.onList : Op α → List (Option α) → Option (List (Option α) × Ret α)
  | .init, _ => some ([], .code 0)
  | .push item, l => some (l ++ [item], .code 0)
  | .pop, l => l.getLast?.map fun p => (l.dropLast, .item p)
  | .insert index item, l =>
    if index.toNat ≤ l.length then some (l.insertIdx index.toNat item, .code 0) else none
  | .remove index, l => l[index.toNat]?.map fun p => (l.eraseIdx index.toNat, .item p)
  | .set index item, l => l[index.toNat]?.map fun p => (l.set index.toNat item, .item p)
  | .get index, l => l[index.toNat]?.map fun p => (l, .item p)
  | .reserve _, l => some (l, .code 0)
  | .clear, _ => some ([], .void)

/-- What a call returns if it fails. -/
def Op.errorValue : Op α → Ret α
  | .init | .push _ | .insert .. | .reserve _ => .code (-1)
  | .pop | .remove _ | .set .. | .get _ => .item none
  | .clear => .void

/-- There is no block, or it is full and cannot be doubled. -/
def GrowthRefused (M : Memory) (v : Vec α) : Prop :=
  v.data = .null ∨ v.capacity ≤ v.size ∧
    (sizeMax / 2 < v.capacity ∨ M.grants (v.capacity * 2 * pointerSize) = false)

/-- The call does not get the memory that it needs. -/
def Refused (M : Memory) (v : Vec α) : Op α → Prop
  | .init => M.grants (vecInitialCapacity * pointerSize) = false
  | .push _ | .insert .. => GrowthRefused M v
  | .reserve cap =>
    v.data = .null ∨ v.capacity < cap.toNat ∧ M.grants (cap.toNat * pointerSize) = false
  | _ => False

/-- The call did to the stored sequence what it does to a list; if it was out of range or did not get
its memory, it returned its error value and the sequence is as before. -/
structure Effect (M : Memory) (v : Vec α) (op : Op α) (v' : Vec α) (r : Ret α) : Prop where
  done : ∀ l' r', op.onList v.seq = some (l', r') → ¬Refused M v op → v'.seq = l' ∧ r = r'
  failed : op.onList v.seq = none ∨ Refused M v op → v'.seq = v.seq ∧ r = op.errorValue

/-- The call is defined and does what it should. -/
def Meets (M : Memory) (v : Vec α) (op : Op α) : Prop :=
  ∃ v' r, v.call M op = some (v', r) ∧ Effect M v op v' r

/-! ### Blocks -/

/-- The block begins with the items of the list. -/
structure Holds (v : Vec α) (l : List (Option α)) (rest : Cells (Option α)) : Prop where
  data : v.data = .block (Cells.filled l rest)
  size : v.size = l.length
  capacity : v.capacity = l.length + rest.length
  pos : 0 < v.capacity
  bounded : v.capacity * pointerSize < 2 ^ 63

/-- The vector has no block and no items, or it holds a list. -/
def Sound (v : Vec α) : Prop := (v.data = .null ∧ v.size = 0) ∨ ∃ l rest, v.Holds l rest

theorem Holds.seq (h : v.Holds l rest) : v.seq = l := by
  rw [Vec.seq, h.data, h.size, Data.cells, Option.getD_some, Cells.filled,
    List.take_left' (by simp)]
  show (l.map some).filterMap id = l
  simp [List.filterMap_map]

theorem seq_null (h : v.data = .null) : v.seq = [] := by
  rw [Vec.seq, h]
  show ((([] : Cells (Option α)).take v.size).filterMap id) = []
  rw [List.take_nil, List.filterMap_nil]

theorem Sound.size_le (h : v.Sound) : v.size ≤ v.capacity := by
  obtain ⟨-, hsize⟩ | ⟨l, rest, h⟩ := h
  · omega
  · rw [h.size, h.capacity]
    omega

/-- The first items that go with the cells behind them. -/
theorem Holds.of_filled (h : v.Holds l rest) (l' : List (Option α)) (rest' : Cells (Option α))
    (hlen : l'.length + rest'.length = l.length + rest.length) :
    Holds { v with data := .block (Cells.filled l' rest'), size := l'.length } l' rest' where
  data := rfl
  size := rfl
  capacity := h.capacity.trans hlen.symm
  pos := h.pos
  bounded := h.bounded

theorem Holds.ne_null (h : v.Holds l rest) : v.data ≠ .null := by
  rw [h.data]
  intro hnull
  cases hnull

/-! ### Memory -/

/-- `vec_reserve` does nothing, or makes the block larger, or does not get the memory. -/
theorem Holds.reserve_cases (h : v.Holds l rest) (hcap : cap * pointerSize < 2 ^ 64) :
    (cap ≤ v.capacity ∧ v.reserve M cap = some (v, 0)) ∨
      (v.capacity < cap ∧ M.grants (cap * pointerSize) = true ∧ ∃ v' rest',
        v.reserve M cap = some (v', 0) ∧ v'.Holds l rest' ∧ v'.capacity = cap) ∨
      (v.capacity < cap ∧ M.grants (cap * pointerSize) = false ∧
        v.reserve M cap = some (v, -1)) := by
  by_cases hle : cap ≤ v.capacity
  · exact Or.inl ⟨hle, by rw [reserve, h.data]; exact if_pos hle⟩
  · have hlt : v.capacity < cap := Nat.lt_of_not_le hle
    have hne : ¬ cap * pointerSize = 0 := by
      rw [pointerSize]
      omega
    have hlen := h.capacity
    by_cases hgrant : M.grants (cap * pointerSize) = true
    · refine Or.inr (Or.inl ⟨hlt, hgrant, { v with
        data := .block ((Cells.filled l rest).resize (cap * pointerSize / pointerSize))
        capacity := cap }, rest.resize (cap - l.length), ?_, ?_, rfl⟩)
      · rw [reserve, h.data]
        dsimp only
        rw [if_neg hle, Nat.mod_eq_of_lt hcap, if_neg hne, if_pos hgrant]
      · have hroom : l.length ≤ cap := by omega
        refine ⟨?_, h.size, ?_, Nat.zero_lt_of_lt hlt, M.bounded _ hgrant⟩
        · dsimp only
          rw [Nat.mul_div_cancel _ (by decide), Cells.resize_filled hroom]
        · dsimp only
          rw [Cells.length_resize]
          omega
    · refine Or.inr (Or.inr ⟨hlt, by simpa using hgrant, ?_⟩)
      rw [reserve, h.data]
      dsimp only
      rw [if_neg hle, Nat.mod_eq_of_lt hcap, if_neg hne, if_neg hgrant]

/-- Before an item is added there is a cell for it, or the memory is refused. -/
theorem Holds.grow_cases (h : v.Holds l rest) :
    (¬GrowthRefused M v ∧ ∃ v' c rest', v.grow M = some (v', true) ∧ v'.Holds l (c :: rest')) ∨
      (GrowthRefused M v ∧ v.grow M = some (v, false)) := by
  have hlen := h.capacity
  have hsize := h.size
  have hpos := h.pos
  have hbounded := h.bounded
  rw [pointerSize] at hbounded
  have hnull := h.ne_null
  by_cases hroom : v.capacity ≤ v.size
  · have hguard : ¬ sizeMax / 2 < v.capacity := by
      rw [sizeMax]
      omega
    have hcap : v.capacity * 2 * pointerSize < 2 ^ 64 := by
      rw [pointerSize]
      omega
    rw [grow, if_pos hroom, if_neg hguard]
    obtain ⟨hle, -⟩ | ⟨-, hgrant, v', rest', hres, hholds, hcap'⟩ | ⟨-, hgrant, hres⟩ :=
      h.reserve_cases (M := M) hcap
    · omega
    · refine Or.inl ⟨?_, v', ?_⟩
      · rintro (hbad | ⟨-, hbad | hbad⟩)
        · exact hnull hbad
        · exact hguard hbad
        · rw [hgrant] at hbad
          cases hbad
      · have hlen' := hholds.capacity
        obtain ⟨c, rest', rfl⟩ := List.exists_cons_of_length_pos (l := rest') (by omega)
        exact ⟨c, rest', by rw [hres]; rfl, hholds⟩
    · exact Or.inr ⟨Or.inr ⟨hroom, Or.inr hgrant⟩, by rw [hres]; rfl⟩
  · obtain ⟨c, rest, rfl⟩ := List.exists_cons_of_length_pos (l := rest) (by omega)
    refine Or.inl ⟨?_, v, c, rest, if_neg hroom, h⟩
    rintro (hbad | ⟨hbad, -⟩)
    · exact hnull hbad
    · exact hroom hbad

/-- The number of items in a vector fits into the range of `memmove`. -/
theorem Holds.cellsOf (h : v.Holds l rest) {n : ℕ} (hn : n ≤ l.length) : Vec.cellsOf n = n := by
  have hlen := h.capacity
  have hbounded := h.bounded
  rw [pointerSize] at hbounded
  rw [Vec.cellsOf, pointerSize, Nat.mod_eq_of_lt (by omega), Nat.mul_div_cancel _ (by decide)]

/-! ### Each call -/

theorem holds_init (hgrant : M.grants (vecInitialCapacity * pointerSize) = true) :
    (v.init M).2 = 0 ∧ (v.init M).1.Holds [] (List.replicate vecInitialCapacity none) := by
  rw [init, if_pos hgrant]
  refine ⟨rfl, rfl, rfl, rfl, ?_, ?_⟩
  · show 0 < 8
    decide
  · show 8 * 8 < 2 ^ 63
    decide

theorem Holds.push_eq (h : v.Holds l rest) {v' : Vec α} (hgrow : v.grow M = some (v', true))
    {rest' : Cells (Option α)} (h' : v'.Holds l (c :: rest')) :
    ∃ v'', v.push M x = some (v'', 0) ∧ v''.Holds (l ++ [x]) rest' := by
  have hlen := h'.capacity
  have hbounded := h'.bounded
  rw [pointerSize] at hbounded
  simp only [List.length_cons] at hlen
  have hsize : (v'.size + 1) % 2 ^ 64 = (l ++ [x]).length := by
    rw [h'.size, Nat.mod_eq_of_lt (by omega)]
    simp
  refine ⟨_, ?_, h'.of_filled (l ++ [x]) rest' (by simp; omega)⟩
  rw [push, h.data]
  simp only [hgrow, Option.bind_eq_bind, Option.bind_some, if_true, h'.data, Data.cells, h'.size,
    Cells.store_end]
  rw [← h'.size, hsize]

theorem Holds.insert_eq (h : v.Holds l rest) (hi : i ≤ l.length) {v' : Vec α}
    (hgrow : v.grow M = some (v', true)) {rest' : Cells (Option α)} (h' : v'.Holds l (c :: rest')) :
    ∃ v'', v.insert M i x = some (v'', 0) ∧ v''.Holds (l.insertIdx i x) rest' := by
  have hlen := h'.capacity
  have hbounded := h'.bounded
  rw [pointerSize] at hbounded
  simp only [List.length_cons] at hlen
  have hlen' : (l.insertIdx i x).length = l.length + 1 := List.length_insertIdx_of_le_length hi x
  have hsize : (v'.size + 1) % 2 ^ 64 = (l.insertIdx i x).length := by
    rw [h'.size, hlen', Nat.mod_eq_of_lt (by omega)]
  have hin : ¬ v.size < i := by
    rw [h.size]
    omega
  have hcells := h'.cellsOf (n := v'.size - i) (by rw [h'.size]; omega)
  have hmove : (Cells.move (Cells.filled l (c :: rest')) (i + 1) i (l.length - i)).bind
      (Cells.store · i x) = some (Cells.filled (l.insertIdx i x) rest') := Cells.insert_filled hi
  refine ⟨_, ?_, h'.of_filled (l.insertIdx i x) rest' (by simp [hlen']; omega)⟩
  rw [insert, h.data]
  simp only [if_neg hin, hgrow, Option.bind_eq_bind, Option.bind_some, if_true, h'.data, Data.cells,
    hcells]
  rw [← Option.bind_assoc, h'.size, hmove, Option.bind_some, ← h'.size, hsize]

theorem Holds.pop_nil (h : v.Holds [] rest) : v.pop = some (v, none) := by
  rw [pop, h.data]
  exact if_pos h.size

theorem Holds.pop_append (h : v.Holds (l ++ [x]) rest) :
    ∃ v', v.pop = some (v', x) ∧ v'.Holds l (some x :: rest) := by
  have hsize : v.size = l.length + 1 := by simpa using h.size
  have hload : Cells.load (Cells.filled (l ++ [x]) rest) l.length = some x := by
    rw [Cells.load_filled (by simp)]
    simp
  refine ⟨{ v with size := v.size - 1 }, ?_, ?_, ?_, ?_, h.pos, h.bounded⟩
  · rw [pop, h.data]
    dsimp only
    rw [if_neg (by omega), hsize, Nat.add_sub_cancel]
    simp only [Data.cells, Option.bind_eq_bind, Option.bind_some, hload]
  · show v.data = _
    rw [h.data]
    simp [Cells.filled]
  · show v.size - 1 = l.length
    omega
  · have hlen := h.capacity
    simp only [List.length_append, List.length_cons, List.length_nil] at hlen ⊢
    omega

theorem Holds.get_eq (h : v.Holds l rest) (hi : i < l.length) : v.get i = some l[i] := by
  have hin : ¬ v.size ≤ i := by
    rw [h.size]
    omega
  rw [get, h.data]
  simp only [if_neg hin, Data.cells, Option.bind_eq_bind, Option.bind_some, Cells.load_filled hi,
    List.getElem?_eq_getElem hi]

theorem Holds.set_eq (h : v.Holds l rest) (hi : i < l.length) :
    ∃ v', v.set i x = some (v', l[i]) ∧ v'.Holds (l.set i x) rest := by
  have hin : ¬ v.size ≤ i := by
    rw [h.size]
    omega
  have hsize : v.size = (l.set i x).length := by rw [h.size, List.length_set]
  refine ⟨_, ?_, h.of_filled (l.set i x) rest (by simp)⟩
  rw [set, h.data]
  simp only [if_neg hin, Data.cells, Option.bind_eq_bind, Option.bind_some, Cells.load_filled hi,
    List.getElem?_eq_getElem hi, Cells.store_filled hi]
  rw [← hsize]

theorem Holds.remove_eq (h : v.Holds l rest) (hi : i < l.length) :
    ∃ v', v.remove i = some (v', l[i]) ∧ v'.Holds (l.eraseIdx i) (l.getLast? :: rest) := by
  have hin : ¬ v.size ≤ i := by
    rw [h.size]
    omega
  have hlen : (l.eraseIdx i).length = l.length - 1 := List.length_eraseIdx_of_lt hi
  have hsize : v.size - 1 = (l.eraseIdx i).length := by rw [h.size, hlen]
  have hcells := h.cellsOf (n := v.size - i - 1) (by rw [h.size]; omega)
  refine ⟨_, ?_, h.of_filled (l.eraseIdx i) (l.getLast? :: rest) (by
    simp only [List.length_cons, hlen]
    omega)⟩
  rw [remove, h.data]
  simp only [if_neg hin, Data.cells, Option.bind_eq_bind, Option.bind_some, Cells.load_filled hi,
    List.getElem?_eq_getElem hi, hcells]
  rw [h.size, Cells.erase_filled hi, Option.bind_some, ← h.size, hsize]

theorem Holds.clear (h : v.Holds l rest) : v.clear.Holds [] (l.map some ++ rest) := by
  have hclear : v.clear = { v with size := 0 } := by
    rw [Vec.clear, h.data]
  rw [hclear]
  refine ⟨?_, rfl, ?_, h.pos, h.bounded⟩
  · show v.data = _
    rw [h.data]
    simp [Cells.filled]
  · have hlen := h.capacity
    simpa using hlen

/-- `vec_reserve` of a number of pointers that is too large, where the memory is refused. -/
theorem Holds.reserve_refused (h : v.Holds l rest) (hlt : v.capacity < cap)
    (hne : cap * pointerSize % 2 ^ 64 ≠ 0)
    (hgrant : M.grants (cap * pointerSize % 2 ^ 64) = false) : v.reserve M cap = some (v, -1) := by
  rw [reserve, h.data]
  dsimp only
  rw [if_neg (by omega), if_neg hne, if_neg (ne_true_of_eq_false hgrant)]

/-! ### Sequences of calls -/

/-- Where a call needs care: `vec_init` gets its block, or nothing is stored; and `vec_reserve` is asked
for a number of pointers whose bytes a `size_t` can count, or does not ask for memory or get any. -/
def Careful (a : Memory × Op α) (v : Vec α) : Prop :=
  match a.2 with
  | .init => a.1.grants (vecInitialCapacity * pointerSize) = true ∨ v.seq = []
  | .reserve cap =>
    v.data = .null ∨ cap.toNat ≤ v.capacity ∨ cap.toNat * pointerSize < 2 ^ 64 ∨
      (cap.toNat * pointerSize % 2 ^ 64 ≠ 0 ∧
        a.1.grants (cap.toNat * pointerSize % 2 ^ 64) = false)
  | _ => True

/-- The call does what it should, and leaves a vector that is sound. -/
def Good (M : Memory) (v : Vec α) (op : Op α) : Prop :=
  ∃ v' r, v.call M op = some (v', r) ∧ v'.Sound ∧ Effect M v op v' r

/-- The call is in range and gets its memory. -/
theorem Good.done {op : Op α} {r : Ret α} {l' : List (Option α)} {rest' : Cells (Option α)}
    (hcall : v.call M op = some (v', r)) (h' : v'.Holds l' rest')
    (hop : op.onList v.seq = some (l', r)) (hmem : ¬Refused M v op) : Good M v op := by
  refine ⟨v', r, hcall, Or.inr ⟨l', rest', h'⟩, ?_, ?_⟩
  · intro l₁ r₁ h₁ _
    rw [hop] at h₁
    obtain ⟨rfl, rfl⟩ := Prod.mk.inj (Option.some.inj h₁)
    exact ⟨h'.seq, rfl⟩
  · rintro (hnone | hbad)
    · rw [hop] at hnone
      cases hnone
    · exact absurd hbad hmem

/-- The call fails, and the vector is as before. -/
theorem Good.failed {op : Op α} (hv : v.Sound) (hcall : v.call M op = some (v, op.errorValue))
    (hfail : op.onList v.seq = none ∨ Refused M v op) : Good M v op := by
  refine ⟨v, _, hcall, hv, ?_, fun _ => ⟨rfl, rfl⟩⟩
  intro l' r' hop hmem
  obtain hnone | hbad := hfail
  · rw [hop] at hnone
    cases hnone
  · exact absurd hbad hmem

theorem onList_eq_none_of_le {l : List (Option α)} {n : ℕ} (h : l.length ≤ n)
    (f : Option α → List (Option α) × Ret α) : l[n]?.map f = none := by
  rw [List.getElem?_eq_none h]
  rfl

/-- A vector without a block is empty, and every call fails that needs one. -/
theorem good_of_null (hnull : v.data = .null) (hsize : v.size = 0) {op : Op α}
    (hc : Careful (M, op) v) : Good M v op := by
  have hv : v.Sound := Or.inl ⟨hnull, hsize⟩
  have hseq : v.seq = [] := seq_null hnull
  -- `vec_init` alone can end with a block
  cases op with
  | init =>
    by_cases hgrant : M.grants (vecInitialCapacity * pointerSize) = true
    · obtain ⟨hret, hholds⟩ := holds_init (v := v) hgrant
      have hcall : v.call M .init = some ((v.init M).1, .code 0) := by rw [call, hret]
      exact Good.done hcall hholds rfl (by simp [Refused, hgrant])
    · have hcall : v.call M .init = some (v, .code (-1)) := by
        rw [call, init, if_neg hgrant, ← hnull]
      exact Good.failed hv hcall (Or.inr (by simpa [Refused] using hgrant))
  | push item =>
    have hcall : v.call M (.push item) = some (v, .code (-1)) := by
      rw [call, push, hnull]
      rfl
    exact Good.failed hv hcall (Or.inr (Or.inl hnull))
  | pop =>
    have hcall : v.call M .pop = some (v, .item none) := by
      rw [call, pop, hnull]
      rfl
    exact Good.failed hv hcall (Or.inl (by rw [hseq]; rfl))
  | insert index item =>
    have hcall : v.call M (.insert index item) = some (v, .code (-1)) := by
      rw [call, insert, hnull]
      rfl
    exact Good.failed hv hcall (Or.inr (Or.inl hnull))
  | remove index =>
    have hcall : v.call M (.remove index) = some (v, .item none) := by
      rw [call, remove, hnull]
      rfl
    exact Good.failed hv hcall (Or.inl (by rw [hseq]; rfl))
  | set index item =>
    have hcall : v.call M (.set index item) = some (v, .item none) := by
      rw [call, set, hnull]
      rfl
    exact Good.failed hv hcall (Or.inl (by rw [hseq]; rfl))
  | get index =>
    have hcall : v.call M (.get index) = some (v, .item none) := by
      rw [call, get, hnull]
      rfl
    exact Good.failed hv hcall (Or.inl (by rw [hseq]; rfl))
  | reserve cap =>
    have hcall : v.call M (.reserve cap) = some (v, .code (-1)) := by
      rw [call, reserve, hnull]
      rfl
    exact Good.failed hv hcall (Or.inr (Or.inl hnull))
  | clear =>
    have hclear : v.clear = v := by rw [Vec.clear, hnull]
    refine ⟨v, .void, by rw [call, hclear], hv, ?_, fun _ => ⟨rfl, rfl⟩⟩
    rintro l' r' hop -
    obtain ⟨rfl, rfl⟩ := Prod.mk.inj (Option.some.inj hop)
    exact ⟨hseq, rfl⟩

theorem Holds.good_init (h : v.Holds l rest) (hc : Careful (M, .init) v) :
    Good M v .init := by
  have hseq : v.seq = l := h.seq
  have hsize : v.size = l.length := h.size
  by_cases hgrant : M.grants (vecInitialCapacity * pointerSize) = true
  · obtain ⟨hret, hholds⟩ := holds_init (v := v) hgrant
    have hcall : v.call M .init = some ((v.init M).1, .code 0) := by rw [call, hret]
    exact Good.done hcall hholds rfl (by simp [Refused, hgrant])
  · -- the block is lost, and with it nothing
    have hnil : v.seq = [] := Or.resolve_left hc hgrant
    have hzero : v.size = 0 := by rw [hsize, ← hseq, hnil]; rfl
    refine ⟨{ v with data := .null }, .code (-1), ?_, Or.inl ⟨rfl, hzero⟩, ?_, fun _ => ⟨?_, rfl⟩⟩
    · rw [call, init, if_neg hgrant]
    · intro l' r' _ hmem
      exact absurd (by simpa [Refused] using hgrant) hmem
    · rw [hnil]
      exact seq_null rfl

theorem Holds.good_push (h : v.Holds l rest) (item : Option α) :
    Good M v (.push item) := by
  have hv : v.Sound := Or.inr ⟨l, rest, h⟩
  have hseq : v.seq = l := h.seq
  obtain ⟨hmem, v', c, rest', hgrow, h'⟩ | ⟨hmem, hgrow⟩ := h.grow_cases (M := M)
  · obtain ⟨v'', hpush, h''⟩ := h.push_eq (x := item) hgrow h'
    have hcall : v.call M (.push item) = some (v'', .code 0) := by
      rw [call, hpush]
      rfl
    exact Good.done hcall h'' (by rw [hseq]; rfl) hmem
  · have hcall : v.call M (.push item) = some (v, .code (-1)) := by
      rw [call, push, h.data]
      simp [hgrow]
    exact Good.failed hv hcall (Or.inr hmem)

theorem Holds.good_pop (h : v.Holds l rest) :
    Good M v .pop := by
  have hv : v.Sound := Or.inr ⟨l, rest, h⟩
  have hseq : v.seq = l := h.seq
  obtain rfl | ⟨l, x, rfl⟩ := List.eq_nil_or_concat' l
  · have hcall : v.call M .pop = some (v, .item none) := by
      rw [call, h.pop_nil]
      rfl
    exact Good.failed hv hcall (Or.inl (by rw [hseq]; rfl))
  · obtain ⟨v', hpop, h'⟩ := h.pop_append
    have hcall : v.call M .pop = some (v', .item x) := by
      rw [call, hpop]
      rfl
    exact Good.done hcall h' (by simp [Op.onList, hseq]) id

theorem Holds.good_insert (h : v.Holds l rest) (index : UInt64) (item : Option α) :
    Good M v (.insert index item) := by
  have hv : v.Sound := Or.inr ⟨l, rest, h⟩
  have hseq : v.seq = l := h.seq
  have hsize : v.size = l.length := h.size
  by_cases hi : index.toNat ≤ l.length
  · obtain ⟨hmem, v', c, rest', hgrow, h'⟩ | ⟨hmem, hgrow⟩ := h.grow_cases (M := M)
    · obtain ⟨v'', hins, h''⟩ := h.insert_eq (x := item) hi hgrow h'
      have hcall : v.call M (.insert index item) = some (v'', .code 0) := by
        rw [call, hins]
        rfl
      exact Good.done hcall h'' (by rw [hseq]; exact if_pos hi) hmem
    · have hcall : v.call M (.insert index item) = some (v, .code (-1)) := by
        have hin : ¬ v.size < index.toNat := by omega
        rw [call, insert, h.data]
        simp [hgrow, hin]
      exact Good.failed hv hcall (Or.inr hmem)
  · have hcall : v.call M (.insert index item) = some (v, .code (-1)) := by
      have hin : v.size < index.toNat := by omega
      rw [call, insert, h.data]
      simp [hin]
    exact Good.failed hv hcall (Or.inl (by rw [hseq]; exact if_neg hi))

theorem Holds.good_remove (h : v.Holds l rest) (index : UInt64) :
    Good M v (.remove index) := by
  have hv : v.Sound := Or.inr ⟨l, rest, h⟩
  have hseq : v.seq = l := h.seq
  have hsize : v.size = l.length := h.size
  by_cases hi : index.toNat < l.length
  · obtain ⟨v', hrem, h'⟩ := h.remove_eq hi
    have hcall : v.call M (.remove index) = some (v', .item l[index.toNat]) := by
      rw [call, hrem]
      rfl
    exact Good.done hcall h' (by simp [Op.onList, hseq, List.getElem?_eq_getElem hi]) id
  · have hcall : v.call M (.remove index) = some (v, .item none) := by
      have hin : v.size ≤ index.toNat := by omega
      rw [call, remove, h.data]
      simp [hin]
    exact Good.failed hv hcall
      (Or.inl (by rw [hseq]; exact onList_eq_none_of_le (Nat.le_of_not_lt hi) _))

theorem Holds.good_set (h : v.Holds l rest) (index : UInt64) (item : Option α) :
    Good M v (.set index item) := by
  have hv : v.Sound := Or.inr ⟨l, rest, h⟩
  have hseq : v.seq = l := h.seq
  have hsize : v.size = l.length := h.size
  by_cases hi : index.toNat < l.length
  · obtain ⟨v', hset, h'⟩ := h.set_eq (x := item) hi
    have hcall : v.call M (.set index item) = some (v', .item l[index.toNat]) := by
      rw [call, hset]
      rfl
    exact Good.done hcall h' (by simp [Op.onList, hseq, List.getElem?_eq_getElem hi]) id
  · have hcall : v.call M (.set index item) = some (v, .item none) := by
      have hin : v.size ≤ index.toNat := by omega
      rw [call, set, h.data]
      simp [hin]
    exact Good.failed hv hcall
      (Or.inl (by rw [hseq]; exact onList_eq_none_of_le (Nat.le_of_not_lt hi) _))

theorem Holds.good_get (h : v.Holds l rest) (index : UInt64) :
    Good M v (.get index) := by
  have hv : v.Sound := Or.inr ⟨l, rest, h⟩
  have hseq : v.seq = l := h.seq
  have hsize : v.size = l.length := h.size
  by_cases hi : index.toNat < l.length
  · have hcall : v.call M (.get index) = some (v, .item l[index.toNat]) := by
      rw [call, h.get_eq hi]
      rfl
    exact Good.done hcall h (by simp [Op.onList, hseq, List.getElem?_eq_getElem hi]) id
  · have hcall : v.call M (.get index) = some (v, .item none) := by
      have hin : v.size ≤ index.toNat := by omega
      rw [call, get, h.data]
      simp [hin]
    exact Good.failed hv hcall
      (Or.inl (by rw [hseq]; exact onList_eq_none_of_le (Nat.le_of_not_lt hi) _))

theorem Holds.good_reserve (h : v.Holds l rest) (cap : UInt64) (hc : Careful (M, .reserve cap) v) :
    Good M v (.reserve cap) := by
  have hv : v.Sound := Or.inr ⟨l, rest, h⟩
  have hseq : v.seq = l := h.seq
  have hnull : v.data ≠ .null := h.ne_null
  by_cases hle : cap.toNat ≤ v.capacity
  · have hcall : v.call M (.reserve cap) = some (v, .code 0) := by
      rw [call, reserve, h.data]
      simp [hle]
    refine Good.done hcall h (by rw [hseq]; rfl) ?_
    rintro (hbad | ⟨hbad, -⟩)
    · exact hnull hbad
    · omega
  · by_cases hcap : cap.toNat * pointerSize < 2 ^ 64
    · obtain ⟨hbad, -⟩ | ⟨-, hgrant, v', rest', hres, h', -⟩ | ⟨hlt, hgrant, hres⟩ :=
        h.reserve_cases (M := M) hcap
      · exact absurd hbad hle
      · have hcall : v.call M (.reserve cap) = some (v', .code 0) := by
          rw [call, hres]
          rfl
        refine Good.done hcall h' (by rw [hseq]; rfl) ?_
        rintro (hbad | ⟨-, hbad⟩)
        · exact hnull hbad
        · rw [hgrant] at hbad
          cases hbad
      · have hcall : v.call M (.reserve cap) = some (v, .code (-1)) := by
          rw [call, hres]
          rfl
        exact Good.failed hv hcall (Or.inr (Or.inr ⟨hlt, hgrant⟩))
    · -- no memory has so many bytes
      have hlt : v.capacity < cap.toNat := by omega
      obtain ⟨hne, hgrant⟩ := ((Or.resolve_left hc hnull).resolve_left hle).resolve_left hcap
      have hnone : M.grants (cap.toNat * pointerSize) = false := by
        by_contra hbad
        have hsmall := M.bounded _ (by simpa using hbad)
        omega
      have hcall : v.call M (.reserve cap) = some (v, .code (-1)) := by
        rw [call, h.reserve_refused hlt hne hgrant]
        rfl
      exact Good.failed hv hcall (Or.inr (Or.inr ⟨hlt, hnone⟩))

theorem Holds.good_clear (h : v.Holds l rest) :
    Good M v .clear := by
  have hseq : v.seq = l := h.seq
  have hcall : v.call M .clear = some (v.clear, .void) := rfl
  exact Good.done hcall h.clear (by rw [hseq]; rfl) id

/-- A vector with a block does what it should. -/
theorem Holds.good (h : v.Holds l rest) {op : Op α} (hc : Careful (M, op) v) : Good M v op := by
  cases op with
  | init => exact h.good_init hc
  | push item => exact h.good_push item
  | pop => exact h.good_pop
  | insert index item => exact h.good_insert index item
  | remove index => exact h.good_remove index
  | set index item => exact h.good_set index item
  | get index => exact h.good_get index
  | reserve cap => exact h.good_reserve cap hc
  | clear => exact h.good_clear

theorem Sound.good (hv : v.Sound) {op : Op α} (hc : Careful (M, op) v) : Good M v op := by
  obtain ⟨hnull, hsize⟩ | ⟨l, rest, h⟩ := hv
  · exact good_of_null hnull hsize hc
  · exact h.good hc

theorem Sound.step (hv : v.Sound) {a : Memory × Op α} (hc : Careful a v) (h : Step v a v') :
    v'.Sound := by
  obtain ⟨r, hcall⟩ := h
  obtain ⟨w, r', hcall', hw, -⟩ := hv.good hc
  obtain ⟨rfl, -⟩ := Prod.mk.inj (Option.some.inj (hcall.symm.trans hcall'))
  exact hw

/-- **A vector refines a list.**  After any calls of a vector that was null, as long as they are made
with care, it has no more items than capacity, and the next call does to the stored sequence what it
does to a list, or fails and leaves it as it was. -/
theorem vec_refines (h : Run Step Careful ({} : Vec α) v) :
    v.size ≤ v.capacity ∧ ∀ M op, Careful (M, op) v → Meets M v op := by
  have hv : v.Sound := h.invariant (Or.inl ⟨rfl, rfl⟩) fun hs hok hst => hs.step hok hst
  refine ⟨hv.size_le, fun M op hc => ?_⟩
  obtain ⟨v', r, hcall, -, heffect⟩ := hv.good hc
  exact ⟨v', r, hcall, heffect⟩

/-- Memory that grants whatever an object may have. -/
def ample : Memory where
  grants n := n < 2 ^ 63
  bounded n h := by simpa using h

/-- Memory that grants nothing. -/
def exhausted : Memory where
  grants _ := false
  bounded _ h := by cases h

/-- A vector that has been initialised. -/
def started : Vec ℕ where
  data := .block (List.replicate 8 none)
  capacity := 8

/-- A vector with some items in its first block. -/
def filledWith (l : List (Option ℕ)) : Vec ℕ where
  data := .block (Cells.filled l (List.replicate (8 - l.length) none))
  size := l.length
  capacity := 8

/-- A vector with two items and room for one. -/
def shrunk : Vec ℕ where
  data := .block [some (some 7)]
  size := 2
  capacity := 2305843009213693953

variable {ok : Memory × Op ℕ → Vec ℕ → Prop}

theorem run_single (hinit : ok (ample, .init) {}) (hpush : ok (ample, .push (some 7)) started) :
    Run Step ok {} (filledWith [some 7]) :=
  have hstarted : Run Step ok {} started := .next .start hinit ⟨.code 0, rfl⟩
  hstarted.next hpush ⟨.code 0, rfl⟩

/-- A vector with one item, in memory that is exhausted. -/
theorem item_read : (filledWith [some 7]).size ≤ (filledWith [some 7]).capacity ∧
    Meets exhausted (filledWith [some 7]) (.get 0) :=
  ⟨(vec_refines (run_single (Or.inl rfl) trivial)).1,
    (vec_refines (run_single (Or.inl rfl) trivial)).2 exhausted (.get 0) trivial⟩

/-- A vector with one item that is initialised again without memory; and one with two items for which
room for `2 ^ 61 + 1` pointers is reserved, which leaves a block of eight bytes. -/
theorem items_lost : ¬(∀ v, Run Step (fun _ _ => True) ({} : Vec ℕ) v → Meets exhausted v .init) ∧
    ¬(∀ v, Run Step (fun _ _ => True) ({} : Vec ℕ) v → Meets ample v (.get 1)) := by
  have hsingle : Run Step (fun _ _ => True) ({} : Vec ℕ) (filledWith [some 7]) :=
    run_single trivial trivial
  constructor
  · intro hall
    obtain ⟨v', r, hcall, heffect⟩ := hall _ hsingle
    obtain ⟨rfl, rfl⟩ := Prod.mk.inj (Option.some.inj hcall)
    have hseq := (heffect.failed (Or.inr rfl)).1
    revert hseq
    decide
  · intro hall
    have hpair : Run Step (fun _ _ => True) ({} : Vec ℕ) (filledWith [some 7, some 8]) :=
      hsingle.next (l := (ample, .push (some 8))) trivial ⟨.code 0, rfl⟩
    have hshrunk : Run Step (fun _ _ => True) ({} : Vec ℕ) shrunk :=
      hpair.next (l := (ample, .reserve 2305843009213693953)) trivial ⟨.code 0, rfl⟩
    obtain ⟨v', r, hcall, -⟩ := hall _ hshrunk
    have hnone : shrunk.call ample (.get 1) = none := rfl
    rw [hnone] at hcall
    cases hcall

end Vec

end TaskSpooler
