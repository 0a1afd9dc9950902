import Mathlib.Algebra.Order.Group.Nat
import Mathlib.Data.List.Forall2
import Mathlib.Data.List.GetD

/-!
# Machine integers in memory

Words are stored with the low byte first.  `int32At mem i` is the `int` at the address `i`; it is
what has been stored there (`int32At_append`), and it does not grow if bytes are lowered
(`toNat_int32At_le`), as happens when only the front of a buffer of zeros is written.
-/

namespace TaskSpooler

/-! ### Words -/

/-- The low `n` bytes of a number, least significant first. -/
def leBytes : ℕ → ℕ → List UInt8
  | 0, _ => []
  | n + 1, k => UInt8.ofNat (k % 256) :: leBytes n (k / 256)

/-- The number that the bytes spell. -/
def leValue : List UInt8 → ℕ
  | [] => 0
  | b :: bs => b.toNat + 256 * leValue bs

@[simp] theorem length_leBytes (n k : ℕ) : (leBytes n k).length = n := by
  induction n generalizing k with
  | zero => rfl
  | succ n ih => simp [leBytes, ih]

theorem leValue_leBytes (n k : ℕ) : leValue (leBytes n k) = k % 256 ^ n := by
  induction n generalizing k with
  | zero => simp [leBytes, leValue, Nat.mod_one]
  | succ n ih =>
    have hbyte : (UInt8.ofNat (k % 256)).toNat = k % 256 := by simp
    rw [leBytes, leValue, ih, hbyte, Nat.pow_succ, Nat.mul_comm (256 ^ n) 256, Nat.mod_mul]

/-- Lower bytes spell a smaller number. -/
theorem leValue_le {l l' : List UInt8} (h : List.Forall₂ (· ≤ ·) l l') : leValue l ≤ leValue l' := by
  induction h with
  | nil => exact le_rfl
  | cons hb _ ih => exact Nat.add_le_add (UInt8.le_iff_toNat_le.1 hb) (Nat.mul_le_mul_left 256 ih)

theorem leValue_lt (l : List UInt8) : leValue l < 256 ^ l.length := by
  induction l with
  | nil => exact Nat.one_pos
  | cons b bs ih =>
    have hb := b.toNat_lt
    rw [leValue, List.length_cons, Nat.pow_succ]
    omega

/-- The bytes of a word. -/
def wordBytes {n : ℕ} (x : BitVec (8 * n)) : List UInt8 := leBytes n x.toNat

/-- The word of `n` bytes at an address. -/
def wordAt (n : ℕ) (mem : List UInt8) (i : ℕ) : BitVec (8 * n) :=
  BitVec.ofNat _ (leValue ((mem.drop i).take n))

theorem wordAt_zero {n : ℕ} (x : BitVec (8 * n)) (l : List UInt8) :
    wordAt n (wordBytes x ++ l) 0 = x := by
  have hlt : x.toNat < 256 ^ n := by
    have := x.isLt
    rwa [Nat.pow_mul] at this
  rw [wordAt, wordBytes, List.drop_zero, List.take_left' (length_leBytes n x.toNat),
    leValue_leBytes, Nat.mod_eq_of_lt hlt, BitVec.ofNat_toNat, BitVec.setWidth_eq]

/-! ### `int` and `long` -/

/-- The bytes of an `int`. -/
def int32Bytes (x : Int32) : List UInt8 := wordBytes (n := 4) x.toBitVec

/-- The bytes of a `long`. -/
def int64Bytes (x : Int64) : List UInt8 := wordBytes (n := 8) x.toBitVec

/-- The `int` at an address. -/
def int32At (mem : List UInt8) (i : ℕ) : Int32 := .ofBitVec (wordAt 4 mem i)

/-- The `long` at an address. -/
def int64At (mem : List UInt8) (i : ℕ) : Int64 := .ofBitVec (wordAt 8 mem i)

@[simp] theorem length_int32Bytes (x : Int32) : (int32Bytes x).length = 4 := length_leBytes 4 _

@[simp] theorem length_int64Bytes (x : Int64) : (int64Bytes x).length = 8 := length_leBytes 8 _

variable {mem mem' l : List UInt8} {i : ℕ}

@[simp] theorem int32At_zero (x : Int32) : int32At (int32Bytes x ++ l) 0 = x :=
  congrArg Int32.ofBitVec (wordAt_zero (n := 4) x.toBitVec l)

@[simp] theorem int64At_zero (x : Int64) : int64At (int64Bytes x ++ l) 0 = x :=
  congrArg Int64.ofBitVec (wordAt_zero (n := 8) x.toBitVec l)

@[simp] theorem int32At_self (x : Int32) : int32At (int32Bytes x) 0 = x := by
  simpa using int32At_zero (l := []) x

@[simp] theorem int64At_self (x : Int64) : int64At (int64Bytes x) 0 = x := by
  simpa using int64At_zero (l := []) x

theorem wordAt_add (n : ℕ) (mem l : List UInt8) (i : ℕ) :
    wordAt n (mem ++ l) (i + mem.length) = wordAt n l i := by
  rw [wordAt, wordAt, Nat.add_comm, List.drop_append, Nat.add_sub_cancel_left,
    List.drop_eq_nil_of_le (Nat.le_add_right _ _), List.nil_append]

@[simp] theorem int32At_add (x : Int32) (i : ℕ) :
    int32At (int32Bytes x ++ l) (i + 4) = int32At l i := by
  have h := wordAt_add 4 (int32Bytes x) l i
  rw [length_int32Bytes] at h
  exact congrArg Int32.ofBitVec h

@[simp] theorem int64At_add (x : Int32) (i : ℕ) :
    int64At (int32Bytes x ++ l) (i + 4) = int64At l i := by
  have h := wordAt_add 8 (int32Bytes x) l i
  rw [length_int32Bytes] at h
  exact congrArg Int64.ofBitVec h

@[simp] theorem int64At_add_long (x : Int64) (i : ℕ) :
    int64At (int64Bytes x ++ l) (i + 8) = int64At l i := by
  have h := wordAt_add 8 (int64Bytes x) l i
  rw [length_int64Bytes] at h
  exact congrArg Int64.ofBitVec h

/-- An `int` that is not negative is the number its bytes spell. -/
theorem toInt_int32At (h : 0 ≤ (int32At mem i).toInt) :
    (int32At mem i).toInt = leValue ((mem.drop i).take 4) ∧
      leValue ((mem.drop i).take 4) < 2 ^ 31 := by
  have hlt : leValue ((mem.drop i).take 4) < 2 ^ 32 :=
    (leValue_lt _).trans_le (Nat.pow_le_pow_right (by decide) (List.length_take_le 4 _))
  have hval : (int32At mem i).toInt =
      (BitVec.ofNat 32 (leValue ((mem.drop i).take 4))).toInt := Int32.toInt_ofBitVec _
  rw [hval, BitVec.toInt_eq_toNat_cond, BitVec.toNat_ofNat, Nat.mod_eq_of_lt hlt] at h ⊢
  split_ifs at h ⊢ <;> omega

/-- An `int` that is not negative does not grow, and does not become negative, when bytes are
lowered. -/
theorem toNat_int32At_le (hmem : List.Forall₂ (· ≤ ·) mem' mem) (h : 0 ≤ (int32At mem i).toInt) :
    0 ≤ (int32At mem' i).toInt ∧ (int32At mem' i).toInt ≤ (int32At mem i).toInt := by
  have hle : leValue ((mem'.drop i).take 4) ≤ leValue ((mem.drop i).take 4) :=
    leValue_le (List.forall₂_take 4 (List.forall₂_drop i hmem))
  obtain ⟨hval, hlt⟩ := toInt_int32At h
  have hval' : (int32At mem' i).toInt =
      (BitVec.ofNat 32 (leValue ((mem'.drop i).take 4))).toInt := Int32.toInt_ofBitVec _
  rw [BitVec.toInt_eq_toNat_cond, BitVec.toNat_ofNat, Nat.mod_eq_of_lt (by omega),
    if_pos (by omega)] at hval'
  omega

/-! ### Buffers -/

/-- A buffer of `n` bytes whose front has been written; behind it is what was there before. -/
def filled (n : ℕ) (front : List UInt8) (before : ℕ → UInt8) : List UInt8 :=
  (List.range n).map fun i => front.getD i (before i)

/-- The `int`s of a buffer. -/
def int32s (n : ℕ) (mem : List UInt8) : List Int32 := (List.range n).map fun i => int32At mem (4 * i)

@[simp] theorem length_filled (n : ℕ) (front : List UInt8) (before : ℕ → UInt8) :
    (filled n front before).length = n := by
  rw [filled, List.length_map, List.length_range]

/-- A buffer that has been written completely. -/
theorem filled_whole {n : ℕ} {before : ℕ → UInt8} (h : mem.length = n) : filled n mem before = mem := by
  subst h
  refine List.ext_getElem (length_filled _ _ _) fun i h₁ h₂ => ?_
  simp [filled, h₂]

/-- A buffer of zeros of which only the front has been written. -/
theorem filled_take_le (k : ℕ) :
    List.Forall₂ (· ≤ ·) (filled mem.length (mem.take k) fun _ => 0) mem := by
  refine List.forall₂_iff_get.2 ⟨length_filled _ _ _, fun i h₁ h₂ => ?_⟩
  simp only [List.get_eq_getElem, filled, List.getElem_map, List.getElem_range]
  by_cases hi : i < k
  · rw [List.getD_eq_getElem _ _ (by rw [List.length_take]; omega), List.getElem_take]
    exact UInt8.le_refl _
  · rw [List.getD_eq_default _ _ (by rw [List.length_take]; omega)]
    exact UInt8.le_iff_toNat_le.2 (Nat.zero_le _)

theorem int32s_flatMap (l : List Int32) : int32s l.length (l.flatMap int32Bytes) = l := by
  induction l with
  | nil => rfl
  | cons x l ih =>
    rw [int32s, List.length_cons, List.range_succ_eq_map, List.map_cons, List.map_map,
      List.flatMap_cons, Nat.mul_zero, int32At_zero]
    have htail : (List.range l.length).map ((fun i => int32At (int32Bytes x ++ l.flatMap int32Bytes)
        (4 * i)) ∘ Nat.succ) = int32s l.length (l.flatMap int32Bytes) := by
      refine List.map_congr_left fun i _ => ?_
      rw [Function.comp_apply, Nat.mul_succ, int32At_add]
    rw [htail, ih]

end TaskSpooler
