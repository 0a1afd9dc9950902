import TaskSpooler.Lib.Strtok
import TaskSpooler.Store.RoundTrip

/-!
# Lists of numbers as text (`ints_to_chars`, `chars_to_ints`)

`ints_to_chars` prints a list into a block of which it computes the size beforehand, with the offset
of the next number in `j`; `chars_to_ints` counts separators, and fills as many entries as `strtok`
finds tokens.  Here both are taken as they work on memory: a block has a size and a part that has been
written, and an entry that no token filled has no value.

A number takes at most eleven characters and a comma, so a block of thirteen bytes for each is more
than enough (`written_le_size`), and the numbers come back (`charsToInts_print`).  But the size is
kept in an `int`: from 165191050 numbers on it is negative, `malloc` fails, and the text is written
through a null pointer (`ints_round_trip_iff`).
-/

namespace TaskSpooler

namespace Ints

open CpuBind Sql

/-! ### Printing -/

/-- The state of the loop of `ints_to_chars`: the string in the block, `j`, and how many bytes at the
front of the block have been written. -/
structure Printed where
  text : List Char := []
  j : ℕ := 0
  written : ℕ := 1
  deriving DecidableEq

/-- `j += sprintf(tmp + j, "%d", x)`. -/
def Printed.sprintf (b : Printed) (x : Int32) : Printed where
  text := b.text.take b.j ++ decimal x.toInt
  j := b.j + (decimal x.toInt).length
  written := max b.written (b.j + (decimal x.toInt).length + 1)

/-- `strcat(tmp, delim); j += strlen(delim)`. -/
def Printed.strcat (b : Printed) (delim : List Char) : Printed where
  text := b.text ++ delim
  j := b.j + delim.length
  written := max b.written ((b.text ++ delim).length + 1)

/-- The loop of `ints_to_chars`; no separator follows the last number. -/
def printLoop (delim : List Char) : List Int32 → Printed → Printed
  | [], b => b
  | x :: rest, b =>
    printLoop delim rest (if rest.isEmpty then b.sprintf x else (b.sprintf x).strcat delim)

/-- `int size = n * 12 + n * strlen(delim) + 1`: the product of the `int`s may not overflow, and the
sum, a `size_t`, is cut to an `int`. -/
def blockSize (n delimLen : ℕ) : Option Int32 :=
  if n * 12 < 2 ^ 31 then some (Int32.ofNat (n * 12 + n * delimLen + 1)) else none

/-- `malloc(size)`.  A negative `size` becomes one that no object can have. -/
def malloc (size : Int32) : Option ℕ := if 0 ≤ size.toInt then some size.toInt.toNat else none

/-- The block that `ints_to_chars` returns, and its size; `none` if it has no block to write to. -/
def intsToChars (array : List Int32) (delim : List Char) : Option (Printed × ℕ) := do
  let size ← blockSize array.length delim.length
  let size ← malloc size
  pure (printLoop delim array {}, size)

/-! ### Reading -/

/-- `while (token != NULL) result[index++] = atoi(token)`; `none` if an entry is written that the
block does not have. -/
def fill : List (List Char) → ℕ → List (Option Int32) → Option (List (Option Int32))
  | [], _, result => some result
  | token :: tokens, index, result =>
    if index < result.length then
      fill tokens (index + 1) (result.set index (some (Int32.ofInt (atoi token))))
    else none

/-- `chars_to_ints`: one entry for each separator and one more. -/
def charsToInts (str delim : List Char) : Option (List (Option Int32)) :=
  let count := str.count (delim.headD '\x00') + 1
  -- `result[0] = '\0'`
  let result := (List.replicate count none).set 0 (some 0)
  fill (Strtok.tokens (delim.contains ·) str) 0 result

/-! ### What is printed -/

variable {l : List Int32} {b : Printed} {delim : List Char}

/-- Between two numbers `j` is the end of the string, and nothing behind it has been written. -/
structure Printed.Flush (b : Printed) : Prop where
  j : b.j = b.text.length
  written : b.written = b.text.length + 1

theorem flush_start : Printed.Flush {} := ⟨rfl, rfl⟩

theorem Printed.Flush.sprintf (h : b.Flush) (x : Int32) :
    (b.sprintf x).Flush ∧ (b.sprintf x).text = b.text ++ decimal x.toInt := by
  have htext : (b.sprintf x).text = b.text ++ decimal x.toInt := by
    rw [Printed.sprintf, h.j, List.take_length]
  refine ⟨⟨?_, ?_⟩, htext⟩
  · rw [htext, List.length_append, Printed.sprintf, h.j]
  · rw [htext, List.length_append, Printed.sprintf, h.j, h.written]
    exact max_eq_right (by omega)

theorem Printed.Flush.strcat (h : b.Flush) (delim : List Char) : (b.strcat delim).Flush := by
  constructor
  · rw [Printed.strcat, h.j, List.length_append]
  · rw [Printed.strcat, h.written, List.length_append]
    exact max_eq_right (by omega)

theorem printLoop_spec (h : b.Flush) :
    (printLoop [','] l b).Flush ∧
      (printLoop [','] l b).text = b.text ++ Sql.intsToChars l := by
  induction l using Sql.intsToChars.induct generalizing b with
  | case1 => exact ⟨h, by simp [printLoop, Sql.intsToChars]⟩
  | case2 x =>
    rw [printLoop, if_pos List.isEmpty_nil, printLoop, Sql.intsToChars]
    exact h.sprintf x
  | case3 x rest hne ih =>
    have hrest : ¬ rest.isEmpty = true := fun he => hne (List.isEmpty_iff.1 he)
    obtain ⟨hflush, htext⟩ := h.sprintf x
    have hloop := ih (hflush.strcat [','])
    rw [printLoop, if_neg hrest]
    refine ⟨hloop.1, ?_⟩
    rw [hloop.2, Printed.strcat, htext, Sql.intsToChars]
    · simp
    · exact hne

theorem length_decimal_le (x : Int32) : (decimal x.toInt).length ≤ 11 := by
  have hlow := x.le_toInt
  have hhigh := x.toInt_lt
  have hdigits : (Nat.toDigits 10 x.toInt.natAbs).length ≤ 10 := length_toDigits_le (by omega)
  unfold decimal
  split_ifs
  · rw [List.length_cons]
    omega
  · omega

/-- The text of a list with a comma behind each number but the last. -/
theorem length_intsToChars_le (l : List Int32) : (Sql.intsToChars l).length ≤ 12 * l.length := by
  induction l using Sql.intsToChars.induct with
  | case1 => simp [Sql.intsToChars]
  | case2 x =>
    have hx := length_decimal_le x
    simp only [Sql.intsToChars, List.length_singleton]
    omega
  | case3 x rest hne ih =>
    have hx := length_decimal_le x
    rw [Sql.intsToChars]
    · simp only [List.length_append, List.length_cons]
      omega
    · exact hne

/-- The loop stays within thirteen bytes for each number and the terminating null. -/
theorem written_le_size (l : List Int32) :
    (printLoop [','] l {}).written ≤ l.length * 12 + l.length * 1 + 1 := by
  obtain ⟨hflush, htext⟩ := printLoop_spec (l := l) flush_start
  have hlen := length_intsToChars_le l
  rw [hflush.written, htext, List.nil_append]
  omega

/-! ### What is read -/

/-- The tokens are written from the index on. -/
theorem fill_spec {tokens : List (List Char)} (front back : List (Option Int32))
    (h : tokens.length = back.length) :
    fill tokens front.length (front ++ back) =
      some (front ++ tokens.map fun t => some (Int32.ofInt (atoi t))) := by
  induction tokens generalizing front back with
  | nil =>
    obtain rfl := List.length_eq_zero_iff.1 h.symm
    rfl
  | cons t tokens ih =>
    cases back with
    | nil => cases h
    | cons e back =>
      have hset : (front ++ e :: back).set front.length (some (Int32.ofInt (atoi t))) =
          (front ++ [some (Int32.ofInt (atoi t))]) ++ back := by
        simp
      have hlt : front.length < (front ++ e :: back).length := by simp
      have hind : front.length + 1 = (front ++ [some (Int32.ofInt (atoi t))]).length := by simp
      rw [fill, if_pos hlt, hset, hind, ih _ _ (Nat.succ.inj h)]
      simp

/-- **The numbers come back from their text.** -/
theorem charsToInts_print (hne : l ≠ []) :
    charsToInts (Sql.intsToChars l) [','] = some (l.map some) := by
  have htokens : Strtok.tokens (fun c => [','].contains c) (Sql.intsToChars l) =
      l.map fun x => decimal x.toInt := by
    rw [intsToChars_eq]
    refine Strtok.tokens_intercalate rfl fun p hp => ?_
    obtain ⟨x, -, rfl⟩ := List.mem_map.1 hp
    refine ⟨decimal_ne_nil x.toInt, fun c hc => ?_⟩
    have hcomma : c ≠ ',' := fun he => notMem_decimal x.toInt rfl (by decide) (he ▸ hc)
    simpa using hcomma
  have hlen : (l.map fun x => decimal x.toInt).length =
      ((List.replicate l.length none).set 0 (some (0 : Int32))).length := by simp
  have hfill := fill_spec [] _ hlen
  simp only [charsToInts, List.headD_cons, count_intsToChars hne, htokens]
  rw [List.nil_append, List.nil_append, List.length_nil] at hfill
  rw [hfill, List.map_map]
  simp [Function.comp_def, atoi_decimal]

/-! ### The size of the block -/

/-- The list is printed within the block and read back as it was. -/
def RoundTrips (l : List Int32) : Prop :=
  ∃ b size, intsToChars l [','] = some (b, size) ∧ b.written ≤ size ∧
    charsToInts b.text [','] = some (l.map some)

theorem blockSize_of_le (h : l.length ≤ 165191049) :
    blockSize l.length 1 = some (Int32.ofNat (l.length * 12 + l.length * 1 + 1)) :=
  if_pos (by omega)

/-- For a longer list the size is negative, if it is defined at all. -/
theorem intsToChars_of_gt (h : 165191049 < l.length) : intsToChars l [','] = none := by
  rw [intsToChars, List.length_singleton]
  by_cases hn : l.length * 12 < 2 ^ 31
  · have hneg : ¬ 0 ≤ (Int32.ofNat (l.length * 12 + l.length * 1 + 1)).toInt := by
      have hmod : (l.length * 12 + l.length * 1 + 1) % 4294967296 =
          l.length * 12 + l.length * 1 + 1 := Nat.mod_eq_of_lt (by omega)
      rw [Int32.toInt_ofNat', Int.bmod_def, show Int32.size = 4294967296 from rfl,
        ← Int.natCast_mod, hmod]
      split_ifs <;> omega
    rw [blockSize, if_pos hn, Option.bind_eq_bind, Option.bind_some, malloc, if_neg hneg]
    rfl
  · rw [blockSize, if_neg hn]
    rfl

theorem intsToChars_of_le (h : l.length ≤ 165191049) :
    intsToChars l [','] =
      some (printLoop [','] l {}, l.length * 12 + l.length * 1 + 1) := by
  have hsize : (Int32.ofNat (l.length * 12 + l.length * 1 + 1)).toInt =
      ((l.length * 12 + l.length * 1 + 1 : ℕ) : ℤ) := Int32.toInt_ofNat_of_lt (by omega)
  rw [intsToChars, List.length_singleton, blockSize_of_le h, Option.bind_eq_bind, Option.bind_some,
    malloc, if_pos (by omega), hsize]
  rfl

/-- **Exactly the lists of up to 165191049 numbers survive** being written and read: the block is
then large enough, and above it the `int` that holds its size is not. -/
theorem ints_round_trip_iff (l : List Int32) (hne : l ≠ []) :
    RoundTrips l ↔ l.length ≤ 165191049 := by
  constructor
  · rintro ⟨b, size, hprint, -⟩
    by_contra hlen
    rw [intsToChars_of_gt (by omega)] at hprint
    cases hprint
  · intro hlen
    obtain ⟨-, htext⟩ := printLoop_spec (l := l) flush_start
    refine ⟨_, _, intsToChars_of_le hlen, written_le_size l, ?_⟩
    rw [htext, List.nil_append, charsToInts_print hne]

theorem extreme_ints_round_trip : RoundTrips [-2147483648, 0, 2147483647] :=
  (ints_round_trip_iff [-2147483648, 0, 2147483647] (by decide)).2 (by decide)

/-- A list that is too long: `ints_to_chars` gets no block for it. -/
theorem long_list_not_printed : ¬ RoundTrips (List.replicate 165191050 7) := by
  rintro ⟨b, size, hprint, -⟩
  rw [intsToChars_of_gt (by rw [List.length_replicate]; omega)] at hprint
  cases hprint

end Ints

end TaskSpooler
