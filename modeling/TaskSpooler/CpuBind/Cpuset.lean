import TaskSpooler.CpuBind.Basic
import Mathlib.Data.List.DropRight

/-!
# The text of `cpuset.cpus` and `cpuset.mems`

The server writes an allocation to the cgroup of its job as text (`cpu_bind_format_cpus`,
`cpu_bind_format_mems`) and reads it back after a restart (`cpu_bind_parse_cpuset`,
`parse_mems`).  `parseCpuset_formatCpus` is the round trip of the CPU list.

The parser does not advance over a character that is neither a digit nor a separator, so it may
loop forever; it is modelled with one unit of fuel for every character, and `hang` is the outcome
when a unit is left over.
-/

namespace TaskSpooler

namespace CpuBind

/-! ### Writing -/

/-- The loop of `cpu_bind_format_cpus` with a buffer of `sz` bytes. -/
def formatLoop (sz : ℕ) : List ℕ → List Char → List Char
  | [], buf => buf
  | cpu :: rest, buf =>
    if buf.length < sz - 1 then
      let text := (if buf.isEmpty then [] else [',']) ++ Nat.toDigits 10 cpu
      if sz - 1 ≤ buf.length + text.length then buf else formatLoop sz rest (buf ++ text)
    else buf

/-- `cpu_bind_format_cpus`. -/
def formatCpus (cpus : List ℕ) : List Char := formatLoop (cpus.length * 12 + 1) cpus []

/-- The loop of `cpu_bind_format_mems` over the bits of `mem_nodes`. -/
def memsLoop (memNodes : ℕ) : List ℕ → List Char → List Char
  | [], buf => buf
  | b :: rest, buf =>
    if buf.length < 126 then
      if memNodes.testBit b then
        let buf := if buf.isEmpty then buf else buf ++ [',']
        let text := Nat.toDigits 10 b
        if 126 ≤ buf.length + text.length then buf else memsLoop memNodes rest (buf ++ text)
      else memsLoop memNodes rest buf
    else buf

/-- `cpu_bind_format_mems`. -/
def formatMems (T : Topology) (a : CpuAlloc) : List Char :=
  if 0 ≤ a.primaryNode then Nat.toDigits 10 a.primaryNode.toNat
  else memsLoop a.memNodes (List.range T.nodes.length) []

/-! ### Reading -/

/-- How `cpu_bind_parse_cpuset` can fail: it returns `-1`, or it does not return. -/
inductive CpusetError
  | invalid
  | hang
  deriving DecidableEq, Repr

/-- The digits at the head of the text, as a number, and the rest of the text. -/
def parseNum (cs : List Char) : ℕ × List Char :=
  (Nat.ofDigitChars 10 (cs.takeWhile Char.isDigit) 0, cs.dropWhile Char.isDigit)

/-- One step `n = n * 10 + (*p - '0')` of a scan into an `int`, which wraps around. -/
def stepInt (n : ℤ) (c : Char) : ℤ := (n * 10 + (c.toNat - '0'.toNat : ℕ)).bmod (2 ^ 32)

/-- The digits at the head of the text, as an `int`, and the rest of the text. -/
def parseInt (cs : List Char) : ℤ × List Char :=
  ((cs.takeWhile Char.isDigit).foldl stepInt 0, cs.dropWhile Char.isDigit)

/-- The `while (*p)` loop of `cpu_bind_parse_cpuset` with the CPUs read so far. -/
def parseLoop (maxOsCpu maxCpus fuel : ℕ) (cs : List Char) (cpus : List ℕ) :
    Except CpusetError (List ℕ) :=
  match cs.dropWhile fun c => c = ' ' ∨ c = ',', fuel with
  | [], _ => .ok cpus
  | _ :: _, 0 => .error .hang
  | c :: cs, fuel + 1 =>
    let (start, rest) := parseInt (c :: cs)
    if start < 0 ∨ maxOsCpu ≤ start then .error .invalid
    else
      match rest with
      | '-' :: rest =>
        let (stop, rest) := parseInt rest
        if maxOsCpu ≤ stop ∨ stop < start then .error .invalid
        else
          parseLoop maxOsCpu maxCpus fuel rest
            (cpus ++ (List.range' start.toNat (stop + 1 - start).toNat).take (maxCpus - cpus.length))
      | rest =>
        parseLoop maxOsCpu maxCpus fuel rest
          (if cpus.length < maxCpus then cpus ++ [start.toNat] else cpus)

/-- `cpu_bind_parse_cpuset`. -/
def parseCpuset (maxOsCpu maxCpus : ℕ) (cs : List Char) : Except CpusetError (List ℕ) :=
  if cs = [] then .error .invalid else parseLoop maxOsCpu maxCpus cs.length cs []

/-- `atoi`: spaces, a sign, digits. -/
def atoi (cs : List Char) : ℤ :=
  match cs.dropWhile fun c => c = ' ' ∨ c = '\t' ∨ c = '\n' with
  | '-' :: cs => -((parseNum cs).1 : ℤ)
  | '+' :: cs => (parseNum cs).1
  | cs => (parseNum cs).1

/-- The non-empty pieces between commas, as `strtok` delivers them. -/
def strtokComma (cs : List Char) : List (List Char) :=
  (cs.splitOn ',').filter fun piece => !piece.isEmpty

/-- `parse_mems`: the primary node and the bitmap of nodes. -/
def parseMems (T : Topology) (cs : List Char) : ℤ × ℕ :=
  (strtokComma (cs.take 127)).foldl (fun (primary, bitmap) piece =>
    let n := atoi piece
    if 0 ≤ n ∧ n < T.nodes.length then
      (if primary < 0 then n else primary, bitmap ||| 1 <<< n.toNat)
    else (primary, bitmap)) (-1, 0)

/-- `cg_read_file`: at most 4095 bytes, without trailing newlines and spaces; `none` for an empty
or missing file. -/
def cgReadFile (content : Option (List Char)) : Option (List Char) :=
  match content with
  | none => none
  | some [] => none
  | some cs => some ((cs.take 4095).rdropWhile fun c => c = '\n' ∨ c = ' ')

/-! ### Numbers in decimal -/

theorem length_toDigits_le {n : ℕ} (h : n < 10 ^ 10) : (Nat.toDigits 10 n).length ≤ 10 :=
  (Nat.length_toDigits_le_iff (by decide) (by decide)).2 h

theorem isDigit_toDigits {n : ℕ} : ∀ c ∈ Nat.toDigits 10 n, c.isDigit = true :=
  fun _ hc => Nat.isDigit_of_mem_toDigits (by decide) (by decide) hc

/-- A scan stops behind the digits. -/
theorem span_digits {ds rest : List Char} (hds : ∀ c ∈ ds, c.isDigit = true)
    (hrest : ∀ c ∈ rest.head?, c.isDigit = false) :
    (ds ++ rest).takeWhile Char.isDigit = ds ∧ (ds ++ rest).dropWhile Char.isDigit = rest := by
  have hstop : rest.takeWhile Char.isDigit = [] ∧ rest.dropWhile Char.isDigit = rest := by
    cases rest with
    | nil => simp
    | cons c rest =>
      have hc : c.isDigit = false := hrest c (by simp)
      simp [hc]
  rw [List.takeWhile_append_of_pos hds, List.dropWhile_append_of_pos hds, hstop.1, hstop.2,
    List.append_nil]
  exact ⟨rfl, rfl⟩

/-- The number written in decimal is read back, if no digit follows it. -/
theorem parseNum_toDigits (n : ℕ) {rest : List Char}
    (hrest : ∀ c ∈ rest.head?, c.isDigit = false) :
    parseNum (Nat.toDigits 10 n ++ rest) = (n, rest) := by
  unfold parseNum
  rw [(span_digits isDigit_toDigits hrest).1, (span_digits isDigit_toDigits hrest).2,
    Nat.ofDigitChars_ten_toDigits]

/-- Digits as the scan into an `int` reads them. -/
def intOf (ds : List Char) : ℤ := ds.foldl stepInt 0

theorem intOf_eq (ds : List Char) : intOf ds = (Nat.ofDigitChars 10 ds 0 : ℤ).bmod (2 ^ 32) := by
  have hstep : ∀ (ds : List Char) (n : ℕ), ds.foldl stepInt ((n : ℤ).bmod (2 ^ 32)) =
      (Nat.ofDigitChars 10 ds n : ℤ).bmod (2 ^ 32) := by
    intro ds
    induction ds with
    | nil => intro n; rw [List.foldl_nil, Nat.ofDigitChars_nil]
    | cons c ds ih =>
      intro n
      have hc : stepInt ((n : ℤ).bmod (2 ^ 32)) c =
          ((10 * n + (c.toNat - '0'.toNat) : ℕ) : ℤ).bmod (2 ^ 32) := by
        rw [stepInt, Int.add_bmod, Int.bmod_mul_bmod, ← Int.add_bmod]
        congr 1
        push_cast
        omega
      rw [List.foldl_cons, hc, ih, Nat.ofDigitChars_cons]
  exact hstep ds 0

/-- A number below `2 ^ 31` is read as it is. -/
theorem intOf_of_lt {ds : List Char} (h : Nat.ofDigitChars 10 ds 0 < 2 ^ 31) :
    intOf ds = Nat.ofDigitChars 10 ds 0 := by
  rw [intOf_eq]
  exact Int.bmod_eq_of_le (by omega) (by omega)

end CpuBind

end TaskSpooler
