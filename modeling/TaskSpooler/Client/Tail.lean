import Mathlib.Data.List.Count
import Mathlib.Algebra.Order.Group.Nat

/-!
# The last lines of a file (`tail.c`)

`seek_at_last_lines` reads a file backward in blocks of 1024 bytes and counts newlines.  Inside a
block it goes on until it has found one newline more than it was asked for, and puts the cursor
behind that one.  Between two blocks it stops as soon as it has found as many as it was asked for, and
leaves the cursor where the block starts.

So the cursor is where it should be exactly if the block that completes the count starts with a line,
or holds one more newline (`seekAtLastLines_iff`).  The only line of a file of more than 1024 bytes is
cut (`long_line_cut`).

A file is given by its characters, one for each byte; reading and seeking succeed, and `read`
delivers what it is asked for.
-/

namespace TaskSpooler

/-- `BSIZE`. -/
def blockSize : ℕ := 1024

/-- The inner loop, with `n` bytes of the block still to look at: the newlines found, and `i + 1`
when it ends. -/
def scanBlock (buf : List Char) (lines : ℕ) : ℕ → ℕ → ℕ × ℕ
  | 0, found => (found, 0)
  | n + 1, found =>
    if buf[n]? = some '\n' then
      if lines < found + 1 then (found + 1, n + 1) else scanBlock buf lines n (found + 1)
    else scanBlock buf lines n found

/-- The loop over the blocks, with the cursor at `p`: where the cursor is at the end, and
`move_offset`. -/
def seekLoop (file : List Char) (lines : ℕ) (p found offset : ℕ) : ℕ × ℕ :=
  if 0 < p then
    let nextRead := min p blockSize
    let base := p - nextRead
    let r := scanBlock ((file.drop base).take nextRead) lines nextRead found
    if r.1 < lines then seekLoop file lines base r.1 r.2 else (base, r.2)
  else (p, offset)
termination_by p
decreasing_by
  have hblock : 0 < blockSize := by decide
  omega

/-- `seek_at_last_lines`: where the cursor is at the end. -/
def seekAtLastLines (file : List Char) (lines : ℕ) : ℕ :=
  let r := seekLoop file lines file.length 0 0
  r.1 + r.2

variable {file buf : List Char} {lines n k found p : ℕ}

/-! ### One block -/

/-- The newlines behind a place. -/
def newlines (file : List Char) (k : ℕ) : ℕ := (file.drop k).count '\n'

/-- A line starts here. -/
def LineStart (file : List Char) (k : ℕ) : Prop := k = 0 ∨ ∃ j, k = j + 1 ∧ file[j]? = some '\n'

/-- The cursor is at the start of a line, and behind it are the last lines. -/
def AtLastLines (file : List Char) (lines k : ℕ) : Prop :=
  LineStart file k ∧ newlines file k = min lines (newlines file 0)

theorem newlines_succ (file : List Char) (n : ℕ) : newlines file n =
    newlines file (n + 1) + if file[n]? = some '\n' then 1 else 0 := by
  rw [newlines, newlines]
  by_cases hn : n < file.length
  · rw [List.drop_eq_getElem_cons hn, List.count_cons, List.getElem?_eq_getElem hn]
    simp
  · have hlen : file.length ≤ n := Nat.le_of_not_lt hn
    rw [List.drop_eq_nil_of_le hlen, List.drop_eq_nil_of_le (Nat.le_succ_of_le hlen),
      List.getElem?_eq_none hlen]
    simp

theorem newlines_anti (file : List Char) (h : n ≤ k) : newlines file k ≤ newlines file n :=
  (List.drop_sublist_drop_left file h).count_le _

/-- **What a block does to the count**: it is completed, or the scan stops behind the newline that is
one too many. -/
theorem scanBlock_spec (base : ℕ) (hbuf : ∀ j < n, buf[j]? = file[base + j]?)
    (hfound : found = newlines file (base + n)) (hle : found ≤ lines) :
    (newlines file base ≤ lines ∧ scanBlock buf lines n found = (newlines file base, 0)) ∨
    lines < newlines file base ∧ ∃ i < n, file[base + i]? = some '\n' ∧
      newlines file (base + i + 1) = lines ∧ scanBlock buf lines n found = (lines + 1, i + 1) := by
  induction n generalizing found with
  | zero =>
    rw [Nat.add_zero] at hfound
    subst hfound
    exact .inl ⟨hle, rfl⟩
  | succ n ih =>
    have hbuf' : ∀ j < n, buf[j]? = file[base + j]? := fun j hj => hbuf j (Nat.lt_succ_of_lt hj)
    have hstep := newlines_succ file (base + n)
    rw [scanBlock, hbuf n (Nat.lt_succ_self n)]
    by_cases hn : file[base + n]? = some '\n'
    · rw [if_pos hn] at hstep
      rw [if_pos hn]
      have hnext : found + 1 = newlines file (base + n) := by
        rw [hstep, hfound]
        rfl
      split_ifs with hlast
      · refine .inr ⟨?_, n, Nat.lt_succ_self n, hn, ?_, ?_⟩
        · have := newlines_anti file (Nat.le_add_right base n)
          omega
        · rw [Nat.add_assoc, ← hfound]
          omega
        · have hfull : found = lines := by omega
          rw [hfull]
      · obtain h | ⟨hlt, i, hi, h⟩ := ih hbuf' hnext (by omega)
        · exact .inl h
        · exact .inr ⟨hlt, i, Nat.lt_succ_of_lt hi, h⟩
    · rw [if_neg hn] at hstep
      rw [if_neg hn]
      have hsame : found = newlines file (base + n) := by
        rw [hstep, hfound]
        rfl
      obtain h | ⟨hlt, i, hi, h⟩ := ih hbuf' hsame hle
      · exact .inl h
      · exact .inr ⟨hlt, i, Nat.lt_succ_of_lt hi, h⟩

/-! ### All blocks -/

/-- The block that completes the count of newlines, read backward from `p`, starts with a line or
holds one more newline. -/
def BlockFits (file : List Char) (lines p : ℕ) : Prop :=
  ∀ k, (∀ j < k, newlines file (p - blockSize * j) < lines) →
    newlines file (p - blockSize * k) = lines → LineStart file (p - blockSize * k)

theorem atLastLines_of_lt {i : ℕ} (hi : file[k + i]? = some '\n')
    (hlines : newlines file (k + i + 1) = lines) (hmore : lines < newlines file k) :
    AtLastLines file lines (k + i + 1) := by
  have hall := newlines_anti file (Nat.zero_le k)
  exact ⟨.inr ⟨_, rfl, hi⟩, by omega⟩

theorem sub_blocks (k : ℕ) : p - blockSize * (k + 1) = p - blockSize - blockSize * k := by
  rw [Nat.mul_succ]
  omega

/-- The first block decides, or the others do. -/
theorem blockFits_iff (h : newlines file p < lines) : BlockFits file lines p ↔
    (newlines file (p - blockSize) = lines → LineStart file (p - blockSize)) ∧
    (newlines file (p - blockSize) < lines → BlockFits file lines (p - blockSize)) := by
  constructor
  · intro hfits
    refine ⟨fun heq => ?_, fun hlt k hbefore heq => ?_⟩
    · have hone := hfits 1 fun j hj => by
        obtain rfl : j = 0 := by omega
        exact h
      rw [Nat.mul_one] at hone
      exact hone heq
    · rw [← sub_blocks] at heq ⊢
      refine hfits (k + 1) (fun j hj => ?_) heq
      cases j with
      | zero => exact h
      | succ j =>
        rw [sub_blocks]
        exact hbefore j (by omega)
  · rintro ⟨hfirst, hrest⟩ k hbefore heq
    cases k with
    | zero => exact absurd heq h.ne
    | succ k =>
      cases k with
      | zero =>
        rw [Nat.zero_add, Nat.mul_one] at heq ⊢
        exact hfirst heq
      | succ k =>
        have hlt := hbefore 1 (by omega)
        rw [Nat.mul_one] at hlt
        rw [sub_blocks] at heq ⊢
        refine hrest hlt (k + 1) (fun j hj => ?_) heq
        have := hbefore (j + 1) (by omega)
        rwa [sub_blocks] at this

/-- **Where the loop leaves the cursor**, if there are not enough newlines behind `p`. -/
theorem seekLoop_iff (file : List Char) (hfound : found = newlines file p) (hlt : found < lines) :
    AtLastLines file lines ((seekLoop file lines p found 0).1 + (seekLoop file lines p found 0).2) ↔
    BlockFits file lines p := by
  induction p using Nat.strong_induction_on generalizing found with
  | _ p ih =>
    rw [seekLoop]
    split_ifs with hpos
    · have hsize : 0 < blockSize := by decide
      have hbase : p - min p blockSize = p - blockSize := by omega
      have hblock : ∀ j < min p blockSize,
          ((file.drop (p - blockSize)).take (min p blockSize))[j]? = file[p - blockSize + j]? := by
        intro j hj
        rw [List.getElem?_take_of_lt hj, List.getElem?_drop]
      have hend : found = newlines file (p - blockSize + min p blockSize) := by
        rw [hfound]
        congr 1
        omega
      have hall := newlines_anti file (Nat.zero_le (p - blockSize))
      rw [blockFits_iff (hfound ▸ hlt)]
      dsimp only
      rw [hbase]
      obtain ⟨hle, hscan⟩ | ⟨hmore, i, -, hi, hlines, hscan⟩ := scanBlock_spec _ hblock hend hlt.le
      · rw [hscan]
        dsimp only
        split_ifs with hagain
        · rw [ih _ (by omega) rfl hagain]
          exact ⟨fun h => ⟨fun heq => absurd heq hagain.ne, fun _ => h⟩, fun h => h.2 hagain⟩
        · -- just enough newlines: the cursor stays at the start of the block
          have heq : newlines file (p - blockSize) = lines := by omega
          dsimp only
          rw [Nat.add_zero]
          refine ⟨fun h => ⟨fun _ => h.1, fun h' => absurd h' hagain⟩, fun h => ⟨h.1 heq, ?_⟩⟩
          omega
      · rw [hscan]
        dsimp only
        rw [if_neg (by omega)]
        refine iff_of_true ?_ ⟨fun heq => by omega, fun h => by omega⟩
        rw [← Nat.add_assoc]
        exact atLastLines_of_lt hi hlines hmore
    · -- the whole file has been read
      obtain rfl : p = 0 := by omega
      refine iff_of_true ⟨.inl rfl, ?_⟩ fun k _ _ => .inl (Nat.zero_sub _)
      show newlines file 0 = _
      omega

/-- **When the last lines are found.**  The cursor ends at the start of a line with the last lines
behind it exactly if the block that completes the count fits. -/
theorem seekAtLastLines_iff (file : List Char) (lines : ℕ) (hlines : 1 ≤ lines) :
    AtLastLines file lines (seekAtLastLines file lines) ↔ BlockFits file lines file.length := by
  refine seekLoop_iff file ?_ hlines
  rw [newlines, List.drop_length, List.count_nil]

/-- The last line of two short ones. -/
theorem short_lines_found : AtLastLines "ab\ncd\n".toList 1 (seekAtLastLines "ab\ncd\n".toList 1) ↔
    BlockFits "ab\ncd\n".toList 1 "ab\ncd\n".toList.length :=
  seekAtLastLines_iff _ 1 le_rfl

/-- One line of 1500 letters is cut. -/
theorem long_line_cut : ¬∀ (file : List Char) (lines : ℕ), file.length < 2 ^ 31 → 1 ≤ lines →
    AtLastLines file lines (seekAtLastLines file lines) := by
  intro hall
  have hlen : (List.replicate 1500 'a' ++ ['\n']).length = 1501 := by
    rw [List.length_append, List.length_replicate, List.length_singleton]
  have hnewlines : ∀ k ≤ 1500, newlines (List.replicate 1500 'a' ++ ['\n']) k = 1 := by
    intro k hk
    rw [newlines, List.drop_append, List.drop_replicate, List.length_replicate,
      Nat.sub_eq_zero_of_le hk, List.drop_zero, List.count_append, List.count_replicate]
    rfl
  have hnone : newlines (List.replicate 1500 'a' ++ ['\n']) 1501 = 0 := by
    rw [newlines, ← hlen, List.drop_length, List.count_nil]
  have hlast := hall (List.replicate 1500 'a' ++ ['\n']) 1 (by rw [hlen]; decide) le_rfl
  rw [seekAtLastLines, hlen] at hlast
  have hfits := (seekLoop_iff _ hnone.symm Nat.one_pos).1 hlast
  have hstart := ((blockFits_iff (by omega)).1 hfits).1 (hnewlines 477 (by decide))
  obtain h | ⟨j, hj, hchar⟩ := hstart
  · exact absurd h (by decide)
  · -- the block starts in the middle of the line
    obtain rfl : j = 476 := by
      have : 477 = j + 1 := hj
      omega
    rw [List.getElem?_append_left (by rw [List.length_replicate]; decide),
      List.getElem?_replicate_of_lt (by decide)] at hchar
    exact absurd (Option.some.inj hchar) (by decide)

end TaskSpooler
