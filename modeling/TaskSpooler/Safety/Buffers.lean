import TaskSpooler.Jobs.Requests
import TaskSpooler.Store.Sql

/-!
# The buffers for the texts of a job

The server prints the command, the label and the dependencies of a job into buffers whose sizes it
computes or takes to be enough.  A text is given by its characters, one for each byte.

* `s_send_cmd` and `s_get_label` allocate one byte for the null, and none for the newline.
* The list of dependencies goes piece by piece into an array of fixed size.  `snprintf` gets the size
  of the whole array as its limit, wherever it begins to write, so it never stops at the end.

`buffers_fit_iff` says for each of them which jobs stay within the buffer; no job does so everywhere.
-/

namespace TaskSpooler

open Sql

/-- A buffer, and how many bytes at its front have been written, with the null. -/
structure Block where
  size : ℕ
  written : ℕ
  deriving DecidableEq, Repr

/-- Nothing is written behind the end. -/
def Block.Fits (b : Block) : Prop := b.written ≤ b.size

/-- An array that is filled piece by piece: `pos` is where the next piece goes. -/
structure Pieces extends Block where
  pos : ℕ := 0
  deriving DecidableEq, Repr

/-- `pos += snprintf(&buf[pos], sizeof(buf), text)`. -/
def Pieces.snprintf (b : Pieces) (text : List Char) : Pieces where
  size := b.size
  pos := b.pos + text.length
  written := max b.written (b.pos + min text.length (b.size - 1) + 1)

/-- The next piece goes to `n`, and what has been written beyond the array ends there. -/
structure Pieces.Level (b : Pieces) (size n : ℕ) : Prop where
  limit : b.size = size
  pos : b.pos = n
  written : b.written ≤ max size (n + 1)

theorem Pieces.Level.snprintf {b : Pieces} {size n : ℕ} (h : b.Level size n) (text : List Char) :
    (b.snprintf text).Level size (n + text.length) := by
  have hpos := h.pos
  have hwritten := h.written
  refine ⟨h.limit, by rw [← hpos]; rfl, ?_⟩
  rw [Pieces.snprintf]
  dsimp only
  omega

namespace Job

variable (p : Job)

/-! ### The command and the label -/

/-- The text that `s_send_cmd` prints. -/
def cmdText : String := p.command ++ "\n"

/-- The buffer of `s_send_cmd`. -/
def cmdBlock : Block := { size := p.command.length + 1, written := p.cmdText.length + 1 }

/-- The buffer of `s_get_label`; without a label there is none. -/
def labelBlock : Option Block :=
  p.label.map fun label => { size := label.length + 1, written := (label ++ "\n").length + 1 }

/-! ### The dependencies -/

/-- The first piece of `dependstr`. -/
def firstDepend (d : ℤ) : List Char := if d = -1 then ['[', ' '] else '[' :: decimal d

/-- Each further piece. -/
def nextDepend (d : ℤ) : List Char := if d = -1 then [',', ' '] else ',' :: decimal d

/-- `dependstr`: an array of `size` bytes that begins with `text` and is filled if there are
dependencies, with `closing` at the end. -/
def dependstr (size : ℕ) (text closing : String) : Pieces :=
  let start : Pieces := { size := size, written := text.length + 1 }
  match p.dependOn with
  | [] => start
  | d :: rest =>
    (rest.foldl (fun b d => b.snprintf (nextDepend d)) (start.snprintf (firstDepend d))).snprintf
      closing.toList

/-- `dependstr` of `print_noresult`. -/
def dependNoresult : Pieces := p.dependstr 1024 "[]" "]"

/-- `dependstr` of `print_result`. -/
def dependResult : Pieces := p.dependstr 1024 "[]&&" "]&& "

/-- `dependstr` of `plainprint_noresult`. -/
def dependPlainNoresult : Pieces := p.dependstr 256 "[]&&" "]&& "

/-- `dependstr` of `plainprint_result`. -/
def dependPlainResult : Pieces := p.dependstr 256 "[]" "]"

/-- The characters for one dependency, with the bracket or comma before it. -/
def dependWidth (d : ℤ) : ℕ := if d = -1 then 2 else (decimal d).length + 1

variable {p} {size : ℕ} {text closing : String}

theorem length_firstDepend (d : ℤ) : (firstDepend d).length = dependWidth d := by
  rw [firstDepend, dependWidth]
  split_ifs <;> rfl

theorem length_nextDepend (d : ℤ) : (nextDepend d).length = dependWidth d := by
  rw [nextDepend, dependWidth]
  split_ifs <;> rfl

theorem level_foldl {l : List ℤ} {b : Pieces} {n : ℕ} (h : b.Level size n) :
    (l.foldl (fun b d => b.snprintf (nextDepend d)) b).Level size
      (n + (l.map dependWidth).sum) := by
  induction l generalizing b n with
  | nil => exact h
  | cons d l ih =>
    have hnext := ih (h.snprintf (nextDepend d))
    rw [length_nextDepend] at hnext
    rw [List.foldl_cons, List.map_cons, List.sum_cons, ← Nat.add_assoc]
    exact hnext

/-- **When the list of dependencies fits**: if there is none, or the pieces, the closing text and the
null are together no longer than the array. -/
theorem dependstr_fits_iff (htext : text.length < size) (hclosing : closing.length < size) :
    (p.dependstr size text closing).Fits ↔
      p.dependOn = [] ∨ (p.dependOn.map dependWidth).sum + closing.length + 1 ≤ size := by
  rw [dependstr]
  cases hp : p.dependOn with
  | nil => exact iff_of_true htext (Or.inl rfl)
  | cons d rest =>
    have hstart : Pieces.Level { size := size, written := text.length + 1 } size 0 :=
      ⟨rfl, rfl, le_max_of_le_left htext⟩
    have hfirst := hstart.snprintf (firstDepend d)
    rw [length_firstDepend, Nat.zero_add] at hfirst
    have hrest := level_foldl (l := rest) hfirst
    rw [← List.sum_cons, ← List.map_cons] at hrest
    have hlast := hrest.snprintf closing.toList
    rw [String.length_toList] at hlast
    -- the closing text is written as a whole, wherever it begins
    have hend : (((d :: rest).map dependWidth).sum + closing.length + 1) ≤
        ((rest.foldl (fun b d => b.snprintf (nextDepend d)) (Pieces.snprintf
          { size := size, written := text.length + 1 } (firstDepend d))).snprintf
            closing.toList).written := by
      refine le_max_of_le_right ?_
      rw [hrest.pos, hrest.limit, String.length_toList]
      omega
    have hle := hlast.written
    have hsize := hlast.limit
    simp only [reduceCtorEq, false_or]
    constructor
    · intro h
      exact hend.trans (h.trans hsize.le)
    · intro h
      exact (hle.trans (max_le le_rfl h)).trans hsize.ge

/-! ### All buffers -/

/-- The texts of the job stay within their buffers. -/
structure BuffersFit (p : Job) : Prop where
  cmd : p.cmdBlock.Fits
  label : ∀ b ∈ p.labelBlock, b.Fits
  noresult : p.dependNoresult.Fits
  result : p.dependResult.Fits
  plainNoresult : p.dependPlainNoresult.Fits
  plainResult : p.dependPlainResult.Fits

/-- The command is one byte too long for its buffer. -/
theorem cmdBlock_written : p.cmdBlock.written = p.cmdBlock.size + 1 := by
  rw [cmdBlock, cmdText, String.length_append]
  rfl

theorem labelBlock_fits_iff : (∀ b ∈ p.labelBlock, b.Fits) ↔ p.label = none := by
  rw [labelBlock]
  cases p.label with
  | none => simp
  | some label =>
    simp only [Option.map_some, Option.mem_def, Option.some.injEq, forall_eq', Block.Fits,
      String.length_append, reduceCtorEq, iff_false]
    show ¬ label.length + 1 + 1 ≤ label.length + 1
    omega

/-- **Which jobs stay within the buffers.**  No job does so in `s_send_cmd`; in `s_get_label`, those
without a label; and in the four lists, those with no dependencies or with so few that their text
fits. -/
theorem buffers_fit_iff (p : Job) :
    ¬ p.BuffersFit ∧ ¬ p.cmdBlock.Fits ∧
    ((∀ b ∈ p.labelBlock, b.Fits) ↔ p.label = none) ∧
    (p.dependNoresult.Fits ↔ p.dependOn = [] ∨ (p.dependOn.map dependWidth).sum + 2 ≤ 1024) ∧
    (p.dependResult.Fits ↔ p.dependOn = [] ∨ (p.dependOn.map dependWidth).sum + 5 ≤ 1024) ∧
    (p.dependPlainNoresult.Fits ↔ p.dependOn = [] ∨ (p.dependOn.map dependWidth).sum + 5 ≤ 256) ∧
    (p.dependPlainResult.Fits ↔ p.dependOn = [] ∨ (p.dependOn.map dependWidth).sum + 2 ≤ 256) := by
  have hcmd : ¬ p.cmdBlock.Fits := by
    rw [Block.Fits, cmdBlock_written]
    omega
  exact ⟨fun h => hcmd h.cmd, hcmd, labelBlock_fits_iff, dependstr_fits_iff (by decide) (by decide),
    dependstr_fits_iff (by decide) (by decide), dependstr_fits_iff (by decide) (by decide),
    dependstr_fits_iff (by decide) (by decide)⟩

/-- The command `ls` takes four bytes of a buffer of three; a label `a` three of two; and the text of
51 dependencies on the job 1000 takes 260 bytes of 256. -/
theorem ls_overruns : ¬ BuffersFit { jobid := 1, command := "ls" } ∧
    ¬ (∀ b ∈ labelBlock { jobid := 1, label := some "a" }, b.Fits) ∧
    ¬ (dependPlainNoresult { jobid := 1, dependOn := List.replicate 51 1000 }).Fits := by
  refine ⟨fun h => absurd h.cmd ?_, fun h => absurd (h _ rfl) ?_, ?_⟩
  · show ¬ 4 ≤ 3
    decide
  · show ¬ 3 ≤ 2
    decide
  · rw [dependPlainNoresult, dependstr_fits_iff (by decide) (by decide), List.map_replicate,
      List.sum_replicate]
    decide

end Job

namespace Spool

variable {s : Spool} {socket jobid : ℤ} {p : Job}

/-- The job whose command or label is asked for. -/
def askedJob (s : Spool) (jobid : ℤ) : Option Job :=
  if jobid = -1 then s.lastJob else s.getJob jobid

/-- `s_send_cmd` sends the text of its buffer. -/
theorem sSendCmd_eq (h : s.askedJob jobid = some p) :
    s.sSendCmd socket jobid = s.send socket (.line p.cmdText) := by
  rw [askedJob] at h
  rw [sSendCmd, h]
  rfl

/-- `s_get_label` sends the label with a newline from a buffer, or an empty text. -/
theorem sGetLabel_eq (h : s.askedJob jobid = some p) :
    s.sGetLabel socket jobid =
      s.send socket (.line (p.label.elim "" fun label => label ++ "\n")) := by
  rw [askedJob] at h
  rw [sGetLabel, h]
  cases hl : p.label with
  | none => simp only [hl, Option.elim_none]
  | some label => simp only [hl, Option.elim_some]

end Spool

end TaskSpooler
