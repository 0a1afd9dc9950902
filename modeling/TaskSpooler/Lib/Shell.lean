import Mathlib.Data.List.Basic
import Mathlib.Tactic.TypeStar

/-!
# Quoting in the shell

A shell reads a command character by character.  Text inside single quotes is literal, a backslash
outside quotes makes the next character literal, and what stands side by side belongs to one word.
`Shell.read` keeps, of a command, what the quoting leaves of it: characters that the shell may still
interpret, characters that are literal, and the places where a quoted part begins (such a part makes
a word even if it is empty).

Text that is read as literal characters only is a `Shell.Fragment`: a part of one word.
-/

namespace TaskSpooler

namespace Shell

/-- Where in a quoted part the reader is. -/
inductive Mode
  | plain
  | escape
  | single
  | double
  | doubleEscape
  deriving DecidableEq, Repr

/-- What the reader has found. -/
inductive Symbol
  /-- A character that the shell may interpret. -/
  | active (c : Char)
  /-- A character that stands for itself. -/
  | literal (c : Char)
  /-- A quoted part begins. -/
  | quotes
  deriving DecidableEq, Repr

/-- The characters that a backslash escapes between double quotes. -/
def escapable (c : Char) : Bool := c = '$' ∨ c = '\x60' ∨ c = '"' ∨ c = '\\'

/-- Read one character. -/
def step : Mode → Char → List Symbol × Mode
  | .plain, c =>
    if c = '\'' then ([.quotes], .single)
    else if c = '"' then ([.quotes], .double)
    else if c = '\\' then ([], .escape)
    else ([.active c], .plain)
  -- a line is continued behind a backslash
  | .escape, c => (if c = '\n' then [] else [.literal c], .plain)
  | .single, c => if c = '\'' then ([], .plain) else ([.literal c], .single)
  | .double, c =>
    if c = '"' then ([], .plain)
    else if c = '\\' then ([], .doubleEscape)
    else if c = '$' ∨ c = '\x60' then ([.active c], .double)
    else ([.literal c], .double)
  | .doubleEscape, c =>
    (if c = '\n' then [] else if escapable c then [.literal c] else [.literal '\\', .literal c],
      .double)

/-- What the reader finds in a text, and where it is then. -/
def read : Mode → List Char → List Symbol × Mode
  | m, [] => ([], m)
  | m, c :: t => ((step m c).1 ++ (read (step m c).2 t).1, (read (step m c).2 t).2)

variable {m : Mode} {t t' : List Char} {l l' : List Symbol}

theorem read_cons (c : Char) : read m (c :: t) =
    ((step m c).1 ++ (read (step m c).2 t).1, (read (step m c).2 t).2) := rfl

/-- A text is read piece by piece. -/
theorem read_append : read m (t ++ t') =
    ((read m t).1 ++ (read (read m t).2 t').1, (read (read m t).2 t').2) := by
  induction t generalizing m with
  | nil => simp [read]
  | cons c t ih => rw [List.cons_append, read_cons, read_cons, ih, List.append_assoc]

/-! ### Fragments of words -/

/-- The literal character of a symbol. -/
def Symbol.char : Symbol → Option Char
  | .active c | .literal c => some c
  | .quotes => none

/-- The characters that a list of symbols stands for. -/
def value (l : List Symbol) : List Char := l.filterMap Symbol.char

/-- No symbol is left to the shell. -/
def Fragment (l : List Symbol) : Prop := ∀ c, Symbol.active c ∉ l

theorem value_append : value (l ++ l') = value l ++ value l' := List.filterMap_append

theorem fragment_nil : Fragment [] := fun _ => List.not_mem_nil

theorem Fragment.append (h : Fragment l) (h' : Fragment l') : Fragment (l ++ l') := by
  intro c hc
  obtain hc | hc := List.mem_append.1 hc
  · exact h c hc
  · exact h' c hc

/-- Read from outside quotes, the text `w` is a fragment with the value `v`, and the reader is
outside quotes again. -/
structure Quotes (w v : List Char) : Prop where
  mode : (read .plain w).2 = .plain
  fragment : Fragment (read .plain w).1
  value : Shell.value (read .plain w).1 = v

theorem quotes_nil : Quotes [] [] := ⟨rfl, fragment_nil, rfl⟩

/-- **A quoted text is read as one fragment wherever it stands outside quotes.** -/
theorem Quotes.read_between {w v pre : List Char} (post : List Char) (h : Quotes w v)
    (hpre : (read m pre).2 = .plain) : ∃ frag, Fragment frag ∧ Shell.value frag = v ∧
      (read m (pre ++ w ++ post)).1 = (read m pre).1 ++ frag ++ (read .plain post).1 := by
  refine ⟨(read .plain w).1, h.fragment, h.value, ?_⟩
  rw [read_append, read_append, hpre, h.mode]

end Shell

end TaskSpooler
