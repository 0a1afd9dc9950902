import TaskSpooler.Lib.Shell
import TaskSpooler.Store.Sql
import Mathlib.Data.List.Count
import Mathlib.Algebra.Order.Ring.Int
import Mathlib.Tactic.Ring

/-!
# The callback of a job (`execute.c`)

`ts --on-finish` gives a job a command that its client runs when the job is over.  `expand_template`
fills in what is known of the job: `{output}`, `{label}` and `{command}` are quoted for the shell by
`quote_str`, the other placeholders are numbers.

* `quoted_value_safe`: a quoted value is one fragment of a word with that value, wherever the
  placeholder stands outside quotes.
* `expandTemplate_eq_iff`: a template is expanded as it is documented exactly if no short text
  between braces is anything but a placeholder.  The shell variable of `echo ${HOME}` is lost
  (`shell_variable_lost`).
* `expansion_fits_iff`: the buffers are large enough exactly if the values are not.  Three single
  quotes are too many for `quote_str` (`quotes_overflow`).

A text is given by its characters, one for each byte, without the `NUL` at its end.
-/

namespace TaskSpooler

/-! ### Quoting -/

/-- What `quote_str` writes between the outer quotes. -/
def quoteBody (s : List Char) : List Char :=
  s.flatMap fun c => if c = '\'' then ['\'', '\\', '\'', '\''] else [c]

/-- `quote_str`. -/
def quoteStr (s : List Char) : List Char := '\'' :: (quoteBody s ++ ['\''])

/-- The size of the buffer that `quote_str` allocates. -/
def quoteNeed (s : List Char) : ℕ := s.length * 2 + 3

/-- The bytes that `quote_str` writes, with the `NUL`. -/
def quoteWritten (s : List Char) : ℕ := (quoteStr s).length + 1

theorem quoteBody_cons (c : Char) (s : List Char) : quoteBody (c :: s) =
    (if c = '\'' then ['\'', '\\', '\'', '\''] else [c]) ++ quoteBody s := List.flatMap_cons

theorem length_quoteBody (s : List Char) : (quoteBody s).length = s.length + 3 * s.count '\'' := by
  induction s with
  | nil => rfl
  | cons c s ih =>
    rw [quoteBody_cons, List.length_append, ih, List.length_cons, List.count_cons]
    by_cases hc : c = '\''
    · simp only [hc, if_true, List.length_cons, List.length_nil, beq_self_eq_true]
      ring
    · have hbeq : (c == '\'') = false := beq_eq_false_iff_ne.2 hc
      simp only [if_neg hc, List.length_cons, List.length_nil, hbeq, Bool.false_eq_true, if_false]
      ring

theorem length_quoteStr (s : List Char) :
    (quoteStr s).length = s.length + 3 * s.count '\'' + 2 := by
  rw [quoteStr, List.length_cons, List.length_append, length_quoteBody, List.length_singleton]

open Shell in
/-- Inside the quotes, every character ends up literal: a quote is left, escaped, and entered
again. -/
theorem read_quoteBody (s : List Char) : (read .single (quoteBody s)).2 = .single ∧
    Fragment (read .single (quoteBody s)).1 ∧ value (read .single (quoteBody s)).1 = s := by
  induction s with
  | nil => exact ⟨rfl, fragment_nil, rfl⟩
  | cons c s ih =>
    obtain ⟨hmode, hfrag, hval⟩ := ih
    rw [quoteBody_cons]
    by_cases hc : c = '\''
    · subst hc
      have hesc : read .single ['\'', '\\', '\'', '\''] = ([.literal '\'', .quotes], .single) := rfl
      rw [if_pos rfl, read_append, hesc]
      refine ⟨hmode, Fragment.append (by simp [Fragment]) hfrag, ?_⟩
      rw [value_append, hval]
      rfl
    · have hlit : read .single [c] = ([.literal c], .single) := by
        simp [Shell.read, step, hc]
      rw [if_neg hc, read_append, hlit]
      refine ⟨hmode, Fragment.append (by simp [Fragment]) hfrag, ?_⟩
      rw [value_append, hval]
      rfl

open Shell in
/-- **`quote_str` quotes**: the shell reads the text back as a fragment of a word. -/
theorem quotes_quoteStr (s : List Char) : Quotes (quoteStr s) s := by
  obtain ⟨hmode, hfrag, hval⟩ := read_quoteBody s
  have hopen : step .plain '\'' = ([.quotes], .single) := rfl
  have hclose : read .single ['\''] = ([], .plain) := rfl
  have hread : read .plain (quoteStr s) = ([.quotes] ++ (read .single (quoteBody s)).1, .plain) := by
    rw [quoteStr, read_cons, hopen, read_append, hmode, hclose, List.append_nil]
  refine ⟨by rw [hread], ?_, ?_⟩
  · rw [hread]
    exact Fragment.append (by simp [Fragment]) hfrag
  · rw [hread, value_append, hval]
    rfl

/-! ### Placeholders -/

/-- The documented placeholders. -/
inductive Placeholder
  | jobid
  | output
  | exitcode
  | pid
  | label
  | command
  | realtime
  | usertime
  | systime
  | pausetime
  | startTime
  | enqueTime
  | endTime
  | slots
  deriving DecidableEq, Repr

namespace Placeholder

/-- The placeholders in the order in which `expand_template` compares them. -/
def all : List Placeholder :=
  [jobid, output, exitcode, pid, label, command, realtime, usertime, systime, pausetime, startTime,
    enqueTime, endTime, slots]

/-- The name between the braces. -/
def name : Placeholder → List Char
  | jobid => "jobid".toList
  | output => "output".toList
  | exitcode => "exitcode".toList
  | pid => "pid".toList
  | label => "label".toList
  | command => "command".toList
  | realtime => "realtime".toList
  | usertime => "usertime".toList
  | systime => "systime".toList
  | pausetime => "pausetime".toList
  | startTime => "start_time".toList
  | enqueTime => "enque_time".toList
  | endTime => "end_time".toList
  | slots => "slots".toList

/-- The placeholder with this name. -/
def ofKey (key : List Char) : Option Placeholder := all.find? fun k => key = k.name

theorem mem_all (k : Placeholder) : k ∈ all := by cases k <;> decide

theorem ofKey_eq_some {key : List Char} {k : Placeholder} : ofKey key = some k ↔ key = k.name := by
  constructor
  · intro h
    simpa using List.find?_some h
  · rintro rfl
    cases k <;> rfl

theorem name_injective : Function.Injective name := by
  intro k k' h
  have hk : ofKey k.name = some k' := ofKey_eq_some.2 h
  rw [ofKey_eq_some.2 rfl] at hk
  exact Option.some.inj hk

/-- No name has a brace in it, and all are short. -/
theorem brace_notMem_name (k : Placeholder) : '}' ∉ k.name ∧ '{' ∉ k.name ∧ k.name.length < 32 := by
  cases k <;> decide

end Placeholder

/-- What `run_on_finish` is given about the job. -/
structure OnFinish where
  jobid : Int32
  output : Option (List Char)
  exitid : Int32
  pid : Int32
  label : Option (List Char)
  command : Option (List Char)
  realSec : Int64
  userSec : Int64
  sysSec : Int64
  pauseDuration : Int64
  startTime : Int64
  enqueueTime : Int64
  endTime : Int64
  numSlots : Int32

namespace OnFinish

variable (a : OnFinish)

/-- A string argument is quoted; nothing is written for the null pointer. -/
def quoted (s : Option (List Char)) : List Char := (s.map quoteStr).getD []

/-- The text that replaces a placeholder. -/
def value : Placeholder → List Char
  | .jobid => Sql.decimal a.jobid.toInt
  | .output => quoted a.output
  | .exitcode => Sql.decimal a.exitid.toInt
  | .pid => Sql.decimal a.pid.toInt
  | .label => quoted a.label
  | .command => quoted a.command
  | .realtime => Sql.decimal a.realSec.toInt
  | .usertime => Sql.decimal a.userSec.toInt
  | .systime => Sql.decimal a.sysSec.toInt
  | .pausetime => Sql.decimal a.pauseDuration.toInt
  | .startTime => Sql.decimal a.startTime.toInt
  | .enqueTime => Sql.decimal a.enqueueTime.toInt
  | .endTime => Sql.decimal a.endTime.toInt
  | .slots => Sql.decimal a.numSlots.toInt

/-- The text that replaces `{key}`: nothing, if the key is none of a placeholder. -/
def valueOf (key : List Char) : List Char := ((Placeholder.ofKey key).map a.value).getD []

/-- The string that a placeholder stands for. -/
def text : Placeholder → Option (List Char)
  | .output => a.output
  | .label => a.label
  | .command => a.command
  | _ => none

end OnFinish

/-- `strchr(t, '}') - t`. -/
def closing (t : List Char) : Option ℕ := t.findIdx? (· = '}')

/-- `expand_template`. -/
def expandTemplate (a : OnFinish) : List Char → List Char
  | [] => []
  | c :: t =>
    if c = '{' then
      match closing t with
      | some klen =>
        if klen < 32 then a.valueOf (t.take klen) ++ expandTemplate a (t.drop (klen + 1))
        else c :: expandTemplate a t
      | none => c :: expandTemplate a t
    else c :: expandTemplate a t
termination_by t => t.length
decreasing_by
  · simp only [List.length_drop, List.length_cons]
    omega
  all_goals exact Nat.lt_succ_self _

/-- The size of the buffer that `expand_template` allocates. -/
def expandNeed (t : List Char) : ℕ := t.length * 2 + 256

/-- The bytes that `expand_template` writes, with the `NUL`. -/
def expandWritten (a : OnFinish) (t : List Char) : ℕ := (expandTemplate a t).length + 1

/-! ### The pieces of a template -/

/-- How `expand_template` takes a template apart: bytes that are copied, and braces around a key. -/
inductive Piece
  | byte (c : Char)
  | braces (key : List Char)
  deriving DecidableEq, Repr

/-- The piece as it stands in the template. -/
def Piece.text : Piece → List Char
  | .byte c => [c]
  | .braces key => '{' :: (key ++ ['}'])

/-- What is written for the piece. -/
def OnFinish.expand (a : OnFinish) : Piece → List Char
  | .byte c => [c]
  | .braces key => a.valueOf key

/-- The pieces of a template. -/
def pieces : List Char → List Piece
  | [] => []
  | c :: t =>
    if c = '{' then
      match closing t with
      | some klen =>
        if klen < 32 then .braces (t.take klen) :: pieces (t.drop (klen + 1))
        else .byte c :: pieces t
      | none => .byte c :: pieces t
    else .byte c :: pieces t
termination_by t => t.length
decreasing_by
  · simp only [List.length_drop, List.length_cons]
    omega
  all_goals exact Nat.lt_succ_self _

variable {a : OnFinish} {t key rest : List Char} {n : ℕ}

theorem closing_cons (c : Char) (t : List Char) : closing (c :: t) =
    if c = '}' then some 0 else (closing t).map (· + 1) := by
  by_cases hc : c = '}'
  · simp [closing, List.findIdx?_cons, hc]
  · simp [closing, List.findIdx?_cons, hc]

theorem closing_append (h : '}' ∉ key) : closing (key ++ '}' :: rest) = some key.length := by
  induction key with
  | nil => simp [closing_cons]
  | cons c key ih =>
    have hc : c ≠ '}' := fun heq => h (heq ▸ List.mem_cons_self)
    have hkey : '}' ∉ key := fun hmem => h (List.mem_cons_of_mem _ hmem)
    rw [List.cons_append, closing_cons, if_neg hc, ih hkey]
    rfl

/-- The text up to the next closing brace, and what is behind it. -/
theorem closing_some (h : closing t = some n) :
    '}' ∉ t.take n ∧ t = t.take n ++ '}' :: t.drop (n + 1) ∧ (t.take n).length = n := by
  induction t generalizing n with
  | nil => cases h
  | cons c t ih =>
    rw [closing_cons] at h
    split_ifs at h with hc
    · cases h
      simp [hc]
    · obtain ⟨n, hn, rfl⟩ := Option.map_eq_some_iff.1 h
      obtain ⟨hnot, heq, hlen⟩ := ih hn
      refine ⟨?_, ?_, ?_⟩
      · rw [List.take_succ_cons, List.mem_cons, not_or]
        exact ⟨fun h => hc h.symm, hnot⟩
      · rw [List.take_succ_cons, List.drop_succ_cons, List.cons_append, ← heq]
      · rw [List.take_succ_cons, List.length_cons, hlen]

/-- The pieces make up the template. -/
theorem pieces_text (t : List Char) : (pieces t).flatMap Piece.text = t := by
  induction t using pieces.induct with
  | case1 => simp [pieces]
  | case2 t klen hclose hlen ih =>
    rw [pieces, if_pos rfl, hclose]
    simp only [if_pos hlen, List.flatMap_cons, ih, Piece.text]
    obtain ⟨-, heq, -⟩ := closing_some hclose
    conv_rhs => rw [heq]
    simp
  | case3 t klen hclose hlen ih =>
    rw [pieces, if_pos rfl, hclose]
    simp only [if_neg hlen, List.flatMap_cons, ih, Piece.text]
    rfl
  | case4 t hclose ih =>
    rw [pieces, if_pos rfl, hclose]
    simp only [List.flatMap_cons, ih, Piece.text]
    rfl
  | case5 c t hc ih =>
    rw [pieces, if_neg hc]
    simp only [List.flatMap_cons, ih, Piece.text]
    rfl

/-- **Each piece is expanded by itself.** -/
theorem expandTemplate_pieces (a : OnFinish) (t : List Char) :
    expandTemplate a t = (pieces t).flatMap a.expand := by
  induction t using pieces.induct with
  | case1 => simp [pieces, expandTemplate]
  | case2 t klen hclose hlen ih =>
    rw [pieces, expandTemplate, if_pos rfl, if_pos rfl, hclose]
    simp only [if_pos hlen, List.flatMap_cons, ih, OnFinish.expand]
  | case3 t klen hclose hlen ih =>
    rw [pieces, expandTemplate, if_pos rfl, if_pos rfl, hclose]
    simp only [if_neg hlen, List.flatMap_cons, ih, OnFinish.expand]
    rfl
  | case4 t hclose ih =>
    rw [pieces, expandTemplate, if_pos rfl, if_pos rfl, hclose]
    simp only [List.flatMap_cons, ih, OnFinish.expand]
    rfl
  | case5 c t hc ih =>
    rw [pieces, expandTemplate, if_neg hc, if_neg hc]
    simp only [List.flatMap_cons, ih, OnFinish.expand]
    rfl

/-- Text between braces that is short enough is taken for a key. -/
theorem expandTemplate_braces (key rest : List Char) (h : '}' ∉ key) (hlen : key.length < 32) :
    expandTemplate a ('{' :: (key ++ '}' :: rest)) = a.valueOf key ++ expandTemplate a rest := by
  have hdrop : (key ++ '}' :: rest).drop (key.length + 1) = rest := by simp
  rw [expandTemplate, if_pos rfl, closing_append h]
  show (if key.length < 32 then _ else _) = _
  rw [if_pos hlen, List.take_left, hdrop]

/-! ### The values are safe -/

namespace OnFinish

theorem quotes_quoted (s : Option (List Char)) : Shell.Quotes (quoted s) (s.getD []) := by
  cases s with
  | none => exact Shell.quotes_nil
  | some s => exact quotes_quoteStr s

/-- The placeholder stands for a string. -/
def isText : Placeholder → Bool
  | .output | .label | .command => true
  | _ => false

theorem quotes_value {k : Placeholder} (hk : isText k) :
    Shell.Quotes (a.valueOf k.name) ((a.text k).getD []) := by
  have hof : Placeholder.ofKey k.name = some k := Placeholder.ofKey_eq_some.2 rfl
  rw [valueOf, hof]
  cases k with
  | output => exact quotes_quoted a.output
  | label => exact quotes_quoted a.label
  | command => exact quotes_quoted a.command
  | _ => cases hk

end OnFinish

open Shell in
/-- **Quoted values are safe.**  Behind a text that ends outside quotes, the shell reads what
`quote_str` makes of a string as one fragment of a word, which is not nothing and has the string as
its value.  So it does with the value of `{output}`, `{label}` and `{command}` in a template. -/
theorem quoted_value_safe {pre : List Char} (hpre : (read .plain pre).2 = .plain) :
    (∀ s post : List Char, ∃ frag, frag ≠ [] ∧ Fragment frag ∧ value frag = s ∧
      (read .plain (pre ++ quoteStr s ++ post)).1 =
        (read .plain pre).1 ++ frag ++ (read .plain post).1) ∧
    ∀ (a : OnFinish) (t : List Char) (l₁ l₂ : List Piece) (k : Placeholder), OnFinish.isText k →
      pieces t = l₁ ++ .braces k.name :: l₂ → l₁.flatMap a.expand = pre →
      ∃ frag, Fragment frag ∧ value frag = (a.text k).getD [] ∧
        (read .plain (expandTemplate a t)).1 =
          (read .plain pre).1 ++ frag ++ (read .plain (l₂.flatMap a.expand)).1 := by
  constructor
  · intro s post
    obtain ⟨frag, hfrag, hval, hread⟩ := (quotes_quoteStr s).read_between post hpre
    refine ⟨frag, ?_, hfrag, hval, hread⟩
    rintro rfl
    -- the opening quote is seen, even if nothing is between the quotes
    have hopen : step .plain '\'' = ([.quotes], .single) := rfl
    rw [read_append, read_append, hpre, (quotes_quoteStr s).mode, List.append_assoc,
      List.append_nil, quoteStr, read_cons, hopen] at hread
    have hlen := congrArg List.length hread
    simp only [List.length_append, List.length_singleton] at hlen
    omega
  · rintro a t l₁ l₂ k hk hpieces rfl
    obtain ⟨frag, hfrag, hval, hread⟩ := (OnFinish.quotes_value (a := a) hk).read_between
      (l₂.flatMap a.expand) hpre
    refine ⟨frag, hfrag, hval, ?_⟩
    rw [expandTemplate_pieces, hpieces, List.flatMap_append, List.flatMap_cons, ← hread,
      List.append_assoc]
    rfl

open Shell in
/-- The string `it's` behind `echo `. -/
theorem quoted_apostrophe_safe : ∃ frag, frag ≠ [] ∧ Fragment frag ∧ value frag = "it's".toList ∧
    (read .plain ("echo ".toList ++ quoteStr "it's".toList ++ [])).1 =
      (read .plain "echo ".toList).1 ++ frag ++ (read .plain []).1 :=
  (@quoted_value_safe "echo ".toList (by decide)).1 "it's".toList []

/-! ### What is expanded -/

/-- The placeholder that a text starts with. -/
def documented (t : List Char) : Option Placeholder :=
  Placeholder.all.find? fun k => ('{' :: (k.name ++ ['}'])).isPrefixOf t

/-- The template with its placeholders replaced and every other byte copied, as documented. -/
def substitute (a : OnFinish) : List Char → List Char
  | [] => []
  | c :: t =>
    match documented (c :: t) with
    | some k => a.value k ++ substitute a (t.drop (k.name.length + 1))
    | none => c :: substitute a t
termination_by t => t.length
decreasing_by
  · simp only [List.length_drop, List.length_cons]
    omega
  · exact Nat.lt_succ_self _

/-- A text that ends at the first brace behind an opening brace is the name of a placeholder, unless
it is too long to be one. -/
def OnlyPlaceholders (t : List Char) : Prop :=
  ∀ t', '{' :: t' <:+ t → ∀ n, closing t' = some n → n < 32 →
    (Placeholder.ofKey (t'.take n)).isSome

theorem name_unique {k k' : Placeholder} {rest rest' : List Char}
    (h : k.name ++ '}' :: rest = k'.name ++ '}' :: rest') : k = k' := by
  have hlen : k.name.length = k'.name.length := by
    have hclose : closing (k.name ++ '}' :: rest) = _ := closing_append k.brace_notMem_name.1
    rw [h, closing_append k'.brace_notMem_name.1] at hclose
    exact (Option.some.inj hclose).symm
  exact Placeholder.name_injective (List.append_inj h hlen).1

theorem documented_eq_some {k : Placeholder} :
    documented t = some k ↔ ∃ rest, t = '{' :: (k.name ++ '}' :: rest) := by
  have hstarts : ∀ k : Placeholder, ('{' :: (k.name ++ ['}'])).isPrefixOf t = true ↔
      ∃ rest, t = '{' :: (k.name ++ '}' :: rest) := by
    intro k
    rw [List.isPrefixOf_iff_prefix]
    exact exists_congr fun rest => by simp [eq_comm]
  constructor
  · intro h
    rw [documented] at h
    have hk := List.find?_some h
    exact (hstarts k).1 hk
  · rintro ⟨rest, rfl⟩
    have hsome : (documented ('{' :: (k.name ++ '}' :: rest))).isSome :=
      List.find?_isSome.2 ⟨k, k.mem_all, (hstarts k).2 ⟨rest, rfl⟩⟩
    obtain ⟨k', hk'⟩ := Option.isSome_iff_exists.1 hsome
    have hfound := hk'
    rw [documented] at hfound
    have hp := List.find?_some hfound
    obtain ⟨rest', heq⟩ := (hstarts k').1 hp
    rw [hk', name_unique (List.cons.inj heq).2]

/-- Only a text that starts with an opening brace starts with a placeholder. -/
theorem documented_of_ne {c : Char} (hc : c ≠ '{') : documented (c :: t) = none := by
  by_contra hne
  obtain ⟨k, hk⟩ := Option.ne_none_iff_exists'.1 hne
  obtain ⟨rest, heq⟩ := documented_eq_some.1 hk
  exact hc (List.cons.inj heq).1

/-- The text up to the next closing brace decides. -/
theorem documented_brace : documented ('{' :: t) =
    (closing t).bind fun n => Placeholder.ofKey (t.take n) := by
  refine Option.ext fun k => ?_
  rw [documented_eq_some, Option.bind_eq_some_iff]
  constructor
  · rintro ⟨rest, heq⟩
    obtain rfl := (List.cons.inj heq).2
    exact ⟨_, closing_append k.brace_notMem_name.1, by
      rw [List.take_left, Placeholder.ofKey_eq_some]⟩
  · rintro ⟨n, hn, hk⟩
    obtain ⟨-, heq, -⟩ := closing_some hn
    rw [Placeholder.ofKey_eq_some.1 hk] at heq
    exact ⟨_, by rw [← heq]⟩

/-! ### When a template is expanded as documented -/

theorem substitute_of_ne {c : Char} (hc : c ≠ '{') : substitute a (c :: t) = c :: substitute a t := by
  rw [substitute, documented_of_ne hc]

theorem substitute_of_none (h : documented ('{' :: t) = none) :
    substitute a ('{' :: t) = '{' :: substitute a t := by
  rw [substitute, h]

theorem substitute_name {k : Placeholder} (hk : Placeholder.ofKey key = some k) (h : '}' ∉ key) :
    substitute a ('{' :: (key ++ '}' :: rest)) = a.valueOf key ++ substitute a rest := by
  obtain rfl := Placeholder.ofKey_eq_some.1 hk
  have hdrop : (k.name ++ '}' :: rest).drop (k.name.length + 1) = rest := by simp
  rw [substitute, documented_brace, closing_append h, Option.bind_some, List.take_left, hk]
  show a.value k ++ substitute a ((k.name ++ '}' :: rest).drop (k.name.length + 1)) = _
  rw [hdrop, OnFinish.valueOf, hk]
  rfl

theorem documented_key (h : '}' ∉ key) :
    documented ('{' :: (key ++ '}' :: rest)) = Placeholder.ofKey key := by
  rw [documented_brace, closing_append h, Option.bind_some, List.take_left]

/-- What is behind a closing brace is expanded by itself, whatever stands before it. -/
theorem length_substitute_append (h : '}' ∉ key) :
    (substitute a rest).length ≤ (substitute a (key ++ '}' :: rest)).length := by
  induction key with
  | nil =>
    rw [List.nil_append, substitute_of_ne (by decide), List.length_cons]
    exact Nat.le_succ _
  | cons c key ih =>
    have hkey : '}' ∉ key := fun hmem => h (List.mem_cons_of_mem _ hmem)
    rw [List.cons_append]
    by_cases hc : c = '{'
    · subst hc
      cases hk : Placeholder.ofKey key with
      | some k =>
        rw [substitute_name hk hkey, List.length_append]
        exact Nat.le_add_left _ _
      | none =>
        rw [substitute_of_none ((documented_key hkey).trans hk), List.length_cons]
        exact (ih hkey).trans (Nat.le_succ _)
    · rw [substitute_of_ne hc, List.length_cons]
      exact (ih hkey).trans (Nat.le_succ _)

/-- A text too long to be a name, or without a closing brace, starts with no placeholder. -/
theorem documented_of_long (h : ∀ n, closing t = some n → ¬n < 32) : documented ('{' :: t) = none := by
  rw [documented_brace, Option.bind_eq_none_iff]
  intro n hn
  by_contra hne
  obtain ⟨k, hk⟩ := Option.ne_none_iff_exists'.1 hne
  have hlen := congrArg List.length (Placeholder.ofKey_eq_some.1 hk)
  rw [(closing_some hn).2.2] at hlen
  exact h n hn (hlen ▸ k.brace_notMem_name.2.2)

/-- A suffix that starts with an opening brace does not start inside a text without one. -/
theorem suffix_of_suffix_append {l : List Char} (hl : '{' ∉ l) {t' : List Char}
    (h : '{' :: t' <:+ l ++ rest) : '{' :: t' <:+ rest := by
  induction l with
  | nil => exact h
  | cons c l ih =>
    rw [List.cons_append, List.suffix_cons_iff] at h
    obtain heq | h := h
    · exact absurd (List.cons.inj heq).1 fun hc => hl (hc ▸ List.mem_cons_self)
    · exact ih (fun hmem => hl (List.mem_cons_of_mem _ hmem)) h

theorem onlyPlaceholders_of_suffix (h : OnlyPlaceholders t) (hsuf : rest <:+ t) :
    OnlyPlaceholders rest := fun t' h' => h t' (h'.trans hsuf)

theorem onlyPlaceholders_cons {c : Char} : OnlyPlaceholders (c :: t) ↔ OnlyPlaceholders t ∧
    (c = '{' → ∀ n, closing t = some n → n < 32 → (Placeholder.ofKey (t.take n)).isSome) := by
  constructor
  · intro h
    exact ⟨onlyPlaceholders_of_suffix h (List.suffix_cons c t),
      fun hc => h t (hc ▸ List.suffix_refl _)⟩
  · rintro ⟨ht, hhead⟩ t' hsuf
    rw [List.suffix_cons_iff] at hsuf
    obtain heq | hsuf := hsuf
    · obtain ⟨hc, rfl⟩ := List.cons.inj heq
      exact hhead hc.symm
    · exact ht t' hsuf

/-- Behind a placeholder, the rest decides. -/
theorem onlyPlaceholders_name {k : Placeholder} (h : OnlyPlaceholders rest) :
    OnlyPlaceholders ('{' :: (k.name ++ '}' :: rest)) := by
  intro t' hsuf
  rw [List.suffix_cons_iff] at hsuf
  obtain heq | hsuf := hsuf
  · obtain rfl := (List.cons.inj heq).2
    intro n hn _
    rw [closing_append k.brace_notMem_name.1] at hn
    obtain rfl := Option.some.inj hn
    rw [List.take_left, Placeholder.ofKey_eq_some.2 rfl]
    rfl
  · have hnot : '{' ∉ k.name ++ ['}'] := by
      simpa using k.brace_notMem_name.2.1
    refine h t' (suffix_of_suffix_append hnot ?_)
    simpa using hsuf

/-- The expansion is no longer than what is documented, and shorter if something is lost. -/
structure Compared (a : OnFinish) (t : List Char) : Prop where
  le : (expandTemplate a t).length ≤ (substitute a t).length
  only : (expandTemplate a t).length = (substitute a t).length → OnlyPlaceholders t
  same : OnlyPlaceholders t → expandTemplate a t = substitute a t

/-- A byte that is copied. -/
theorem Compared.copy {c : Char} (h : Compared a t)
    (hexp : expandTemplate a (c :: t) = c :: expandTemplate a t)
    (hsub : substitute a (c :: t) = c :: substitute a t)
    (hhead : c = '{' → ∀ n, closing t = some n → ¬n < 32) : Compared a (c :: t) where
  le := by
    rw [hexp, hsub, List.length_cons, List.length_cons]
    exact Nat.succ_le_succ h.le
  only := by
    intro heq
    rw [hexp, hsub, List.length_cons, List.length_cons] at heq
    exact onlyPlaceholders_cons.2
      ⟨h.only (Nat.succ.inj heq), fun hc n hn hlt => absurd hlt (hhead hc n hn)⟩
  same := by
    intro honly
    rw [hexp, hsub, h.same (onlyPlaceholders_cons.1 honly).1]

theorem compared (a : OnFinish) (t : List Char) : Compared a t := by
  induction t using pieces.induct with
  | case1 =>
    refine ⟨?_, fun _ t' hsuf => ?_, fun _ => ?_⟩
    · simp [expandTemplate]
    · exact absurd (List.suffix_nil.1 hsuf) (List.cons_ne_nil _ _)
    · simp [expandTemplate, substitute]
  | case2 t klen hclose hlen ih =>
    obtain ⟨hnot, heq, -⟩ := closing_some hclose
    have hexp : expandTemplate a ('{' :: t) =
        a.valueOf (t.take klen) ++ expandTemplate a (t.drop (klen + 1)) := by
      rw [expandTemplate, if_pos rfl, hclose]
      exact if_pos hlen
    cases hk : Placeholder.ofKey (t.take klen) with
    | some k =>
      have hsub : substitute a ('{' :: t) =
          a.valueOf (t.take klen) ++ substitute a (t.drop (klen + 1)) := by
        conv_lhs => rw [heq]
        exact substitute_name hk hnot
      refine ⟨?_, fun h => ?_, fun h => ?_⟩
      · rw [hexp, hsub, List.length_append, List.length_append]
        exact Nat.add_le_add_left ih.le _
      · rw [hexp, hsub, List.length_append, List.length_append] at h
        rw [heq, Placeholder.ofKey_eq_some.1 hk]
        exact onlyPlaceholders_name (ih.only (Nat.add_left_cancel h))
      · have hsuf : t.drop (klen + 1) <:+ '{' :: t :=
          (List.drop_suffix _ _).trans (List.suffix_cons _ _)
        rw [hexp, hsub, ih.same (onlyPlaceholders_of_suffix h hsuf)]
    | none =>
      -- the text between the braces is lost
      have hlt : (expandTemplate a ('{' :: t)).length < (substitute a ('{' :: t)).length := by
        have hdoc : documented ('{' :: t) = none := by
          rw [heq, documented_key hnot, hk]
        have hrest : (substitute a (t.drop (klen + 1))).length ≤ _ := length_substitute_append hnot
        rw [← heq] at hrest
        have hle := ih.le
        rw [hexp, OnFinish.valueOf, hk, Option.map_none, Option.getD_none, List.nil_append,
          substitute_of_none hdoc, List.length_cons]
        omega
      refine ⟨hlt.le, fun h => absurd h hlt.ne, fun h => ?_⟩
      have hsome := (onlyPlaceholders_cons.1 h).2 rfl klen hclose hlen
      rw [hk] at hsome
      cases hsome
  | case3 t klen hclose hlen ih =>
    have hlong : ∀ n, closing t = some n → ¬n < 32 := fun n hn =>
      Option.some.inj (hclose.symm.trans hn) ▸ hlen
    refine ih.copy ?_ (substitute_of_none (documented_of_long hlong)) fun _ => hlong
    rw [expandTemplate, if_pos rfl, hclose]
    exact if_neg hlen
  | case4 t hclose ih =>
    have hlong : ∀ n, closing t = some n → ¬n < 32 := fun n hn => by
      rw [hclose] at hn
      cases hn
    refine ih.copy ?_ (substitute_of_none (documented_of_long hlong)) fun _ => hlong
    rw [expandTemplate, if_pos rfl, hclose]
  | case5 c t hc ih =>
    refine ih.copy ?_ (substitute_of_ne hc) fun h => absurd h hc
    rw [expandTemplate, if_neg hc]

/-- **Only placeholders are replaced**, and everything else is copied, exactly if no short text
between an opening brace and the next closing one is anything but the name of a placeholder. -/
theorem expandTemplate_eq_iff (a : OnFinish) (t : List Char) :
    expandTemplate a t = substitute a t ↔ OnlyPlaceholders t :=
  ⟨fun h => (compared a t).only (congrArg List.length h), (compared a t).same⟩

/-- The callback of a job without texts. -/
def plainCallback : OnFinish where
  jobid := 1000
  output := none
  exitid := 0
  pid := 100
  label := none
  command := none
  realSec := 1
  userSec := 0
  sysSec := 0
  pauseDuration := 0
  startTime := 1
  enqueueTime := 1
  endTime := 2
  numSlots := 1

/-- The shell never sees the variable of `echo ${HOME}`. -/
theorem shell_variable_lost : ¬∀ (a : OnFinish) (t : List Char),
    expandTemplate a t = substitute a t := by
  intro hall
  have honly := (compared plainCallback "${HOME}".toList).only
    (congrArg List.length (hall plainCallback "${HOME}".toList))
  have hsome : (Placeholder.ofKey "HOME".toList).isSome :=
    honly "HOME\x7d".toList ⟨['$'], rfl⟩ 4 (by decide) (by decide)
  exact absurd hsome (by decide)

/-! ### The buffers -/

/-- The length of what `quote_str` makes of a string argument. -/
def quotedLength : Option (List Char) → ℕ
  | none => 0
  | some s => s.length + 3 * s.count '\'' + 2

namespace OnFinish

/-- The length of a value. -/
def valueLength (a : OnFinish) (key : List Char) : ℕ :=
  match Placeholder.ofKey key with
  | some .output => quotedLength a.output
  | some .label => quotedLength a.label
  | some .command => quotedLength a.command
  | _ => (a.valueOf key).length

theorem length_quoted (s : Option (List Char)) : (quoted s).length = quotedLength s := by
  cases s with
  | none => rfl
  | some s => exact length_quoteStr s

theorem length_valueOf (a : OnFinish) (key : List Char) :
    (a.valueOf key).length = a.valueLength key := by
  rw [valueLength]
  split
  · rename_i hk
    rw [valueOf, hk]
    exact length_quoted a.output
  · rename_i hk
    rw [valueOf, hk]
    exact length_quoted a.label
  · rename_i hk
    rw [valueOf, hk]
    exact length_quoted a.command
  · rfl

/-- What a piece needs beyond the two bytes for each byte of the template. -/
def excess (a : OnFinish) : Piece → ℤ
  | .byte _ => -1
  | .braces key => a.valueLength key - 2 * (key.length + 2)

end OnFinish

theorem sum_excess (l : List Piece) : (l.map a.excess).sum =
    ((l.flatMap a.expand).length : ℤ) - 2 * (l.flatMap Piece.text).length := by
  induction l with
  | nil => rfl
  | cons x l ih =>
    rw [List.map_cons, List.sum_cons, ih, List.flatMap_cons, List.flatMap_cons, List.length_append,
      List.length_append]
    cases x with
    | byte c =>
      simp only [OnFinish.excess, OnFinish.expand, Piece.text, List.length_singleton]
      push_cast
      ring
    | braces key =>
      simp only [OnFinish.excess, OnFinish.expand, Piece.text, a.length_valueOf, List.length_cons,
        List.length_append, List.length_nil]
      push_cast
      ring

/-- **When the buffers are large enough.**  `quote_str` stays within its buffer exactly if there are
three characters for each single quote, and `expand_template` exactly if the values, less twice
their placeholders, exceed the other bytes by at most 255. -/
theorem expansion_fits_iff (s : List Char) (a : OnFinish) (t : List Char) :
    (quoteWritten s ≤ quoteNeed s ↔ 3 * s.count '\'' ≤ s.length) ∧
      (expandWritten a t ≤ expandNeed t ↔ ((pieces t).map a.excess).sum ≤ 255) := by
  constructor
  · rw [quoteWritten, quoteNeed, length_quoteStr]
    omega
  · rw [expandWritten, expandNeed, sum_excess, pieces_text, expandTemplate_pieces]
    omega

theorem expandWritten_label (s : List Char) :
    expandWritten { plainCallback with label := some s } "{label}".toList =
      s.length + 3 * s.count '\'' + 3 := by
  have hexp : expandTemplate { plainCallback with label := some s } "{label}".toList =
      quoteStr s ++ expandTemplate { plainCallback with label := some s } [] :=
    expandTemplate_braces "label".toList [] (by decide) (by decide)
  have hnil : expandTemplate { plainCallback with label := some s } [] = [] := by
    rw [expandTemplate]
  rw [expandWritten, hexp, hnil, List.append_nil, length_quoteStr]

/-- The string `'` does not fit, and neither does a label of three hundred letters. -/
theorem quotes_overflow : ¬((∀ s, quoteWritten s ≤ quoteNeed s) ∧
    ∀ (a : OnFinish) (t : List Char), expandWritten a t ≤ expandNeed t) ∧
    ¬∀ (a : OnFinish) (t : List Char), expandWritten a t ≤ expandNeed t := by
  constructor
  · rintro ⟨hall, -⟩
    exact absurd (hall ['\'']) (by decide)
  · intro hall
    have h := hall { plainCallback with label := some (List.replicate 300 'a') } "{label}".toList
    have hneed : expandNeed "{label}".toList = 270 := by decide
    rw [expandWritten_label, hneed, List.length_replicate] at h
    omega

end TaskSpooler
