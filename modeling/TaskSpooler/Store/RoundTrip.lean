import TaskSpooler.Store.Sql

/-!
# The round trip of a job through the database

* `values_editTail`: SQLite reads from the statement of `edit_DB` the values that are meant, whatever
  quotes, commas or parentheses the texts hold.
* `readRow_storedRow`: what `read_DB` makes of such a row.
* `read_written_iff`: the job comes back as it was only if none of its strings is missing or one of
  the words for a missing string (a missing label is fine), and its text has one character:
  `read_DB` takes the number of bytes in which `nchars` is written for `nchars`.
-/

namespace TaskSpooler

namespace Sql

open Reader CpuBind

/-! ### Numbers -/

theorem decimal_of_nonneg {z : ℤ} (h : 0 ≤ z) : decimal z = Nat.toDigits 10 z.natAbs :=
  if_neg (not_lt.2 h)

theorem decimal_of_neg {z : ℤ} (h : z < 0) : decimal z = '-' :: Nat.toDigits 10 z.natAbs := if_pos h

/-- The first digit of a number. -/
theorem toDigits_eq_cons (n : ℕ) : ∃ d ds, Nat.toDigits 10 n = d :: ds ∧ d.isDigit = true := by
  obtain ⟨d, ds, hds⟩ := List.exists_cons_of_ne_nil (@Nat.toDigits_ne_nil n 10)
  exact ⟨d, ds, hds, isDigit_toDigits d (by rw [hds]; simp)⟩

theorem digits_toDigits (n : ℕ) {rest : List Char} (hrest : ∀ c ∈ rest.head?, c.isDigit = false) :
    digits.run (Nat.toDigits 10 n ++ rest) = some (n, rest) := by
  obtain ⟨d, ds, hds, hd⟩ := toDigits_eq_cons n
  have hne : ((Nat.toDigits 10 n ++ rest).takeWhile Char.isDigit).isEmpty = false := by
    rw [hds, List.cons_append, List.takeWhile_cons, if_pos hd]
    rfl
  change (if ((Nat.toDigits 10 n ++ rest).takeWhile Char.isDigit).isEmpty = true then none
    else some (parseNum (Nat.toDigits 10 n ++ rest))) = _
  rw [hne, parseNum_toDigits n hrest]
  rfl

theorem parseNum_digits (n : ℕ) : parseNum (Nat.toDigits 10 n) = (n, []) := by
  have h : parseNum (Nat.toDigits 10 n ++ []) = (n, []) := parseNum_toDigits n (by simp)
  rwa [List.append_nil] at h

theorem atoi_decimal (z : ℤ) : atoi (decimal z) = z := by
  by_cases hz : z < 0
  · rw [decimal_of_neg hz]
    change -((parseNum (Nat.toDigits 10 z.natAbs)).1 : ℤ) = z
    rw [parseNum_digits]
    omega
  · obtain ⟨d, ds, hds, hd⟩ := toDigits_eq_cons z.natAbs
    have hne : ∀ c : Char, c.isDigit = false → d ≠ c := by
      rintro c hc rfl
      rw [hd] at hc
      cases hc
    have hskip : (d :: ds).dropWhile (fun c => c = ' ' ∨ c = '\t' ∨ c = '\n') = d :: ds := by
      simp [hne ' ' rfl, hne '\t' rfl, hne '\n' rfl]
    rw [decimal_of_nonneg (not_lt.1 hz), hds, atoi, hskip]
    split
    · rename_i h
      exact absurd (List.cons.inj h).1 (hne '-' rfl)
    · rename_i h
      exact absurd (List.cons.inj h).1 (hne '+' rfl)
    · rw [← hds, parseNum_digits]
      omega

theorem notMem_decimal {c : Char} (z : ℤ) (hc : c.isDigit = false) (hminus : c ≠ '-') :
    c ∉ decimal z := by
  have hdigit : c ∉ Nat.toDigits 10 z.natAbs := by
    intro h
    rw [isDigit_toDigits c h] at hc
    cases hc
  unfold decimal
  split_ifs
  · simp [hminus, hdigit]
  · exact hdigit

theorem decimal_ne_nil (z : ℤ) : decimal z ≠ [] := by
  unfold decimal
  split_ifs
  · simp
  · exact Nat.toDigits_ne_nil

/-! ### Literals -/

theorem stringBody_escape (t : List Char) {rest : List Char} (hrest : rest.head? ≠ some '\'') :
    stringBody (escape t ++ '\'' :: rest) = some (t, rest) := by
  induction t with
  | nil =>
    cases rest with
    | nil => rfl
    | cons c rest =>
      have hc : c ≠ '\'' := by simpa using hrest
      simp [escape, stringBody, hc]
  | cons c t ih =>
    by_cases hc : c = '\''
    · subst hc
      simpa [escape, stringBody] using ih
    · have hstep : escape (c :: t) = c :: escape t := by simp [escape, hc]
      rw [hstep, List.cons_append, stringBody.eq_4 _ _ (by simp [hc]) (by simp [hc]), ih]
      rfl

theorem literal_quoted (t : List Char) {rest : List Char} (hrest : rest.head? ≠ some '\'') :
    literal.run (quoted (escape t) ++ rest) = some (.text t, rest) := by
  change (stringBody ((escape t ++ ['\'']) ++ rest)).map _ = _
  rw [List.append_assoc, List.singleton_append, stringBody_escape t hrest]
  rfl

theorem literal_decimal (z : ℤ) {rest : List Char} (hrest : ∀ c ∈ rest.head?, c.isDigit = false) :
    literal.run (decimal z ++ rest) = some (.integer z, rest) := by
  by_cases hz : z < 0
  · rw [decimal_of_neg hz]
    change (digits.run (Nat.toDigits 10 z.natAbs ++ rest)).map _ = _
    rw [digits_toDigits _ hrest]
    simp only [Option.map_some, Option.some.injEq, Prod.mk.injEq, Value.integer.injEq, and_true]
    omega
  · obtain ⟨d, ds, hds, hd⟩ := toDigits_eq_cons z.natAbs
    have hrun := digits_toDigits z.natAbs hrest
    rw [decimal_of_nonneg (not_lt.1 hz)]
    rw [hds, List.cons_append] at hrun ⊢
    have hne : ∀ c : Char, c.isDigit = false → d ≠ c := by
      rintro c hc rfl
      rw [hd] at hc
      cases hc
    have hlit : literal.run (d :: (ds ++ rest)) =
        (digits.run (d :: (ds ++ rest))).map fun x => (.integer x.1, x.2) := by
      simp only [StateT.run, literal]
      split
      · rename_i h
        exact absurd (List.cons.inj h).1 (hne '\'' rfl)
      · rename_i h
        exact absurd (List.cons.inj h).1 (hne '-' rfl)
      · rfl
    rw [hlit, hrun]
    simp only [Option.map_some, Option.some.injEq, Prod.mk.injEq, Value.integer.injEq, and_true]
    omega

/-- A literal, perhaps behind blanks, with the character behind it. -/
theorem reads_value {stop : Char} {v : Value} {w lit : List Char}
    (hskip : ∀ rest, (w ++ rest).dropWhile (· = ' ') = lit ++ rest)
    (hlit : ∀ rest, literal.run (lit ++ stop :: rest) = some (v, stop :: rest)) :
    Reads (value stop) (w ++ [stop]) v := by
  intro rest
  have h := hlit rest
  rw [← hskip] at h
  simp only [StateT.run] at h
  simp [StateT.run, value, h]

theorem reads_quoted (t : List Char) {stop : Char} (hstop : stop ≠ '\'') :
    Reads (value stop) (quoted (escape t) ++ [stop]) (.text t) := by
  have hskip : ∀ rest, (quoted (escape t) ++ rest).dropWhile (· = ' ') =
      quoted (escape t) ++ rest := fun rest => by simp [quoted]
  exact reads_value hskip fun rest => literal_quoted t (by simpa using hstop)

theorem dropWhile_decimal (z : ℤ) (rest : List Char) :
    (decimal z ++ rest).dropWhile (· = ' ') = decimal z ++ rest := by
  cases hz : decimal z with
  | nil => exact absurd hz (decimal_ne_nil z)
  | cons d ds =>
    have hd : d ≠ ' ' := by
      rintro rfl
      exact notMem_decimal (c := ' ') z rfl (by decide) (by rw [hz]; simp)
    simp [hd]

theorem reads_decimal (z : ℤ) {stop : Char} (hstop : stop.isDigit = false) :
    Reads (value stop) (decimal z ++ [stop]) (.integer z) :=
  reads_value (dropWhile_decimal z) fun _ => literal_decimal z (by simpa using hstop)

theorem reads_blank_decimal (z : ℤ) {stop : Char} (hstop : stop.isDigit = false) :
    Reads (value stop) (' ' :: decimal z ++ [stop]) (.integer z) := by
  refine reads_value (fun rest => ?_) fun _ => literal_decimal z (by simpa using hstop)
  rw [List.cons_append, List.dropWhile_cons_of_pos (by simp), dropWhile_decimal]

theorem escape_decimal (z : ℤ) : escape (decimal z) = decimal z := by
  have h : ∀ t : List Char, '\'' ∉ t → escape t = t := by
    intro t ht
    induction t with
    | nil => rfl
    | cons c t ih =>
      rw [List.mem_cons, not_or] at ht
      rw [escape, List.flatMap_cons, if_neg (Ne.symm ht.1), List.singleton_append]
      exact congrArg (c :: ·) (ih ht.2)
  exact h _ (notMem_decimal z rfl (by decide))

/-! ### The statement -/

/-- The columns of a job, as `edit_DB` means them. -/
def storedColumn (tsUid orderId : Int32) (j : JobRecord) : Values
  | .jobid => .integer j.jobid.toInt
  | .command => .text (Spool.storedText j.command).toList
  | .state => .integer j.state.toInt
  | .outputFilename => .text (Spool.storedText j.outputFilename).toList
  | .storeOutput => .integer j.storeOutput.toInt
  | .pid => .integer j.pid.toInt
  | .tsUid => .integer tsUid.toInt
  | .shouldKeepFinished => .integer j.shouldKeepFinished.toInt
  | .dependOn => .text (intsToChars j.dependOn)
  | .dependOnSize => .integer (Int32.ofNat j.dependOn.length).toInt
  | .notifyErrorlevelTo => .text (intsToChars j.notifyErrorlevelTo)
  | .notifyErrorlevelToSize => .integer (Int32.ofNat j.notifyErrorlevelTo.length).toInt
  | .dependencyErrorlevel => .integer j.dependencyErrorlevel.toInt
  | .label => .text (j.label.getD "(..)").toList
  | .email => .text []
  | .numSlots => .integer j.numSlots.toInt
  | .errorlevel => .integer j.errorlevel.toInt
  | .diedBySignal => .integer j.diedBySignal.toInt
  | .signal => .integer j.signal.toInt
  | .userSec => .integer j.userSec.toInt
  | .systemSec => .integer j.systemSec.toInt
  | .realSec => .integer j.realSec.toInt
  | .skipped => .integer j.skipped.toInt
  | .ptr => .text (Spool.storedText j.ptr).toList
  | .nchars => .integer j.nchars.toInt
  | .allocchars => .integer j.allocchars.toInt
  | .wallTime => .integer j.wallTime.toInt
  | .scheduleTime => .integer j.scheduleTime.toInt
  | .enqueueTime => .text (decimal j.enqueueTime.toInt)
  | .startTime => .text (decimal j.startTime.toInt)
  | .endTime => .text (decimal j.endTime.toInt)
  | .pauseTime => .text (decimal j.pauseTime.toInt)
  | .pauseDuration => .text (decimal j.pauseDuration.toInt)
  | .endTimeMs => .text (decimal j.bootTime.toInt)
  | .orderId => .integer orderId.toInt
  | .commandStrip => .integer j.commandStrip.toInt
  | .workDir => .text (Spool.storedText j.workDir).toList

/-- The values of the statement, the last one apart. -/
def storedValues (tsUid orderId : Int32) (j : JobRecord) : List Value :=
  insertColumns.dropLast.map (storedColumn tsUid orderId j)

theorem reads_printInt (x : Int32) : Reads (value ',') (printInt x ++ [',']) (.integer x.toInt) :=
  reads_decimal x.toInt rfl

theorem reads_printLong (x : Int64) : Reads (value ',') (printLong x ++ [',']) (.integer x.toInt) :=
  reads_decimal x.toInt rfl

theorem reads_blank_printInt (x : Int32) :
    Reads (value ',') (' ' :: printInt x ++ [',']) (.integer x.toInt) :=
  reads_blank_decimal x.toInt rfl

theorem reads_text (t : List Char) : Reads (value ',') (quoted (escape t) ++ [',']) (.text t) :=
  reads_quoted t (by decide)

theorem reads_quoted_printLong (x : Int64) :
    Reads (value ',') (quoted (printLong x) ++ [',']) (.text (decimal x.toInt)) := by
  have h := reads_text (decimal x.toInt)
  rwa [escape_decimal] at h

/-- Each value of the statement is read as it was meant. -/
theorem reads_editValues (tsUid orderId : Int32) (j : JobRecord) :
    List.Forall₂ (Reads (value ',')) ((editValues tsUid orderId j).map (· ++ [',']))
      (storedValues tsUid orderId j) := by
  have hempty : Reads (value ',') (quoted [] ++ [',']) (.text []) := reads_text []
  simp only [editValues, storedValues, insertColumns, storedColumn, List.dropLast_cons_cons,
    List.dropLast_singleton, List.map_cons, List.map_nil, List.forall₂_cons,
    List.forall₂_nil_left_iff, mprintfQ, reads_printInt, reads_printLong, reads_text,
    reads_quoted_printLong, reads_blank_printInt, hempty, Spool.storedText, Option.getD_some, and_self]

/-- **SQLite reads the values that `edit_DB` means.** -/
theorem values_editTail (tsUid orderId : Int32) (j : JobRecord) :
    values.run (editTail tsUid orderId j) =
      some (storedValues tsUid orderId j ++ [.text (Spool.storedText j.workDir).toList], [';']) := by
  have hlist := Reads.times (reads_editValues tsUid orderId j)
  have hlast : Reads (value ')') (quoted (mprintfQ j.workDir) ++ [')'])
      (.text (Spool.storedText j.workDir).toList) := reads_quoted _ (by decide)
  have hall : Reads values _ _ := Reads.bind hlist (Reads.bind_pure hlast _)
  have h := hall [';']
  rw [List.append_assoc] at h
  exact h

/-! ### Lists of job ids -/

theorem intsToChars_eq (l : List Int32) :
    intsToChars l = [','].intercalate (l.map fun x => decimal x.toInt) := by
  induction l using intsToChars.induct with
  | case1 => rfl
  | case2 x => simp [intsToChars]
  | case3 x rest hne ih =>
    cases rest with
    | nil => exact absurd rfl hne
    | cons y rest =>
      rw [intsToChars, ih]
      · simp [List.intercalate]
      · exact hne

theorem count_intsToChars {l : List Int32} (hne : l ≠ []) :
    (intsToChars l).count ',' + 1 = l.length := by
  have hcount : ∀ x : Int32, (decimal x.toInt).count ',' = 0 := fun x =>
    List.count_eq_zero_of_not_mem (notMem_decimal x.toInt rfl (by decide))
  induction l using intsToChars.induct with
  | case1 => exact absurd rfl hne
  | case2 x => simp [intsToChars, hcount]
  | case3 x rest hrest ih =>
    rw [intsToChars, List.count_append, List.count_cons_self, hcount, List.length_cons,
      ← ih hrest]
    · omega
    · exact hrest

/-- A list of job ids that is not empty is read back. -/
theorem charsToInts_intsToChars {l : List Int32} (hne : l ≠ []) :
    charsToInts (intsToChars l) = l := by
  have hsplit : (intsToChars l).splitOn ',' = l.map fun x => decimal x.toInt := by
    rw [intsToChars_eq]
    refine List.splitOn_intercalate ',' (fun piece hpiece => ?_) (by simpa using hne)
    obtain ⟨x, -, rfl⟩ := List.mem_map.1 hpiece
    exact notMem_decimal x.toInt rfl (by decide)
  have htok : strtokComma (intsToChars l) = l.map fun x => decimal x.toInt := by
    rw [strtokComma, hsplit, List.filter_eq_self]
    intro piece hpiece
    obtain ⟨x, -, rfl⟩ := List.mem_map.1 hpiece
    simp [decimal_ne_nil]
  have hints : (strtokComma (intsToChars l)).map (fun piece => Int32.ofInt (atoi piece)) = l := by
    simp [htok, atoi_decimal, Function.comp_def]
  simp only [charsToInts]
  rw [hints, count_intsToChars hne, Nat.sub_self, List.replicate_zero, List.append_nil]

theorem length_le_intsToChars (l : List Int32) : l.length ≤ (intsToChars l).length + 1 := by
  by_cases hne : l = []
  · simp [hne]
  · have hcount := count_intsToChars hne
    have hle := List.count_le_length (a := ',') (l := intsToChars l)
    omega

/-! ### The row -/

/-- The row that the statement makes. -/
def storedRow (tsUid orderId : Int32) (j : JobRecord) : Values :=
  rowOf (storedValues tsUid orderId j ++ [.text (Spool.storedText j.workDir).toList])

theorem storedRow_eq (tsUid orderId : Int32) (j : JobRecord) :
    storedRow tsUid orderId j = storedColumn tsUid orderId j := by
  funext c
  cases c <;> rfl

/-- The job that is read from the row of a job. -/
def restored (U : Users) (table : TableName) (tsUid : Int32) (j : JobRecord) : JobRecord :=
  { j with
    command := Spool.copyWithNullcheck (Spool.storedText j.command)
    outputFilename := Spool.copyWithNullcheck (Spool.storedText j.outputFilename)
    user := (if table = .jobs then U.byPid j.pid else none).or (U.byUid tsUid)
    label := Spool.copyWithNullcheck (j.label.getD "(..)")
    userSec := (Int32.ofInt j.userSec.toInt).toInt64
    systemSec := (Int32.ofInt j.systemSec.toInt).toInt64
    realSec := (Int32.ofInt j.realSec.toInt).toInt64
    ptr := Spool.copyWithNullcheck (Spool.storedText j.ptr)
    nchars := Int32.ofNat (decimal j.nchars.toInt).length
    allocchars := Int32.ofNat (decimal j.allocchars.toInt).length
    workDir := Spool.copyWithNullcheck (Spool.storedText j.workDir) }

theorem copyText_of_lt {t : List Char} (h : t.length < 16384) : copyText (.text t) = some t :=
  if_pos h

theorem readText_of_lt {t : String} (h : t.toList.length < 16384) :
    readText (.text t.toList) = some (Spool.copyWithNullcheck t) := by
  rw [readText, copyText_of_lt h, Option.map_some, String.ofList_toList]

theorem readInts_of_lt {l : List Int32} (h : (intsToChars l).length < 16384) :
    readInts (.integer (Int32.ofNat l.length).toInt) (.text (intsToChars l)) = some l := by
  have hlen : l.length < 2 ^ 31 := lt_of_le_of_lt (length_le_intsToChars l) (by omega)
  have hsize : (Value.integer (Int32.ofNat l.length).toInt).columnInt = 0 ↔ l = [] := by
    rw [Value.columnInt, Value.number, Int32.ofInt_toInt, ← Int32.toInt_inj,
      Int32.toInt_ofNat_of_lt hlen]
    simp
  by_cases hl : l = []
  · rw [readInts, if_pos (hsize.2 hl), hl]
  · rw [readInts, if_neg (mt hsize.1 hl), copyText_of_lt h, Option.map_some,
      charsToInts_intsToChars hl]

theorem columnInt_integer (x : Int32) : (Value.integer x.toInt).columnInt = x := Int32.ofInt_toInt x

theorem columnInt64_integer (x : Int64) : (Value.integer x.toInt).columnInt64 = x :=
  Int64.ofInt_toInt x

theorem columnInt64_text (x : Int64) : (Value.text (decimal x.toInt)).columnInt64 = x := by
  rw [Value.columnInt64, Value.number, atoi_decimal, Int64.ofInt_toInt]

/-- The texts of a job fit into the buffer of `read_DB`. -/
structure TextsFit (j : JobRecord) : Prop where
  command : (Spool.storedText j.command).toList.length < 16384
  outputFilename : (Spool.storedText j.outputFilename).toList.length < 16384
  dependOn : (intsToChars j.dependOn).length < 16384
  notifyErrorlevelTo : (intsToChars j.notifyErrorlevelTo).length < 16384
  label : (j.label.getD "(..)").toList.length < 16384
  ptr : (Spool.storedText j.ptr).toList.length < 16384
  workDir : (Spool.storedText j.workDir).toList.length < 16384

theorem readRow_storedRow (U : Users) (table : TableName) (tsUid orderId : Int32) {j : JobRecord}
    (h : TextsFit j) :
    readRow U table (storedRow tsUid orderId j) = some (restored U table tsUid j) := by
  simp only [readRow, storedRow_eq, nth, tableColumns, List.getD_cons_succ, List.getD_cons_zero,
    storedColumn, readText_of_lt h.command, readText_of_lt h.outputFilename,
    readInts_of_lt h.dependOn, readInts_of_lt h.notifyErrorlevelTo, readText_of_lt h.label,
    readText_of_lt h.ptr, readText_of_lt h.workDir, columnInt_integer, columnInt64_integer,
    columnInt64_text, Option.bind_eq_bind, Option.bind_some]
  rfl

/-! ### The buffer -/

theorem length_le_escape (t : List Char) : t.length ≤ (escape t).length := by
  induction t with
  | nil => simp
  | cons c t ih =>
    have hstep : (escape t).length + 1 ≤ (escape (c :: t)).length := by
      simp only [escape, List.flatMap_cons, List.length_append]
      split_ifs <;> simp only [List.length_cons, List.length_nil] <;> omega
    rw [List.length_cons]
    omega

theorem length_le_editTail {tsUid orderId : Int32} {j : JobRecord} {t : List Char}
    (h : quoted (escape t) ∈ editValues tsUid orderId j) :
    t.length ≤ (editTail tsUid orderId j).length := by
  have hmem : quoted (escape t) ++ [','] ∈ (editValues tsUid orderId j).map (· ++ [',']) :=
    List.mem_map_of_mem h
  have hle := (List.sublist_flatten_of_mem hmem).length_le
  have hesc := length_le_escape t
  simp only [quoted, List.length_append, List.length_cons] at hle
  rw [editTail, List.length_append]
  omega

theorem textsFit_of_lt {tsUid orderId : Int32} {j : JobRecord}
    (h : (editTail tsUid orderId j).length < 16384) : TextsFit j := by
  have hfit : ∀ {t}, quoted (escape t) ∈ editValues tsUid orderId j → t.length < 16384 :=
    fun ht => lt_of_le_of_lt (length_le_editTail ht) h
  have hdir : (Spool.storedText j.workDir).toList.length ≤ (editTail tsUid orderId j).length := by
    have hesc := length_le_escape (Spool.storedText j.workDir).toList
    simp only [editTail, quoted, mprintfQ, List.length_append, List.length_cons]
    omega
  exact ⟨hfit (by simp [editValues, mprintfQ]), hfit (by simp [editValues, mprintfQ]),
    hfit (by simp [editValues]), hfit (by simp [editValues]),
    hfit (by simp [editValues, mprintfQ, Spool.storedText]), hfit (by simp [editValues, mprintfQ]),
    lt_of_le_of_lt hdir h⟩

/-! ### Writing and reading -/

namespace Db

variable {db : Db} {U : Users} {action : Action} {table : TableName} {j : JobRecord}

/-- The uid in the statement. -/
def tsUidOf (U : Users) (j : JobRecord) : Int32 := (j.user.map U.uid).getD (-1)

/-- The key of the job is not taken, or its row is replaced. -/
def MayAdd (db : Db) (action : Action) (table : TableName) (j : JobRecord) : Prop :=
  action = .replace ∨ ∀ row ∈ db.rows table, hasKey j.jobid row = false

theorem rows_setRows (rows : List Values) : (db.setRows rows table).rows table = rows := by
  cases table <;> rfl

theorem find_addRow {row : Values} {db' : Db} (hkey : row .jobid = .integer j.jobid.toInt)
    (h : db.addRow action table row = some db') :
    (db'.rows table).find? (hasKey j.jobid) = some row := by
  rw [addRow] at h
  split_ifs at h
  cases h
  rw [rows_setRows, List.find?_append, List.find?_eq_none.2, Option.none_or]
  · simp [hasKey, hkey]
  · intro r hr
    have hne := (List.mem_filter.1 hr).2
    simpa [hasKey, hkey] using hne

theorem addRow_of_mayAdd {row : Values} (hkey : row .jobid = .integer j.jobid.toInt)
    (h : db.MayAdd action table j) : ∃ db', db.addRow action table row = some db' := by
  refine ⟨_, if_neg ?_⟩
  rintro ⟨hins, hlen⟩
  obtain hrep | hfree := h
  · rw [hins] at hrep
    cases hrep
  · refine hlen (congrArg List.length (List.filter_eq_self.2 fun r hr => ?_))
    have hne := hfree r hr
    simpa [hasKey, hkey] using hne

/-- What is read of a job that has been written. -/
theorem readDb_of_editDb {db' : Db} (h : db.editDb U action table j = some db') :
    (db.editSql U action table j).length < 16384 ∧
      db'.readDb U table j.jobid = some (restored U table (tsUidOf U j) j) := by
  rw [editDb] at h
  split_ifs at h with hlen
  rw [values_editTail, Option.bind_some] at h
  have hfit : TextsFit j := by
    rw [editSql, List.length_append] at hlen
    exact textsFit_of_lt (lt_of_le_of_lt (Nat.le_add_left _ _) hlen)
  refine ⟨hlen, ?_⟩
  rw [readDb, find_addRow (by rfl) h, Option.bind_some]
  exact readRow_storedRow U table (tsUidOf U j) (db.orderIdOf j.jobid) hfit

theorem editDb_of_lt (hadd : db.MayAdd action table j)
    (hlen : (db.editSql U action table j).length < 16384) :
    ∃ db', db.editDb U action table j = some db' := by
  rw [editDb, if_pos hlen, values_editTail, Option.bind_some]
  exact addRow_of_mayAdd (by rfl) hadd

end Db

/-! ### The jobs of the server -/

/-- The code of a state in `enum Jobstate`. -/
def stateCode : Jobstate → Int32
  | .queued => 0
  | .running => 1
  | .abnormal => 2
  | .pause => 3
  | .finished => 4
  | .skipped => 5
  | .holdingClient => 6
  | .wait => 7
  | .delink => 8
  | .locked => 9

/-- The record of a job of the server, with the sizes of its text. -/
def jobRecord (j : Job) (nchars allocchars : Int32) : JobRecord where
  jobid := Int32.ofInt j.jobid
  command := some j.command
  workDir := j.workDir
  commandStrip := Int32.ofInt j.commandStrip
  state := stateCode j.state
  errorlevel := Int32.ofInt j.result.errorlevel
  diedBySignal := if j.result.diedBySignal then 1 else 0
  signal := Int32.ofInt j.result.signal
  userSec := (Int32.ofInt j.result.userSec).toInt64
  systemSec := (Int32.ofInt j.result.systemSec).toInt64
  realSec := (Int32.ofInt j.result.realSec).toInt64
  skipped := if j.result.skipped then 1 else 0
  outputFilename := j.outputFilename
  storeOutput := if j.storeOutput then 1 else 0
  pid := Int32.ofInt j.pid
  user := j.user
  wallTime := Int64.ofInt j.wallTime
  scheduleTime := Int64.ofInt j.scheduleTime
  shouldKeepFinished := if j.shouldKeepFinished then 1 else 0
  dependOn := j.dependOn.map Int32.ofInt
  notifyErrorlevelTo := j.notifyErrorlevelTo.map Int32.ofInt
  dependencyErrorlevel := Int32.ofInt j.dependencyErrorlevel
  label := j.label
  ptr := j.info.ptr
  nchars := nchars
  allocchars := allocchars
  enqueueTime := Int64.ofInt j.info.enqueueTime
  startTime := Int64.ofInt j.info.startTime
  endTime := Int64.ofInt j.info.endTime
  pauseTime := Int64.ofInt j.info.pauseTime
  pauseDuration := Int64.ofInt j.info.pauseDuration
  bootTime := Int64.ofInt j.info.bootTime
  numSlots := Int32.ofInt j.numSlots

theorem toInt64_ofInt_toInt (z : ℤ) :
    (Int32.ofInt (Int32.ofInt z).toInt64.toInt).toInt64 = (Int32.ofInt z).toInt64 := by
  rw [Int32.toInt_toInt64, Int32.ofInt_toInt]

/-- **The row of a job gives the job that the model of the server restores**, up to its owner and the
sizes of its text, if its command is not a word for a missing string. -/
theorem restored_jobRecord {e : Env} {s : Spool} {r : Row} {jobs : Bool} {U : Users}
    {table : TableName} {tsUid nchars allocchars : Int32} {c : String}
    (hc : Spool.copyWithNullcheck r.job.command = some c) :
    restored U table tsUid (jobRecord r.job nchars allocchars) =
      { jobRecord (s.readDb e r jobs) (Int32.ofNat (decimal nchars.toInt).length)
          (Int32.ofNat (decimal allocchars.toInt).length) with
        user := (if table = .jobs then U.byPid (Int32.ofInt r.job.pid) else none).or (U.byUid tsUid) } := by
  simp only [restored, jobRecord, Spool.readDb, Spool.storedText, Option.getD_some, hc,
    toInt64_ofInt_toInt]

/-! ### When a job comes back as it was -/

/-- The two records agree in the fields that a restart has to keep: all but the process, its owner
and the size of a buffer. -/
def SameSaved (j' j : JobRecord) : Prop :=
  { j' with pid := j.pid, user := j.user, allocchars := j.allocchars } = j

/-- A string that is neither missing nor one of the words for a missing string. -/
def Kept (text : Option String) : Prop := ∃ t, text = some t ∧ t ≠ "(null)" ∧ t ≠ "(..)"

/-- The time fits into an `int`. -/
def FitsInt (x : Int64) : Prop := -2 ^ 31 ≤ x.toInt ∧ x.toInt < 2 ^ 31

/-- The jobs that come back as they were. -/
structure Restorable (j : JobRecord) : Prop where
  command : Kept j.command
  outputFilename : Kept j.outputFilename
  ptr : Kept j.ptr
  workDir : Kept j.workDir
  label : j.label ≠ some "(null)" ∧ j.label ≠ some "(..)"
  nchars : j.nchars = 1
  userSec : FitsInt j.userSec
  systemSec : FitsInt j.systemSec
  realSec : FitsInt j.realSec

theorem copyWithNullcheck_eq_some {s t : String} :
    Spool.copyWithNullcheck s = some t ↔ s = t ∧ t ≠ "(null)" ∧ t ≠ "(..)" := by
  unfold Spool.copyWithNullcheck
  split_ifs with h
  · refine iff_of_false (by simp) ?_
    rintro ⟨rfl, h₁, h₂⟩
    exact h.elim h₁ h₂
  · rw [not_or] at h
    constructor
    · intro heq
      cases heq
      exact ⟨rfl, h⟩
    · rintro ⟨rfl, -⟩
      rfl

theorem copyWithNullcheck_eq_none {s : String} :
    Spool.copyWithNullcheck s = none ↔ s = "(null)" ∨ s = "(..)" := by
  unfold Spool.copyWithNullcheck
  split_ifs with h
  · simp [h]
  · simp [h]

theorem text_kept_iff {text : Option String} :
    Spool.copyWithNullcheck (Spool.storedText text) = text ↔ Kept text := by
  cases text with
  | none =>
    -- a missing string comes back as the word that `%q` prints for it
    refine iff_of_false ?_ (by simp [Kept])
    rw [copyWithNullcheck_eq_none]
    decide
  | some t => simp [Spool.storedText, copyWithNullcheck_eq_some, Kept]

theorem label_kept_iff {label : Option String} :
    Spool.copyWithNullcheck (label.getD "(..)") = label ↔
      label ≠ some "(null)" ∧ label ≠ some "(..)" := by
  cases label with
  | none => simp [copyWithNullcheck_eq_none]
  | some t => simp [copyWithNullcheck_eq_some]

theorem seconds_kept_iff {x : Int64} : (Int32.ofInt x.toInt).toInt64 = x ↔ FitsInt x := by
  rw [← Int64.toInt_inj, Int32.toInt_toInt64]
  constructor
  · intro h
    have hlo := Int32.le_toInt (Int32.ofInt x.toInt)
    have hhi := Int32.toInt_lt (Int32.ofInt x.toInt)
    rw [h] at hlo hhi
    exact ⟨hlo, hhi⟩
  · rintro ⟨hlo, hhi⟩
    exact Int32.toInt_ofInt_of_le hlo hhi

theorem length_toDigits_lt {n : ℕ} (h : 2 ≤ n) : (Nat.toDigits 10 n).length < n := by
  obtain ⟨m, rfl⟩ : ∃ m, n = m + 1 := ⟨n - 1, by omega⟩
  have hpow : m + 1 < 10 ^ m := by
    have h₁ : m + 1 ≤ 2 ^ m := Nat.lt_two_pow_self
    have h₂ : 2 ^ m < 10 ^ m := Nat.pow_lt_pow_left (by decide) (by omega)
    omega
  have hle := (Nat.length_toDigits_le_iff (by decide) (by omega : 0 < m)).2 hpow
  omega

/-- One is the only number that has as many characters as it counts. -/
theorem nchars_kept_iff {x : Int32} : Int32.ofNat (decimal x.toInt).length = x ↔ x = 1 := by
  constructor
  · intro h
    have hlo := Int32.le_toInt x
    have hhi := Int32.toInt_lt x
    have hdigits : (Nat.toDigits 10 x.toInt.natAbs).length ≤ 10 := length_toDigits_le (by omega)
    have hlen : (decimal x.toInt).length ≤ 11 := by
      unfold decimal
      split_ifs
      · rw [List.length_cons]
        omega
      · omega
    have hx : ((decimal x.toInt).length : ℤ) = x.toInt := by
      rw [← Int32.toInt_ofNat_of_lt (by omega), h]
    have hnonneg : 0 ≤ x.toInt := by omega
    rw [decimal_of_nonneg hnonneg] at hx
    have hpos : 0 < (Nat.toDigits 10 x.toInt.natAbs).length := Nat.length_toDigits_pos
    have hsmall : ¬2 ≤ x.toInt.natAbs := fun htwo => by
      have hlt := length_toDigits_lt htwo
      omega
    have hone : x.toInt = 1 := by omega
    rw [← Int32.toInt_inj, hone]
    rfl
  · rintro rfl
    decide

theorem sameSaved_restored_iff {U : Users} {table : TableName} {tsUid : Int32} {j : JobRecord} :
    SameSaved (restored U table tsUid j) j ↔ Restorable j := by
  have hiff : SameSaved (restored U table tsUid j) j ↔
      Spool.copyWithNullcheck (Spool.storedText j.command) = j.command ∧
      Spool.copyWithNullcheck (Spool.storedText j.workDir) = j.workDir ∧
      (Int32.ofInt j.userSec.toInt).toInt64 = j.userSec ∧
      (Int32.ofInt j.systemSec.toInt).toInt64 = j.systemSec ∧
      (Int32.ofInt j.realSec.toInt).toInt64 = j.realSec ∧
      Spool.copyWithNullcheck (Spool.storedText j.outputFilename) = j.outputFilename ∧
      Spool.copyWithNullcheck (j.label.getD "(..)") = j.label ∧
      Spool.copyWithNullcheck (Spool.storedText j.ptr) = j.ptr ∧
      Int32.ofNat (decimal j.nchars.toInt).length = j.nchars := by
    obtain ⟨⟩ := j
    simp only [SameSaved, restored, JobRecord.mk.injEq, true_and, and_true]
  rw [hiff, text_kept_iff, text_kept_iff, text_kept_iff, text_kept_iff, label_kept_iff,
    seconds_kept_iff, seconds_kept_iff, seconds_kept_iff, nchars_kept_iff]
  constructor
  · rintro ⟨hcommand, hdir, huser, hsystem, hreal, houtput, hlabel, hptr, hnchars⟩
    exact ⟨hcommand, houtput, hptr, hdir, hlabel, hnchars, huser, hsystem, hreal⟩
  · intro h
    exact ⟨h.command, h.workDir, h.userSec, h.systemSec, h.realSec, h.outputFilename, h.label, h.ptr,
      h.nchars⟩

/-- **A job that is written to a table and read again comes back as it was exactly when it is
restorable and its statement fits into the buffer.** -/
theorem read_written_iff (db : Db) (U : Users) (action : Action) (table : TableName) (j : JobRecord)
    (hadd : db.MayAdd action table j) :
    (∃ db' j', db.editDb U action table j = some db' ∧
        db'.readDb U table j.jobid = some j' ∧ SameSaved j' j) ↔
      Restorable j ∧ (db.editSql U action table j).length < 16384 := by
  constructor
  · rintro ⟨db', j', hedit, hread, hsame⟩
    obtain ⟨hlen, hread'⟩ := Db.readDb_of_editDb hedit
    rw [hread] at hread'
    cases hread'
    exact ⟨sameSaved_restored_iff.1 hsame, hlen⟩
  · rintro ⟨hj, hlen⟩
    obtain ⟨db', hedit⟩ := Db.editDb_of_lt hadd hlen
    exact ⟨db', _, hedit, (Db.readDb_of_editDb hedit).2, sameSaved_restored_iff.2 hj⟩

/-- Nothing is known about users. -/
def nobody : Users := ⟨fun _ => 0, fun _ => none, fun _ => none⟩

/-- A job with all its strings and a text of one character. -/
def fullRecord : JobRecord where
  jobid := 7
  command := some "echo 'a, b'"
  workDir := some "/tmp"
  outputFilename := some "/tmp/out"
  label := none
  ptr := some "x"
  nchars := 1
  allocchars := 100
  dependOn := [5, -1]

theorem restorable_fullRecord : Restorable fullRecord := by
  refine ⟨⟨_, rfl, ?_⟩, ⟨_, rfl, ?_⟩, ⟨_, rfl, ?_⟩, ⟨_, rfl, ?_⟩, ?_, rfl, ⟨?_, ?_⟩, ⟨?_, ?_⟩,
    ⟨?_, ?_⟩⟩
  all_goals decide

/-- Such a job comes back from an empty database. -/
theorem fullRecord_comes_back : ∃ db' j', ({} : Db).editDb nobody .insert .jobs fullRecord = some db' ∧
    db'.readDb nobody .jobs 7 = some j' ∧ SameSaved j' fullRecord :=
  (read_written_iff {} nobody .insert .jobs fullRecord (Or.inr (by decide))).2
    ⟨restorable_fullRecord, by decide +kernel⟩

/-- A job that waits in the queue: it has no output, and no text yet. -/
def queuedRecord : JobRecord where
  jobid := 7
  command := some "ls"
  workDir := some "/tmp"
  outputFilename := none
  label := none
  ptr := none
  nchars := 0
  allocchars := 0

/-- It comes back with the output file `(NULL)` and the text `(NULL)` of one character. -/
theorem queuedRecord_changed : ¬∀ (db : Db) (U : Users) (action : Action) (table : TableName)
    (j : JobRecord), db.MayAdd action table j →
    ∃ db' j', db.editDb U action table j = some db' ∧
      db'.readDb U table j.jobid = some j' ∧ SameSaved j' j := by
  intro hall
  obtain ⟨db', j', hedit, hread, hsame⟩ :=
    hall {} nobody .insert .jobs queuedRecord (Or.inr (by decide))
  obtain ⟨-, hread'⟩ := Db.readDb_of_editDb hedit
  rw [hread] at hread'
  cases hread'
  obtain ⟨t, ht, -⟩ := (sameSaved_restored_iff.1 hsame).outputFilename
  cases ht

end Sql

end TaskSpooler
