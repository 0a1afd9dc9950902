import TaskSpooler.Jobs.Restore
import TaskSpooler.Lib.Reader

/-!
# The columns of a row (`edit_DB`, `read_DB`)

`Row` keeps a job as it was given to `edit_DB`.  Here is what happens to it on the way: `edit_DB`
prints the job into an SQL statement, SQLite reads the literals of the statement and stores them, and
`read_DB` asks for the columns by their number.

A string is given by its characters, one for each byte.  SQLite enters as far as its documentation
goes: a quoted literal ends at a single quote that is not doubled, and the value of a column is
converted to the type it is asked for.  (A column with the affinity `INT` stores `'5'` as a number;
its text is `5` again, so this is not visible.)
-/

namespace TaskSpooler

open Reader CpuBind

/-- The fields of `struct Job` that have a column, as C declares them; `state` is the code of the
state. -/
structure JobRecord where
  jobid : Int32
  command : Option String
  workDir : Option String
  commandStrip : Int32 := 0
  state : Int32 := 0
  errorlevel : Int32 := 0
  diedBySignal : Int32 := 0
  signal : Int32 := 0
  userSec : Int64 := 0
  systemSec : Int64 := 0
  realSec : Int64 := 0
  skipped : Int32 := 0
  outputFilename : Option String
  storeOutput : Int32 := 1
  pid : Int32 := 0
  user : Option ℕ := none
  wallTime : Int64 := 0
  scheduleTime : Int64 := 0
  shouldKeepFinished : Int32 := 1
  dependOn : List Int32 := []
  notifyErrorlevelTo : List Int32 := []
  dependencyErrorlevel : Int32 := 0
  label : Option String
  ptr : Option String
  nchars : Int32
  allocchars : Int32
  enqueueTime : Int64 := 0
  startTime : Int64 := 0
  endTime : Int64 := 0
  pauseTime : Int64 := 0
  pauseDuration : Int64 := 0
  bootTime : Int64 := 0
  numSlots : Int32 := 1

namespace Sql

/-! ### Printing -/

/-- A number as `%d` and `%ld` print it. -/
def decimal (z : ℤ) : List Char :=
  if z < 0 then '-' :: Nat.toDigits 10 z.natAbs else Nat.toDigits 10 z.natAbs

/-- The single quotes are doubled. -/
def escape (t : List Char) : List Char := t.flatMap fun c => if c = '\'' then ['\'', '\''] else [c]

/-- `sqlite3_mprintf("%q", text)`. -/
def mprintfQ (text : Option String) : List Char := escape (Spool.storedText text).toList

/-- `'%s'`. -/
def quoted (t : List Char) : List Char := '\'' :: (t ++ ['\''])

/-- `ints_to_chars`, with a comma between the numbers. -/
def intsToChars : List Int32 → List Char
  | [] => []
  | [x] => decimal x.toInt
  | x :: rest => decimal x.toInt ++ ',' :: intsToChars rest

/-- `chars_to_ints`.  The array has an entry for each comma and one more; those that `strtok` does
not fill are zero here. -/
def charsToInts (t : List Char) : List Int32 :=
  let tokens := (strtokComma t).map fun piece => Int32.ofInt (atoi piece)
  tokens ++ List.replicate (t.count ',' + 1 - tokens.length) 0

/-! ### Values -/

/-- A value in a column. -/
inductive Value
  | integer (z : ℤ)
  | text (t : List Char)
  deriving DecidableEq

namespace Value

/-- `sqlite3_column_text`. -/
def columnText : Value → List Char
  | integer z => decimal z
  | text t => t

/-- The number that a value is converted to. -/
def number : Value → ℤ
  | integer z => z
  | text t => atoi t

/-- `sqlite3_column_int64`. -/
def columnInt64 (v : Value) : Int64 := Int64.ofInt v.number

/-- `sqlite3_column_int`: the low 32 bits. -/
def columnInt (v : Value) : Int32 := Int32.ofInt v.number

/-- `sqlite3_column_bytes`: the length of the text. -/
def columnBytes (v : Value) : Int32 := Int32.ofNat v.columnText.length

end Value

/-- The rest of a string literal behind its opening quote. -/
def stringBody : List Char → Option (List Char × List Char)
  | [] => none
  | '\'' :: '\'' :: rest => (stringBody rest).map fun (t, rest) => ('\'' :: t, rest)
  | '\'' :: rest => some ([], rest)
  | c :: rest => (stringBody rest).map fun (t, rest) => (c :: t, rest)

/-- The digits of a number. -/
def digits : Reader Char ℕ := fun l =>
  if (l.takeWhile Char.isDigit).isEmpty then none else some (parseNum l)

/-- A literal. -/
def literal : Reader Char Value := fun l =>
  match l with
  | '\'' :: rest => (stringBody rest).map fun (t, rest) => (.text t, rest)
  | '-' :: rest => (digits.run rest).map fun (n, rest) => (.integer (-n), rest)
  | l => (digits.run l).map fun (n, rest) => (.integer n, rest)

/-- A literal and the character behind it. -/
def value (stop : Char) : Reader Char Value := fun l => do
  let (v, rest) ← literal.run (l.dropWhile (· = ' '))
  if rest.head? = some stop then some (v, rest.tail) else none

/-- The values of a row, up to the closing parenthesis. -/
def values : Reader Char (List Value) := do
  let vs ← (value ',').times 36
  let v ← value ')'
  pure (vs ++ [v])

/-! ### Tables -/

/-- The columns of `Jobs` and of `Finished`. -/
inductive Column
  | jobid | command | state | outputFilename | storeOutput | pid | tsUid | shouldKeepFinished
  | dependOn | dependOnSize | notifyErrorlevelTo | notifyErrorlevelToSize | dependencyErrorlevel
  | label | email | numSlots | errorlevel | diedBySignal | signal | userSec | systemSec | realSec
  | skipped | ptr | nchars | allocchars | wallTime | enqueueTime | startTime | endTime | pauseTime
  | pauseDuration | endTimeMs | orderId | commandStrip | workDir | scheduleTime
  deriving DecidableEq

open Column in
/-- The order of `CREATE TABLE`, and the column that `ALTER TABLE` adds. -/
def tableColumns : List Column :=
  [jobid, command, state, outputFilename, storeOutput, pid, tsUid, shouldKeepFinished, dependOn,
   dependOnSize, notifyErrorlevelTo, notifyErrorlevelToSize, dependencyErrorlevel, label, email,
   numSlots, errorlevel, diedBySignal, signal, userSec, systemSec, realSec, skipped, ptr, nchars,
   allocchars, wallTime, enqueueTime, startTime, endTime, pauseTime, pauseDuration, endTimeMs,
   orderId, commandStrip, workDir, scheduleTime]

open Column in
/-- The order in the statement of `edit_DB`. -/
def insertColumns : List Column :=
  [jobid, command, state, outputFilename, storeOutput, pid, tsUid, shouldKeepFinished, dependOn,
   dependOnSize, notifyErrorlevelTo, notifyErrorlevelToSize, dependencyErrorlevel, label, email,
   numSlots, errorlevel, diedBySignal, signal, userSec, systemSec, realSec, skipped, ptr, nchars,
   allocchars, wallTime, scheduleTime, enqueueTime, startTime, endTime, pauseTime, pauseDuration,
   endTimeMs, orderId, commandStrip, workDir]

/-- A row: the value of each column. -/
abbrev Values := Column → Value

/-- The row that `INSERT` makes of the values of a statement. -/
def rowOf (vs : List Value) : Values := fun c =>
  ((insertColumns.zip vs).lookup c).getD (.integer 0)

/-- The column with this number in the result of `SELECT *`. -/
def nth (row : Values) (i : ℕ) : Value := row (tableColumns.getD i .jobid)

/-- The name of a table. -/
inductive TableName
  | jobs
  | finished
  deriving DecidableEq

/-- The two tables of jobs. -/
structure Db where
  jobs : List Values := []
  finished : List Values := []

namespace Db

variable (db : Db)

/-- The rows of a table. -/
def rows : TableName → List Values
  | .jobs => db.jobs
  | .finished => db.finished

/-- Write a table. -/
def setRows (rows : List Values) : TableName → Db
  | .jobs => { db with jobs := rows }
  | .finished => { db with finished := rows }

/-- The row has this key. -/
def hasKey (jobid : Int32) (row : Values) : Bool := row .jobid = .integer jobid.toInt

/-- The order of a job in the queue, as `edit_DB` finds it in `Jobs`, or behind the last one. -/
def orderIdOf (jobid : Int32) : Int32 :=
  match db.jobs.find? (hasKey jobid) with
  | some row => (row .orderId).columnInt
  | none => Int32.ofInt ((db.jobs.map fun row => (row .orderId).number).max?.getD 0) + 1

end Db

/-! ### `edit_DB` -/

/-- The action of the statement: `INSERT`, or `INSERT OR REPLACE`. -/
inductive Action
  | insert
  | replace
  deriving DecidableEq

/-- The statement up to the values. -/
def editHead (action : Action) (table : TableName) : List Char :=
  (match action with
    | .insert => "INSERT".toList
    | .replace => "INSERT OR REPLACE".toList) ++ " INTO ".toList ++
  (match table with
    | .jobs => "Jobs".toList
    | .finished => "Finished".toList) ++
  " (jobid, command, state, output_filename, store_output, pid, ".toList ++
  "ts_UID, should_keep_finished, depend_on, depend_on_size,".toList ++
  "notify_errorlevel_to, notify_errorlevel_to_size, ".toList ++
  "dependency_errorlevel,label,email,num_slots,errorlevel,died_by_signal,".toList ++
  "signal,user_sec,system_sec,real_sec,skipped,".toList ++
  "ptr,nchars,allocchars,wall_time,schedule_time,".toList ++
  "enqueue_time,start_time,end_time,".toList ++
  "pause_time,pause_duration,end_time_ms, ".toList ++
  "order_id, command_strip, work_dir)".toList ++
  "VALUES (".toList

/-- `%d`. -/
def printInt (x : Int32) : List Char := decimal x.toInt

/-- `%ld`. -/
def printLong (x : Int64) : List Char := decimal x.toInt

/-- The values that are followed by a comma. -/
def editValues (tsUid orderId : Int32) (j : JobRecord) : List (List Char) :=
  [printInt j.jobid, quoted (mprintfQ j.command), printInt j.state,
   quoted (mprintfQ j.outputFilename), printInt j.storeOutput, printInt j.pid, printInt tsUid,
   printInt j.shouldKeepFinished, quoted (escape (intsToChars j.dependOn)),
   printInt (Int32.ofNat j.dependOn.length), quoted (escape (intsToChars j.notifyErrorlevelTo)),
   printInt (Int32.ofNat j.notifyErrorlevelTo.length), printInt j.dependencyErrorlevel,
   quoted (mprintfQ (some (j.label.getD "(..)"))), quoted [], printInt j.numSlots,
   printInt j.errorlevel, printInt j.diedBySignal, printInt j.signal, printLong j.userSec,
   printLong j.systemSec, printLong j.realSec, printInt j.skipped, quoted (mprintfQ j.ptr),
   printInt j.nchars, printInt j.allocchars, printLong j.wallTime, printLong j.scheduleTime,
   quoted (printLong j.enqueueTime), quoted (printLong j.startTime), quoted (printLong j.endTime),
   quoted (printLong j.pauseTime), quoted (printLong j.pauseDuration),
   quoted (printLong j.bootTime), ' ' :: printInt orderId, ' ' :: printInt j.commandStrip]

/-- What follows `VALUES (`. -/
def editTail (tsUid orderId : Int32) (j : JobRecord) : List Char :=
  ((editValues tsUid orderId j).map (· ++ [','])).flatten ++
    ((quoted (mprintfQ j.workDir) ++ [')']) ++ [';'])

/-- What the functions of `sqlite.c` find out about users. -/
structure Users where
  /-- `uid` of a `struct User`. -/
  uid : ℕ → Int32
  /-- `get_user_by_pid`. -/
  byPid : Int32 → Option ℕ
  /-- `find_user_by_uid`. -/
  byUid : Int32 → Option ℕ

namespace Db

variable (db : Db) (U : Users)

/-- The statement that `edit_DB` prints into the buffer `sql`. -/
def editSql (action : Action) (table : TableName) (j : JobRecord) : List Char :=
  editHead action table ++ editTail ((j.user.map U.uid).getD (-1)) (db.orderIdOf j.jobid) j

/-- `sqlite3_exec` of the statement: the table with the new row, if its key is not taken or the old
row is replaced. -/
def addRow (action : Action) (table : TableName) (row : Values) : Option Db :=
  let others := (db.rows table).filter fun r => r .jobid ≠ row .jobid
  if action = .insert ∧ others.length ≠ (db.rows table).length then none
  else some (db.setRows (others ++ [row]) table)

/-- `edit_DB`; `none` if it fails, or writes behind the end of the buffer `sql`. -/
def editDb (action : Action) (table : TableName) (j : JobRecord) : Option Db :=
  if (db.editSql U action table j).length < 16384 then
    (values.run (editTail ((j.user.map U.uid).getD (-1)) (db.orderIdOf j.jobid) j)).bind
      fun (vs, _) => db.addRow action table (rowOf vs)
  else none

/-- `insert_DB`. -/
def insertDb (table : TableName) (j : JobRecord) : Option Db := db.editDb U .insert table j

/-- `insert_or_replace_DB`. -/
def insertOrReplaceDb (table : TableName) (j : JobRecord) : Option Db := db.editDb U .replace table j

end Db

/-! ### `read_DB` -/

/-- `strcpy(sql, sqlite3_column_text(stmt, i))`; `none` if the text does not fit. -/
def copyText (v : Value) : Option (List Char) :=
  if v.columnText.length < 16384 then some v.columnText else none

/-- `copy_with_nullcheck` of a column. -/
def readText (v : Value) : Option (Option String) :=
  (copyText v).map fun t => Spool.copyWithNullcheck (String.ofList t)

/-- A list of job ids with its size. -/
def readInts (size v : Value) : Option (List Int32) :=
  if size.columnInt = 0 then some [] else (copyText v).map charsToInts

/-- The job that `read_DB` makes of a row. -/
def readRow (U : Users) (table : TableName) (row : Values) : Option JobRecord := do
  let command ← readText (nth row 1)
  let outputFilename ← readText (nth row 3)
  let pid := (nth row 5).columnInt
  let user := (if table = .jobs then U.byPid pid else none).or (U.byUid (nth row 6).columnInt)
  let dependOn ← readInts (nth row 9) (nth row 8)
  let notifyErrorlevelTo ← readInts (nth row 11) (nth row 10)
  let label ← readText (nth row 13)
  let ptr ← readText (nth row 23)
  let workDir ← readText (nth row 35)
  some
    { jobid := (nth row 0).columnInt
      command := command
      state := (nth row 2).columnInt
      outputFilename := outputFilename
      storeOutput := (nth row 4).columnInt
      pid := pid
      user := user
      shouldKeepFinished := (nth row 7).columnInt
      dependOn := dependOn
      notifyErrorlevelTo := notifyErrorlevelTo
      dependencyErrorlevel := (nth row 12).columnInt
      label := label
      numSlots := (nth row 15).columnInt
      errorlevel := (nth row 16).columnInt
      diedBySignal := (nth row 17).columnInt
      signal := (nth row 18).columnInt
      userSec := (nth row 19).columnInt.toInt64
      systemSec := (nth row 20).columnInt.toInt64
      realSec := (nth row 21).columnInt.toInt64
      skipped := (nth row 22).columnInt
      ptr := ptr
      nchars := (nth row 24).columnBytes
      allocchars := (nth row 25).columnBytes
      wallTime := (nth row 26).columnInt64
      enqueueTime := (nth row 27).columnInt64
      startTime := (nth row 28).columnInt64
      endTime := (nth row 29).columnInt64
      pauseTime := (nth row 30).columnInt64
      pauseDuration := (nth row 31).columnInt64
      bootTime := (nth row 32).columnInt64
      commandStrip := (nth row 34).columnInt
      workDir := workDir
      scheduleTime := (nth row 36).columnInt64 }

/-- `read_DB`. -/
def Db.readDb (db : Db) (U : Users) (table : TableName) (jobid : Int32) : Option JobRecord :=
  ((db.rows table).find? (Db.hasKey jobid)).bind (readRow U table)

end Sql

end TaskSpooler
