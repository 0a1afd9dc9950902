import TaskSpooler.Lib.Bytes
import TaskSpooler.Lib.Chunks
import TaskSpooler.Server.Basic
import TaskSpooler.Server.Transfer

/-!
# The bytes of a `NEWJOB` request

`c_new_job` sends a message and behind it the dependencies, the command, the working directory, the
label and the environment.  The server takes the message with `recv_msg` and the rest piece by piece
in the middle of `s_newjob`.  A connection delivers these bytes in chunks, cut anywhere: `recv_bytes`
goes on until it has what it wants, but `recv_msg` calls `recv` only once, and `recv_ints` calls
`read` once for the number of dependencies and once for the dependencies.  What such a call does not
fill keeps the bytes that were there before.

The layout of `struct Msg` is that of a 64-bit machine with the low byte first, where `newjob` is the
largest member of the union and no byte is padding.
-/

namespace TaskSpooler

open Receive

/-- A piece of a stream of bytes. -/
abbrev Stream := List UInt8

/-! ### The message -/

/-- `struct Msg` with `u.newjob`; the type is kept apart. -/
structure NewjobMsg where
  jobid : Int32
  commandSize : Int32
  commandSizeStrip : Int32
  pathSize : Int32
  storeOutput : Int32
  shouldKeepFinished : Int32
  labelSize : Int32
  envSize : Int32
  dependOnSize : Int32
  waitEnqueuing : Int32
  numSlots : Int32
  noCpuBinding : Int32
  taskpid : Int32
  startTime : Int64
  wallTime : Int64
  scheduleTime : Int64

/-- `NEWJOB` of `enum MsgTypes`. -/
def newjobType : Int32 := 1

/-- `sizeof(struct Msg)`. -/
def msgSize : ℕ := 80

namespace NewjobMsg

/-- The bytes of a message of type `NEWJOB`, as `send_msg` writes them. -/
def bytes (m : NewjobMsg) : Stream :=
  int32Bytes newjobType ++ (int32Bytes m.jobid ++ (int32Bytes m.commandSize ++
    (int32Bytes m.commandSizeStrip ++ (int32Bytes m.pathSize ++ (int32Bytes m.storeOutput ++
      (int32Bytes m.shouldKeepFinished ++ (int32Bytes m.labelSize ++ (int32Bytes m.envSize ++
        (int32Bytes m.dependOnSize ++ (int32Bytes m.waitEnqueuing ++ (int32Bytes m.numSlots ++
          (int32Bytes m.noCpuBinding ++ (int32Bytes m.taskpid ++ (int64Bytes m.startTime ++
            (int64Bytes m.wallTime ++ int64Bytes m.scheduleTime)))))))))))))))

/-- The message in memory, with the union read as `u.newjob`. -/
def ofBytes (mem : Stream) : NewjobMsg where
  jobid := int32At mem 4
  commandSize := int32At mem 8
  commandSizeStrip := int32At mem 12
  pathSize := int32At mem 16
  storeOutput := int32At mem 20
  shouldKeepFinished := int32At mem 24
  labelSize := int32At mem 28
  envSize := int32At mem 32
  dependOnSize := int32At mem 36
  waitEnqueuing := int32At mem 40
  numSlots := int32At mem 44
  noCpuBinding := int32At mem 48
  taskpid := int32At mem 52
  startTime := int64At mem 56
  wallTime := int64At mem 64
  scheduleTime := int64At mem 72

theorem length_bytes (m : NewjobMsg) : m.bytes.length = msgSize := by
  simp [bytes, msgSize]

theorem ofBytes_bytes (m : NewjobMsg) : ofBytes m.bytes = m := by
  simp [ofBytes, bytes]

end NewjobMsg

/-- The bytes that `send_ints` writes. -/
def sendInts (l : List Int32) : Stream := int32Bytes (Int32.ofNat l.length) ++ l.flatMap int32Bytes

/-- `recv_bytes`: it tries again and again. -/
def recvBytes (size : ℕ) : Receive UInt8 Fatal Stream := all .hang size

/-- The calls of `recv` in `recv_bytes` put together what is read here. -/
theorem recvLoop_of_readAll {n : ℕ} {a : Chunks UInt8} {r : Stream × Chunks UInt8}
    (h : a.readAll n = some r) (buffer : Stream) :
    ∃ fuel res, Transfer.recvLoop fuel n buffer (a.map some) = some (res, buffer ++ r.1) := by
  induction a generalizing n r buffer with
  | nil =>
    rw [Chunks.readAll] at h
    split_ifs at h with hn
    cases h
    subst hn
    exact ⟨1, 0, rfl⟩
  | cons c a ih =>
    rw [Chunks.readAll] at h
    split_ifs at h with hn
    · cases h
      refine ⟨1, n, ?_⟩
      rw [List.map_cons, Transfer.recvLoop, Transfer.recv]
      split_ifs with hc
      · have hlen : c.length = n := le_antisymm hc hn
        subst hlen
        simp
      · simp [List.length_take_of_le hn]
    · obtain ⟨r', hr, rfl⟩ := Option.map_eq_some_iff.1 h
      obtain ⟨fuel, res, hloop⟩ := ih hr (buffer ++ c)
      refine ⟨fuel + 1, res, ?_⟩
      have hlt : c.length < n := not_le.1 hn
      rw [List.map_cons, Transfer.recvLoop, Transfer.recv_chunk hlt.le]
      show (if c.length = n then _ else _) = _
      rw [if_neg hlt.ne, hloop, List.append_assoc]

/-- `recv_ints`: the number in `*num`, and the numbers; `before` is what the memory holds. -/
def recvInts (before : ℕ → UInt8) : Receive UInt8 Fatal (Int32 × List Int32) := do
  let count ← once 4
  let num := int32At (filled 4 count before) 0
  if num = 0 then pure (num, [])
  else do
    let size := 4 * num.toInt.toNat
    let data ← once size
    pure (num, int32s num.toInt.toNat (filled size data fun i => before (4 + i)))

/-- A text with its terminating null. -/
def nulTerminated (text : List UInt8) : Stream := text ++ [0]

/-- The text in a buffer, one character for each byte. -/
def bufferText (buf : List UInt8) : String :=
  String.ofList ((buf.takeWhile (· ≠ 0)).map fun b => Char.ofNat b.toNat)

/-! ### The client -/

/-- The part of `command_line` that `c_new_job` sends, with the working directory and the
environment it finds.  The sizes are those that an `int` can hold. -/
structure CommandLine where
  jobid : Int32 := 0
  linuxCmd : List UInt8
  /-- `build_command_string()`. -/
  oldCommand : List UInt8 := []
  path : List UInt8
  label : Option (List UInt8) := none
  environment : Option (List UInt8) := none
  dependOn : List Int32 := []
  storeOutput : Int32 := 1
  shouldKeepFinished : Int32 := 1
  waitEnqueuing : Int32 := 1
  numSlots : Int32 := 1
  noCpuBinding : Int32 := 0
  taskpid : Int32 := 0
  startTime : Int64 := 0
  wallTime : Int64 := 604800
  scheduleTime : Int64 := 0
  command_fits : linuxCmd.length + 1 < 2 ^ 31 := by decide
  path_fits : path.length + 1 < 2 ^ 31 := by decide
  label_fits : ∀ l ∈ label, l.length + 1 < 2 ^ 31 := by decide
  environment_fits : ∀ l ∈ environment, l.length + 1 < 2 ^ 31 := by decide
  dependOn_fits : dependOn.length < 2 ^ 31 := by decide

/-- The size of an optional text: `0` if it is missing. -/
def textSize (text : Option (List UInt8)) : ℕ := (text.map fun t => t.length + 1).getD 0

namespace CommandLine

variable (c : CommandLine)

/-- The message of `c_new_job`. -/
def msg : NewjobMsg where
  jobid := c.jobid
  commandSize := Int32.ofNat (c.linuxCmd.length + 1)
  commandSizeStrip := Int32.ofInt (c.linuxCmd.length - c.oldCommand.length)
  pathSize := Int32.ofNat (c.path.length + 1)
  storeOutput := c.storeOutput
  shouldKeepFinished := c.shouldKeepFinished
  labelSize := Int32.ofNat (textSize c.label)
  envSize := Int32.ofNat (textSize c.environment)
  dependOnSize := Int32.ofNat c.dependOn.length
  waitEnqueuing := c.waitEnqueuing
  numSlots := c.numSlots
  noCpuBinding := c.noCpuBinding
  taskpid := c.taskpid
  startTime := c.startTime
  wallTime := c.wallTime
  scheduleTime := c.scheduleTime

/-- The bytes of an optional text: none if it is missing. -/
def textBytes (text : Option (List UInt8)) : Stream := (text.map nulTerminated).getD []

/-- What `c_new_job` sends behind the message. -/
def payload : Stream :=
  (if c.dependOn.length ≠ 0 then sendInts c.dependOn else []) ++ (nulTerminated c.linuxCmd ++
    (nulTerminated c.path ++ (textBytes c.label ++ textBytes c.environment)))

/-- `c_new_job`. -/
def cNewJob : Stream := c.msg.bytes ++ c.payload

end CommandLine

/-! ### The server -/

namespace NewjobMsg

variable (m : NewjobMsg) (before : ℕ → UInt8)

/-- The request as far as the message tells it. -/
def request : NewJob where
  jobid := m.jobid.toInt
  numSlots := m.numSlots.toInt
  noCpuBinding := m.noCpuBinding ≠ 0
  storeOutput := m.storeOutput ≠ 0
  shouldKeepFinished := m.shouldKeepFinished ≠ 0
  wallTime := m.wallTime.toInt
  scheduleTime := m.scheduleTime.toInt
  dependOnSize := m.dependOnSize.toInt.toNat
  commandStrip := m.commandSizeStrip.toInt
  waitEnqueuing := m.waitEnqueuing ≠ 0

/-- `recv_bytes` into a buffer of the given size, for a text that may be missing. -/
def recvText (size : Int32) : Receive UInt8 Fatal (Option String) :=
  if 0 < size.toInt then (fun buf => some (bufferText buf)) <$> recvBytes size.toInt.toNat
  else pure none

/-- The dependencies, if there are any: `s_newjob` asserts that their number is the one in the
message. -/
def recvDependOn : Receive UInt8 Fatal (List Int32) :=
  if m.dependOnSize ≠ 0 then do
    let (num, dependOn) ← recvInts before
    if m.dependOnSize = num then pure dependOn else throw .dependOnSize
  else pure []

/-- The texts behind the dependencies. -/
def recvTexts (dependOn : List Int32) : Receive UInt8 Fatal NewJob := do
  let command ← recvBytes m.commandSize.toInt.toNat
  let workDir ← recvText m.pathSize
  let label ← recvText m.labelSize
  let environment ← recvText m.envSize
  pure { m.request with
    dependOn := dependOn.map Int32.toInt
    command := bufferText command
    workDir := workDir
    label := label
    environment := environment }

/-- What `s_newjob` reads from the connection, in its order. -/
def recvNewjob : Receive UInt8 Fatal NewJob := m.recvDependOn before >>= m.recvTexts

end NewjobMsg

namespace Spool

variable (e : Env) (s : Spool) (before : ℕ → UInt8)

/-- The job asks for more slots than its user may have. -/
def exceedsMaxSlots (user : ℕ) (numSlots : ℤ) : Prop :=
  0 < (s.users user).maxSlots ∧ (s.users user).maxSlots < numSlots

instance (user : ℕ) (numSlots : ℤ) : Decidable (s.exceedsMaxSlots user numSlots) :=
  inferInstanceAs (Decidable (_ ∧ _))

/-- `newjobFill` with the bytes it reads: none for a job that asks for too many slots. -/
def recvFill (socket : ℤ) (m : NewjobMsg) (user : ℕ) (old : Option Job) (input : Chunks UInt8) :
    Except Fatal ((Spool × ℤ) × Chunks UInt8) :=
  if s.exceedsMaxSlots user m.numSlots.toInt then
    (s.newjobFill e socket m.request user old).map fun r => (r, input)
  else do
    let (request, rest) ← (m.recvNewjob before).run input
    (s.newjobFill e socket request user old).map fun r => (r, rest)

/-- `s_newjob` with the bytes it reads: none for a job whose id is taken. -/
def recvSNewjob (socket : ℤ) (m : NewjobMsg) (user : ℕ) (input : Chunks UInt8) :
    Except Fatal ((Spool × ℤ) × Chunks UInt8) := do
  let s ← s.sUpdateSlotsUsage e
  match (if m.jobid.toInt = 0 then none else s.findjob m.jobid.toInt) with
  | none => s.recvFill e before socket m user none input
  | some p =>
    if p.state = .delink ∨ p.state = .wait ∨ p.state = .locked then
      s.recvFill e before socket m user (some p) input
    else
      .ok ((s.send socket
        (.line s!"Error: jobid {m.jobid.toInt} already exists and is not available\n"), -1), input)

end Spool

namespace Server

variable (e : Env) (s : Server) (before : ℕ → UInt8)

/-- The case `NEWJOB` of `client_read`, with what is left to read on the connection; `none` when it
has been closed. -/
def recvNewjob (index : ℕ) (m : NewjobMsg) (input : Chunks UInt8) :
    Except Fatal (Server × Option (Chunks UInt8)) := do
  let c := s.clientCs index
  let (sp, locked) := s.sCheckLocker e c.user
  let s := { s with toSpool := sp }
  if locked then .ok (s, some input)
  else do
    let ((sp, jobid), rest) ← s.recvSNewjob e before c.socket m c.user input
    let s := { s with toSpool := sp }.modConn index fun c => { c with jobid := jobid, hasjob := true }
    if jobid = -1 then do
      let s ← ((s.onSpool fun sp => sp.send c.socket .newjobNok).modConn index fun c =>
        { c with hasjob := false }).cleanAfterClientDisappeared e c.socket index
      .ok (s, none)
    else if (s.findjob jobid).any fun p => p.state = .holdingClient then
      if m.waitEnqueuing ≠ 0 then .ok (s, some rest)
      else do
        let s ← (s.onSpool fun sp => sp.send c.socket .newjobNok).cleanAfterClientDisappeared e
          c.socket index
        .ok (s, none)
    else .ok (s.onSpool fun sp => sp.send c.socket (.newjobOk jobid), some rest)

/-- `client_read` on a connection where a `NEWJOB` is arriving.  `recv_msg` calls `recv` once; what
it does not fill keeps the zeros of `default_msg`, and the first byte alone makes the type. -/
def clientReadNewjob (index : ℕ) (input : Chunks UInt8) :
    Except Fatal (Server × Option (Chunks UInt8)) :=
  let (bytes, rest) := input.read msgSize
  if bytes.length = 0 then
    (s.cleanAfterClientDisappeared e (s.clientCs index).socket index).map fun s => (s, none)
  else
    let m := NewjobMsg.ofBytes (filled msgSize bytes fun _ => 0)
    (s.onSpool fun sp => sp.timeoutLock e).recvNewjob e before index m rest

/-- The server survives the request and does not close the connection. -/
def StaysOpen (index : ℕ) (input : Chunks UInt8) : Prop :=
  ∃ s' rest, s.clientReadNewjob e before index input = .ok (s', some rest)

/-- After the request has been handled, the connection is closed, or the next byte to be read is the
first one behind the request. -/
def Framed (index : ℕ) (input : Chunks UInt8) (more : Stream) : Prop :=
  ∀ s' rest, s.clientReadNewjob e before index input = .ok (s', some rest) → rest.flatten = more

end Server

end TaskSpooler
