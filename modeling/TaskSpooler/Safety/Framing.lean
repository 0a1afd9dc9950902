import TaskSpooler.Lib.Except
import TaskSpooler.Server.Runs
import TaskSpooler.Server.Wire

/-!
# The framing of requests

The bytes of a `NEWJOB` request, what the server reads of them, and what it leaves.

* `CommandLine.exists_recvNewjob` : what `c_new_job` sends is received, if no call of `read` is
  short.
* `clientReadNewjob_fst` : on such bytes the server does what `client_read` does with the request.
* `newjob_framed_iff` : if the server is not locked by another user, and the calls of `recv_msg` and
  `recv_ints`, one for the message, one for the number of dependencies and one for the dependencies,
  find all that they ask for, then the connection is left at the end of the request or closed.
  Otherwise it is left inside the request, if it is left open at all.
-/

namespace TaskSpooler

open Receive

theorem toNat_toInt_ofNat {n : ℕ} (h : n < 2 ^ 31) : (Int32.ofNat n).toInt.toNat = n := by
  rw [Int32.toInt_ofNat_of_lt h, Int.toNat_natCast]

/-! ### What is read -/

namespace NewjobMsg

variable {m : NewjobMsg} {before : ℕ → UInt8} {a rest : Chunks UInt8} {l : List Int32}
  {request : NewJob}

/-- The single calls of `recv_ints` for the dependencies that the message announces. -/
def dependReads (m : NewjobMsg) : List ℕ :=
  if m.dependOnSize = 0 then [] else [4, 4 * m.dependOnSize.toInt.toNat]

/-- The bytes of the texts that the message announces. -/
def textSizes (m : NewjobMsg) : ℕ :=
  m.commandSize.toInt.toNat +
    (m.pathSize.toInt.toNat + (m.labelSize.toInt.toNat + m.envSize.toInt.toNat))

theorem takes_recvText (size : Int32) : Takes (recvText size) size.toInt.toNat := by
  unfold recvText
  split_ifs with h
  · exact (takes_all _ _).map _
  · rw [Int.toNat_of_nonpos (not_lt.1 h)]
    exact Takes.pure none

/-- The texts are taken to their last byte, or never. -/
theorem takes_recvTexts : Takes (m.recvTexts l) m.textSizes := by
  unfold recvTexts
  refine Takes.bind (takes_all _ _) fun command => ?_
  refine Takes.bind (takes_recvText _) fun workDir => ?_
  refine Takes.bind (takes_recvText _) fun label => ?_
  exact Takes.bind (takes_recvText _) fun environment => Takes.pure _

/-- Whatever the single calls find, the server goes on if the number of dependencies is right. -/
theorem recvDependOn_rest (h : (m.recvDependOn before).run a = .ok (l, rest)) :
    rest = a.afterReads m.dependReads := by
  unfold recvDependOn at h
  unfold dependReads
  by_cases hzero : m.dependOnSize = 0
  · rw [if_neg (not_not_intro hzero)] at h
    rw [if_pos hzero]
    cases h
    rfl
  · rw [if_pos hzero, StateT.run_bind, Except.bind_eq_ok] at h
    obtain ⟨⟨⟨num, ints⟩, a'⟩, hints, h⟩ := h
    dsimp only at h
    split_ifs at h with hnum
    · cases h
      rw [if_neg hzero]
      rw [recvInts, StateT.run_bind, Except.bind_eq_ok] at hints
      obtain ⟨count, hcount, hints⟩ := hints
      cases hcount
      dsimp only at hints
      split_ifs at hints with hno
      · cases hints
        exact absurd (hnum.trans hno) hzero
      · rw [StateT.run_bind, Except.bind_eq_ok] at hints
        obtain ⟨data, hdata, hints⟩ := hints
        cases hdata
        cases hints
        rw [hnum]
        rfl
    · cases h

theorem recvNewjob_rest (h : (m.recvNewjob before).run a = .ok (request, rest)) :
    ∃ w, w.length = m.textSizes ∧ (a.afterReads m.dependReads).flatten = w ++ rest.flatten := by
  rw [recvNewjob, StateT.run_bind, Except.bind_eq_ok] at h
  obtain ⟨⟨l, a'⟩, hdepend, htexts⟩ := h
  rw [← recvDependOn_rest hdepend]
  exact takes_recvTexts htexts

end NewjobMsg

/-! ### What is sent is read -/

/-- A buffer of the size that the client gives takes the text and its null. -/
theorem delivers_nulTerminated {text : List UInt8} (h : text.length + 1 < 2 ^ 31) :
    Delivers (recvBytes (Int32.ofNat (text.length + 1)).toInt.toNat) (nulTerminated text)
      (nulTerminated text) := by
  rw [toNat_toInt_ofNat h]
  exact delivers_all _ (by simp [nulTerminated])

theorem delivers_recvText {text : Option (List UInt8)} (h : ∀ t ∈ text, t.length + 1 < 2 ^ 31) :
    Delivers (NewjobMsg.recvText (Int32.ofNat (textSize text))) (CommandLine.textBytes text)
      (text.map fun t => bufferText (nulTerminated t)) := by
  cases text with
  | none => exact Delivers.pure none
  | some t =>
    have hsize : (Int32.ofNat (t.length + 1)).toInt = (t.length + 1 : ℕ) :=
      Int32.toInt_ofNat_of_lt (h t rfl)
    have hpos : 0 < (Int32.ofNat (textSize (some t))).toInt := by
      change 0 < (Int32.ofNat (t.length + 1)).toInt
      omega
    rw [NewjobMsg.recvText, if_pos hpos]
    exact (delivers_nulTerminated (h t rfl)).map fun buf => some (bufferText buf)

/-- The numbers that `send_ints` wrote are received, if neither call of `read` is short. -/
theorem exists_recvInts (before : ℕ → UInt8) {l : List Int32} (hl : l.length < 2 ^ 31) (hne : l ≠ [])
    {a : Chunks UInt8} {more : Stream} (ha : a.flatten = sendInts l ++ more)
    (hwhole : a.ReadsWhole [4, 4 * l.length]) :
    ∃ rest, (recvInts before).run a = .ok ((Int32.ofNat l.length, l), rest) ∧
      rest.flatten = more := by
  obtain ⟨hcount, hdata, -⟩ := hwhole
  rw [sendInts, List.append_assoc] at ha
  have hlen : (l.flatMap int32Bytes).length = 4 * l.length := by
    rw [List.length_flatMap, List.map_congr_left fun x _ => length_int32Bytes x]
    simp [Nat.mul_comm]
  obtain ⟨hread, hrest⟩ : (a.read 4).1 = int32Bytes (Int32.ofNat l.length) ∧
      (a.read 4).2.flatten = l.flatMap int32Bytes ++ more :=
    Chunks.read_of_length (w := int32Bytes (Int32.ofNat l.length)) hcount ha
  rw [← hlen] at hdata
  obtain ⟨hread', hrest'⟩ := Chunks.read_of_length hdata hrest
  rw [hlen] at hread' hrest'
  refine ⟨_, ?_, hrest'⟩
  have hnum : int32At (filled 4 (a.read 4).1 before) 0 = Int32.ofNat l.length := by
    rw [filled_whole hcount, hread, int32At_self]
  have hzero : Int32.ofNat l.length ≠ 0 := by
    intro hzero
    have hnat := toNat_toInt_ofNat hl
    rw [hzero] at hnat
    exact hne (List.eq_nil_of_length_eq_zero hnat.symm)
  rw [recvInts, StateT.run_bind]
  change (Except.bind (.ok (a.read 4)) _) = _
  simp only [Except.bind, hnum, if_neg hzero, toNat_toInt_ofNat hl]
  change Except.ok ((_, int32s _ (filled _ ((a.read 4).2.read (4 * l.length)).1 _)), _) = _
  rw [hread', filled_whole hlen, int32s_flatMap]

namespace CommandLine

variable {c : CommandLine} {before : ℕ → UInt8} {a : Chunks UInt8} {more : Stream}

/-- The request of the client. -/
def request (c : CommandLine) : NewJob :=
  { c.msg.request with
    dependOn := c.dependOn.map Int32.toInt
    command := bufferText (nulTerminated c.linuxCmd)
    workDir := some (bufferText (nulTerminated c.path))
    label := c.label.map fun t => bufferText (nulTerminated t)
    environment := c.environment.map fun t => bufferText (nulTerminated t) }

/-- The single calls with which the server reads the request. -/
def singleReads (c : CommandLine) : List ℕ := msgSize :: c.msg.dependReads

theorem toInt_dependOnSize (c : CommandLine) : c.msg.dependOnSize.toInt = c.dependOn.length :=
  Int32.toInt_ofNat_of_lt c.dependOn_fits

theorem dependOnSize_eq_zero : c.msg.dependOnSize = 0 ↔ c.dependOn.length = 0 := by
  rw [← Int32.toInt_inj, toInt_dependOnSize]
  exact Int.natCast_eq_zero

theorem fits_path (c : CommandLine) : ∀ t ∈ some c.path, t.length + 1 < 2 ^ 31 := by
  intro t ht
  rw [← Option.some.inj ht]
  exact c.path_fits

theorem toInt_textSize {text : Option (List UInt8)} (h : ∀ t ∈ text, t.length + 1 < 2 ^ 31) :
    (Int32.ofNat (textSize text)).toInt = textSize text := by
  refine Int32.toInt_ofNat_of_lt ?_
  cases text with
  | none => decide
  | some t => exact h t rfl

theorem length_textBytes (text : Option (List UInt8)) :
    (textBytes text).length = textSize text := by
  cases text with
  | none => rfl
  | some t => simp [textBytes, textSize, nulTerminated]

/-- The payload is as long as the message says. -/
theorem length_payload (c : CommandLine) :
    c.payload.length = c.msg.dependReads.sum + c.msg.textSizes := by
  have hcommand : c.msg.commandSize.toInt.toNat = c.linuxCmd.length + 1 :=
    toNat_toInt_ofNat c.command_fits
  have hpath : c.msg.pathSize.toInt.toNat = c.path.length + 1 := toNat_toInt_ofNat c.path_fits
  have hlabel : c.msg.labelSize.toInt = textSize c.label := toInt_textSize c.label_fits
  have henv : c.msg.envSize.toInt = textSize c.environment := toInt_textSize c.environment_fits
  have hdepend : (if c.dependOn.length ≠ 0 then sendInts c.dependOn else []).length =
      c.msg.dependReads.sum := by
    rw [NewjobMsg.dependReads, toInt_dependOnSize, Int.toNat_natCast]
    by_cases h : c.dependOn.length = 0
    · rw [if_neg (not_not_intro h), if_pos (dependOnSize_eq_zero.2 h)]
      rfl
    · rw [if_pos h, if_neg (mt dependOnSize_eq_zero.1 h), sendInts, List.length_append,
        List.length_flatMap, List.map_congr_left fun x _ => length_int32Bytes x]
      simp [Nat.mul_comm]
  rw [payload, List.length_append, hdepend, NewjobMsg.textSizes, hcommand, hpath, hlabel, henv]
  simp only [nulTerminated, List.length_append, List.length_cons, List.length_nil, length_textBytes,
    Int.toNat_natCast]

theorem delivers_path :
    Delivers (NewjobMsg.recvText c.msg.pathSize) (nulTerminated c.path)
      (some (bufferText (nulTerminated c.path))) := by
  have h := delivers_recvText c.fits_path
  exact h

/-- The texts that the client sends are what `s_newjob` reads. -/
theorem delivers_recvTexts :
    Delivers (c.msg.recvTexts c.dependOn) (nulTerminated c.linuxCmd ++ (nulTerminated c.path ++
      (textBytes c.label ++ textBytes c.environment))) c.request := by
  unfold NewjobMsg.recvTexts
  refine Delivers.bind (delivers_nulTerminated c.command_fits) ?_
  refine Delivers.bind delivers_path ?_
  refine Delivers.bind (delivers_recvText c.label_fits) ?_
  have h := (delivers_recvText c.environment_fits).bind_pure fun environment => ({ c.request with
    environment := environment } : NewJob)
  exact h

/-- **What the client sends behind the message is what `s_newjob` reads**, if no call is short. -/
theorem exists_recvNewjob (before : ℕ → UInt8) (ha : a.flatten = c.payload ++ more)
    (hwhole : a.ReadsWhole c.msg.dependReads) :
    ∃ rest, (c.msg.recvNewjob before).run a = .ok (c.request, rest) ∧ rest.flatten = more := by
  rw [payload, List.append_assoc] at ha
  have hdepend : ∃ rest, (c.msg.recvDependOn before).run a = .ok (c.dependOn, rest) ∧
      rest.flatten = nulTerminated c.linuxCmd ++ (nulTerminated c.path ++
        (textBytes c.label ++ textBytes c.environment)) ++ more := by
    rw [NewjobMsg.dependReads, toInt_dependOnSize, Int.toNat_natCast] at hwhole
    unfold NewjobMsg.recvDependOn
    by_cases h : c.dependOn.length = 0
    · rw [if_neg (not_not_intro h)] at ha
      rw [if_neg (not_not_intro (dependOnSize_eq_zero.2 h)), List.eq_nil_of_length_eq_zero h]
      exact ⟨a, rfl, ha⟩
    · rw [if_pos h] at ha
      rw [if_neg (mt dependOnSize_eq_zero.1 h)] at hwhole
      rw [if_pos (mt dependOnSize_eq_zero.1 h)]
      obtain ⟨rest, hrun, hrest⟩ := exists_recvInts before c.dependOn_fits
        (mt List.length_eq_zero_iff.2 h) ha hwhole
      refine ⟨rest, ?_, hrest⟩
      have hnum : c.msg.dependOnSize = Int32.ofNat c.dependOn.length := rfl
      rw [StateT.run_bind, hrun]
      change StateT.run (if _ = _ then _ else _) rest = _
      rw [if_pos hnum]
      rfl
  obtain ⟨rest, hrun, hrest⟩ := hdepend
  obtain ⟨rest', hrun', hrest'⟩ := delivers_recvTexts hrest
  refine ⟨rest', ?_, hrest'⟩
  rw [NewjobMsg.recvNewjob, StateT.run_bind, hrun]
  exact hrun'

end CommandLine

/-! ### A message that has not arrived completely -/

namespace NewjobMsg

/-- No size grows if bytes of the message are lowered. -/
theorem sizes_ofBytes_le {mem mem' : List UInt8} (hmem : List.Forall₂ (· ≤ ·) mem' mem)
    (hdepend : 0 ≤ (ofBytes mem).dependOnSize.toInt)
    (hcommand : 0 ≤ (ofBytes mem).commandSize.toInt) (hpath : 0 ≤ (ofBytes mem).pathSize.toInt)
    (hlabel : 0 ≤ (ofBytes mem).labelSize.toInt) (henv : 0 ≤ (ofBytes mem).envSize.toInt) :
    (ofBytes mem').dependReads.sum + (ofBytes mem').textSizes ≤
      (ofBytes mem).dependReads.sum + (ofBytes mem).textSizes := by
  obtain ⟨hdepend₀, hdepend'⟩ := toNat_int32At_le hmem hdepend
  have hcommand' := (toNat_int32At_le hmem hcommand).2
  have hpath' := (toNat_int32At_le hmem hpath).2
  have hlabel' := (toNat_int32At_le hmem hlabel).2
  have henv' := (toNat_int32At_le hmem henv).2
  have htexts : (ofBytes mem').textSizes ≤ (ofBytes mem).textSizes :=
    Nat.add_le_add (Int.toNat_le_toNat hcommand') (Nat.add_le_add (Int.toNat_le_toNat hpath')
      (Nat.add_le_add (Int.toNat_le_toNat hlabel') (Int.toNat_le_toNat henv')))
  refine Nat.add_le_add ?_ htexts
  unfold dependReads
  by_cases hzero : (ofBytes mem').dependOnSize = 0
  · rw [if_pos hzero]
    exact Nat.zero_le _
  · -- a number that is not zero was not zero before
    have hpos : (ofBytes mem).dependOnSize ≠ 0 := by
      intro h
      have hint : (ofBytes mem).dependOnSize.toInt = 0 := Int32.toInt_inj.2 h
      have hint' : (ofBytes mem').dependOnSize.toInt = 0 :=
        le_antisymm (hdepend'.trans hint.le) hdepend₀
      exact hzero (Int32.toInt_inj.1 hint')
    rw [if_neg hzero, if_neg hpos]
    have hle : (ofBytes mem').dependOnSize.toInt.toNat ≤ (ofBytes mem).dependOnSize.toInt.toNat :=
      Int.toNat_le_toNat hdepend'
    simp only [List.sum_cons, List.sum_nil]
    omega

end NewjobMsg

namespace CommandLine

variable {c : CommandLine} {more : Stream} {input : Chunks UInt8}

/-- The message as `recv_msg` leaves it in memory. -/
def received (input : Chunks UInt8) : NewjobMsg :=
  .ofBytes (filled msgSize (input.read msgSize).1 fun _ => 0)

/-- A message that has arrived completely is received. -/
theorem received_whole (hinput : input.flatten = c.cNewJob ++ more)
    (hwhole : (input.read msgSize).1.length = msgSize) :
    received input = c.msg ∧ (input.read msgSize).2.flatten = c.payload ++ more := by
  rw [cNewJob, List.append_assoc] at hinput
  obtain ⟨hread, hrest⟩ := Chunks.read_of_length (w := c.msg.bytes)
    (by rw [c.msg.length_bytes, hwhole]) hinput
  rw [c.msg.length_bytes] at hread hrest
  refine ⟨?_, hrest⟩
  rw [received, filled_whole hwhole, hread, c.msg.ofBytes_bytes]

/-- The message that is received never announces more than the one that was sent. -/
theorem sizes_received_le (hinput : input.flatten = c.cNewJob ++ more) :
    (received input).dependReads.sum + (received input).textSizes ≤ c.payload.length := by
  have hfront : (input.read msgSize).1 = c.msg.bytes.take (input.read msgSize).1.length := by
    have hle : (input.read msgSize).1.length ≤ c.msg.bytes.length :=
      (Chunks.length_read_le _ _).trans c.msg.length_bytes.ge
    rw [← Chunks.read_append msgSize input, cNewJob, List.append_assoc] at hinput
    rw [← List.take_append_of_le_length hle, ← hinput, List.take_left]
  have hbytes : List.Forall₂ (· ≤ ·) (filled msgSize (input.read msgSize).1 fun _ => 0)
      c.msg.bytes := by
    rw [hfront, ← c.msg.length_bytes]
    exact filled_take_le _
  have hcommand : c.msg.commandSize.toInt = (c.linuxCmd.length + 1 : ℕ) :=
    Int32.toInt_ofNat_of_lt c.command_fits
  have hpath : c.msg.pathSize.toInt = (c.path.length + 1 : ℕ) := Int32.toInt_ofNat_of_lt c.path_fits
  have hlabel : c.msg.labelSize.toInt = textSize c.label := toInt_textSize c.label_fits
  have henv : c.msg.envSize.toInt = textSize c.environment := toInt_textSize c.environment_fits
  rw [length_payload, ← c.msg.ofBytes_bytes]
  refine NewjobMsg.sizes_ofBytes_le hbytes ?_ ?_ ?_ ?_ ?_ <;> rw [c.msg.ofBytes_bytes]
  · rw [toInt_dependOnSize]
    exact Int.natCast_nonneg _
  · rw [hcommand]
    exact Int.natCast_nonneg _
  · rw [hpath]
    exact Int.natCast_nonneg _
  · rw [hlabel]
    exact Int.natCast_nonneg _
  · rw [henv]
    exact Int.natCast_nonneg _

/-- **A request that has been read to the end of its texts** has been taken completely exactly if
every single call found all that it asked for. -/
theorem flatten_rest_iff {before : ℕ → UInt8} {request : NewJob} {rest : Chunks UInt8}
    (hinput : input.flatten = c.cNewJob ++ more)
    (h : ((received input).recvNewjob before).run (input.read msgSize).2 = .ok (request, rest)) :
    rest.flatten = more ↔ input.ReadsWhole c.singleReads := by
  obtain ⟨w, hw, hrest⟩ := NewjobMsg.recvNewjob_rest h
  obtain ⟨w', hw', hle, hiff⟩ :=
    Chunks.exists_take_reads (received input).dependReads (input.read msgSize).2
  have hread := Chunks.length_read_le msgSize input
  have hsizes := sizes_received_le hinput
  have hlen : c.cNewJob.length = msgSize + c.payload.length := by
    rw [cNewJob, List.length_append, c.msg.length_bytes]
  -- what has been taken, and what is left
  have htaken : ((input.read msgSize).1 ++ (w' ++ w)) ++ rest.flatten = c.cNewJob ++ more := by
    rw [← hinput, ← Chunks.read_append msgSize input, hw', hrest]
    simp only [List.append_assoc]
  have hcount : ((input.read msgSize).1 ++ (w' ++ w)).length =
      (input.read msgSize).1.length + (w'.length + (received input).textSizes) := by
    rw [List.length_append, List.length_append, hw]
  have hmore : rest.flatten = more ↔
      ((input.read msgSize).1 ++ (w' ++ w)).length = c.cNewJob.length := by
    constructor
    · intro heq
      have hlens := congrArg List.length htaken
      have hright : (c.cNewJob ++ more).length = c.cNewJob.length + more.length := List.length_append
      rw [heq, List.length_append, hright] at hlens
      exact Nat.add_right_cancel hlens
    · exact fun heq => (List.append_inj htaken heq).2
  rw [hmore, hcount, hlen, singleReads, Chunks.ReadsWhole]
  by_cases hwhole : (input.read msgSize).1.length = msgSize
  · obtain ⟨hmsg, -⟩ := received_whole hinput hwhole
    rw [hmsg] at hle hiff hsizes ⊢
    rw [length_payload, and_iff_right hwhole, ← hiff, hwhole]
    omega
  · refine iff_of_false ?_ fun h => hwhole h.1
    omega

end CommandLine

/-! ### The server -/

namespace Spool

variable {e : Env} {s : Spool} {socket : ℤ} {user : ℕ} {old : Option Job} {m : NewjobMsg}
  {c : CommandLine} {before : ℕ → UInt8} {a : Chunks UInt8} {more : Stream}

/-- A job that asks for too many slots is refused without a look at what follows the message. -/
theorem newjobFill_of_exceeds {request : NewJob}
    (h : s.exceedsMaxSlots user request.numSlots) :
    ∃ sp, s.newjobFill e socket request user old = .ok (sp, -1) := by
  cases old with
  | none =>
    simp only [newjobFill, ↓reduceIte]
    rw [if_pos (by exact h)]
    exact ⟨_, rfl⟩
  | some p =>
    simp only [newjobFill, reduceCtorEq, ↓reduceIte]
    rw [if_pos (by exact h)]
    exact ⟨_, rfl⟩

theorem newjobFill_request (h : s.exceedsMaxSlots user c.msg.numSlots.toInt) :
    s.newjobFill e socket c.msg.request user old = s.newjobFill e socket c.request user old := by
  cases old with
  | none =>
    simp only [newjobFill, ↓reduceIte]
    rw [if_pos (by exact h), if_pos (by exact h)]
    rfl
  | some p =>
    simp only [newjobFill, reduceCtorEq, ↓reduceIte]
    rw [if_pos (by exact h), if_pos (by exact h)]
    rfl

/-- A job that is not refused for its number of slots has been read to the end of its texts. -/
theorem recvFill_rest {r : Spool × ℤ} {rest : Chunks UInt8} (hid : r.2 ≠ -1)
    (h : s.recvFill e before socket m user old a = .ok (r, rest)) :
    ∃ request, (m.recvNewjob before).run a = .ok (request, rest) := by
  unfold recvFill at h
  split_ifs at h with hslots
  · obtain ⟨r', hr, heq⟩ := Except.map_eq_ok.1 h
    cases heq
    obtain ⟨sp, hfill⟩ : ∃ sp, s.newjobFill e socket m.request user old = .ok (sp, -1) :=
      newjobFill_of_exceeds hslots
    rw [hfill] at hr
    cases hr
    exact absurd rfl hid
  · obtain ⟨⟨request, rest'⟩, hrun, h⟩ := Except.bind_eq_ok.1 h
    obtain ⟨r', -, heq⟩ := Except.map_eq_ok.1 h
    cases heq
    exact ⟨request, hrun⟩

theorem recvSNewjob_rest {r : Spool × ℤ} {rest : Chunks UInt8} (hid : r.2 ≠ -1)
    (h : s.recvSNewjob e before socket m user a = .ok (r, rest)) :
    ∃ request, (m.recvNewjob before).run a = .ok (request, rest) := by
  rw [recvSNewjob, Except.bind_eq_ok] at h
  obtain ⟨sp, -, h⟩ := h
  cases hp : (if m.jobid.toInt = 0 then none else sp.findjob m.jobid.toInt) with
  | none =>
    simp only [hp] at h
    exact recvFill_rest hid h
  | some p =>
    simp only [hp] at h
    split_ifs at h
    · exact recvFill_rest hid h
    · cases h
      exact absurd rfl hid

theorem recvFill_fst (ha : a.flatten = c.payload ++ more)
    (hwhole : a.ReadsWhole c.msg.dependReads) :
    (s.recvFill e before socket c.msg user old a).map Prod.fst =
      s.newjobFill e socket c.request user old := by
  unfold recvFill
  by_cases h : s.exceedsMaxSlots user c.msg.numSlots.toInt
  · rw [if_pos h, newjobFill_request h]
    cases s.newjobFill e socket c.request user old <;> rfl
  · obtain ⟨rest, hrun, -⟩ := c.exists_recvNewjob before ha hwhole
    rw [if_neg h, hrun]
    simp only [bind, Except.bind]
    cases s.newjobFill e socket c.request user old <;> rfl

/-- `s_newjob` on the bytes of a request does what it does with the request. -/
theorem recvSNewjob_fst (before : ℕ → UInt8) (ha : a.flatten = c.payload ++ more)
    (hwhole : a.ReadsWhole c.msg.dependReads) :
    (s.recvSNewjob e before socket c.msg user a).map Prod.fst =
      s.sNewjob e socket c.request user := by
  unfold recvSNewjob sNewjob
  cases s.sUpdateSlotsUsage e with
  | error err => rfl
  | ok s =>
    have hjobid : c.request.jobid = c.msg.jobid.toInt := rfl
    simp only [bind, Except.bind, hjobid]
    cases (if c.msg.jobid.toInt = 0 then none else s.findjob c.msg.jobid.toInt) with
    | none => exact recvFill_fst ha hwhole
    | some p =>
      dsimp only
      split_ifs
      · exact recvFill_fst ha hwhole
      · rfl

/-- `s_check_locker` after an old lock has been dropped: another user took the lock no longer ago than
`DEFAULT_USER_LOCK_TIME`. -/
def lockedByOther (e : Env) (s : Spool) (user : ℕ) : Prop :=
  ∃ u, s.userLocker = some u ∧ u ≠ user ∧ e.now - s.lockerTime ≤ 30

theorem sCheckLocker_timeoutLock :
    ((s.timeoutLock e).sCheckLocker e user).2 = true ↔ s.lockedByOther e user := by
  unfold timeoutLock lockedByOther
  cases hl : s.userLocker with
  | none => simp [sCheckLocker, hl]
  | some u =>
    simp only [Option.some.injEq, exists_eq_left']
    by_cases hold : 30 < e.now - s.lockerTime
    · have hnot : ¬(u ≠ user ∧ e.now - s.lockerTime ≤ 30) := fun h => absurd h.2 (by omega)
      rw [iff_false_right hnot]
      split_ifs <;> simp [sCheckLocker, hl, hold]
    · have hkeep : ¬(if (s.users u).uid = 0 then 86400 else 30) < e.now - s.lockerTime := by
        split_ifs <;> omega
      rw [if_neg hkeep]
      simp [sCheckLocker, hl, hold, not_lt.1 hold]

end Spool

namespace Server

variable {e : Env} {s s' : Server} {index : ℕ} {m : NewjobMsg} {c : CommandLine}
  {before : ℕ → UInt8} {input rest : Chunks UInt8} {more : Stream}

theorem recvNewjob_fst {a : Chunks UInt8} (ha : a.flatten = c.payload ++ more)
    (hwhole : a.ReadsWhole c.msg.dependReads) :
    (s.recvNewjob e before index c.msg a).map Prod.fst = s.newjob e index c.request := by
  have hwait : c.request.waitEnqueuing = decide (c.msg.waitEnqueuing ≠ 0) := rfl
  unfold recvNewjob newjob
  by_cases hlocked : (s.sCheckLocker e (s.clientCs index).user).2 = true
  · simp only [hlocked, ↓reduceIte]
    rfl
  · simp only [if_neg hlocked, hwait, decide_eq_true_eq]
    simp only [← Spool.recvSNewjob_fst before ha hwhole]
    -- the branches differ only in the bytes they hand on
    cases Spool.recvSNewjob e _ before _ c.msg _ a with
    | error err => rfl
    | ok r =>
      simp only [Except.map, bind, Except.bind]
      split_ifs
      · cases cleanAfterClientDisappeared e _ _ index <;> rfl
      · rfl
      · cases cleanAfterClientDisappeared e _ _ index <;> rfl
      · rfl

/-- **On the bytes of a request the server does what `client_read` does with the request**, if no call
is short. -/
theorem clientReadNewjob_fst (hinput : input.flatten = c.cNewJob ++ more)
    (hwhole : input.ReadsWhole c.singleReads) :
    (s.clientReadNewjob e before index input).map Prod.fst =
      s.clientRead e index (.newjob c.request) := by
  obtain ⟨hread, hreads⟩ := hwhole
  obtain ⟨hmsg, hrest⟩ := CommandLine.received_whole hinput hread
  have hsome : ¬(input.read msgSize).1.length = 0 := by
    rw [hread]
    decide
  have hrec : s.clientReadNewjob e before index input =
      (s.onSpool fun sp => sp.timeoutLock e).recvNewjob e before index c.msg
        (input.read msgSize).2 := by
    rw [← hmsg]
    exact if_neg hsome
  rw [hrec]
  exact recvNewjob_fst hrest hreads

/-- The case `NEWJOB` keeps the connection if another user has locked the server, and then nothing is
read, or if the whole request has been read. -/
theorem recvNewjob_open {a : Chunks UInt8}
    (h : s.recvNewjob e before index m a = .ok (s', some rest)) :
    ((s.sCheckLocker e (s.clientCs index).user).2 = true ∧ rest = a) ∨
      (¬(s.sCheckLocker e (s.clientCs index).user).2 = true ∧
        ∃ request, (m.recvNewjob before).run a = .ok (request, rest)) := by
  unfold recvNewjob at h
  by_cases hlocked : (s.sCheckLocker e (s.clientCs index).user).2 = true
  · simp only [hlocked, ↓reduceIte] at h
    cases h
    exact .inl ⟨hlocked, rfl⟩
  · refine .inr ⟨hlocked, ?_⟩
    simp only [if_neg hlocked] at h
    obtain ⟨⟨⟨sp, jobid⟩, rest'⟩, hnew, h⟩ := Except.bind_eq_ok.1 h
    dsimp only at h
    split_ifs at h with hid hhold hwait
    · obtain ⟨r, -, h⟩ := Except.bind_eq_ok.1 h
      cases h
    · cases h
      exact Spool.recvSNewjob_rest hid hnew
    · obtain ⟨r, -, h⟩ := Except.bind_eq_ok.1 h
      cases h
    · cases h
      exact Spool.recvSNewjob_rest hid hnew

/-- What is left on a connection that stays open. -/
theorem clientReadNewjob_open (hinput : input.flatten = c.cNewJob ++ more)
    (h : s.clientReadNewjob e before index input = .ok (s', some rest)) :
    rest.flatten = more ↔
      ¬s.lockedByOther e (s.clientCs index).user ∧ input.ReadsWhole c.singleReads := by
  have hread : (s.onSpool fun sp => sp.timeoutLock e).recvNewjob e before index
      (CommandLine.received input) (input.read msgSize).2 = .ok (s', some rest) := by
    unfold clientReadNewjob at h
    dsimp only at h
    split_ifs at h
    · obtain ⟨r, -, heq⟩ := Except.map_eq_ok.1 h
      cases heq
    · exact h
  obtain ⟨hlocked, rfl⟩ | ⟨hlocked, request, hrun⟩ := recvNewjob_open hread
  · have hother : s.lockedByOther e (s.clientCs index).user :=
      Spool.sCheckLocker_timeoutLock.1 hlocked
    refine iff_of_false (fun heq => ?_) fun h => h.1 hother
    -- the payload, at least, is left
    have hlen := congrArg List.length hinput
    rw [← Chunks.read_append msgSize input, heq, List.length_append, List.length_append,
      CommandLine.cNewJob, List.length_append, c.msg.length_bytes] at hlen
    have hle := Chunks.length_read_le msgSize input
    have hpos : 0 < c.payload.length := by
      simp [CommandLine.payload, nulTerminated]
    omega
  · have hnot : ¬s.lockedByOther e (s.clientCs index).user :=
      mt Spool.sCheckLocker_timeoutLock.2 hlocked
    rw [and_iff_right hnot]
    exact CommandLine.flatten_rest_iff hinput hrun

theorem staysOpen_of_any
    (h : (s.clientReadNewjob e before index input).toOption.any (fun r => r.2.isSome) = true) :
    s.StaysOpen e before index input := by
  unfold StaysOpen
  cases hread : s.clientReadNewjob e before index input with
  | error err =>
    rw [hread] at h
    cases h
  | ok r =>
    rw [hread] at h
    obtain ⟨s', rest⟩ := r
    cases rest with
    | none => cases h
    | some rest => exact ⟨s', rest, rfl⟩

/-- **When a `NEWJOB` request keeps the framing of its connection.**  It does if the server is not
locked by another user and each single call finds all that it asks for.  Otherwise the connection, if
it stays open at all, is left inside the request. -/
theorem newjob_framed_iff (e : Env) (s : Server) (before : ℕ → UInt8) (index : ℕ) (c : CommandLine)
    (input : Chunks UInt8) (more : Stream) (hinput : input.flatten = c.cNewJob ++ more) :
    (¬s.lockedByOther e (s.clientCs index).user ∧ input.ReadsWhole c.singleReads →
      s.Framed e before index input more) ∧
    (¬(¬s.lockedByOther e (s.clientCs index).user ∧ input.ReadsWhole c.singleReads) →
      s.StaysOpen e before index input → ¬s.Framed e before index input more) := by
  refine ⟨fun hcond s' rest h => (clientReadNewjob_open hinput h).2 hcond, ?_⟩
  rintro hcond ⟨s', rest, h⟩ hframed
  exact hcond ((clientReadNewjob_open hinput h).1 (hframed s' rest h))

/-- The command `ls` in the directory `/`, to be run after five other jobs. -/
def fivefold : CommandLine where
  linuxCmd := [108, 115]
  path := [47]
  dependOn := [1, 2, 3, 4, 5]

-- what is left is taken for a message, and five dependencies for its type `ENDJOB`
example : int32At fivefold.payload 0 = 5 := by decide +kernel

/-- The server with a connection of root. -/
def rootConnected : Server := started.enter 6 0

/-- The request arrives in one piece, or its last dependencies arrive after `recv_ints` has looked
for them: then the command is read from where they are. -/
theorem fivefold_framed :
    rootConnected.Framed (world 4) (fun _ => 0) 0 [fivefold.cNewJob] [] ∧
      ¬rootConnected.Framed (world 4) (fun _ => 0) 0
        [fivefold.cNewJob.take 90, fivefold.cNewJob.drop 90] [] := by
  have hlock : ¬rootConnected.lockedByOther (world 4) (rootConnected.clientCs 0).user := by
    rintro ⟨u, hu, -⟩
    cases hu
  constructor
  · refine (newjob_framed_iff (world 4) rootConnected (fun _ => 0) 0 fivefold [fivefold.cNewJob] []
      (by simp)).1 ⟨hlock, ?_⟩
    decide +kernel
  · refine (newjob_framed_iff (world 4) rootConnected (fun _ => 0) 0 fivefold
      [fivefold.cNewJob.take 90, fivefold.cNewJob.drop 90] [] (by simp)).2 ?_ ?_
    · rintro ⟨-, hwhole⟩
      have hshort : ¬Chunks.ReadsWhole fivefold.singleReads
          [fivefold.cNewJob.take 90, fivefold.cNewJob.drop 90] := by decide +kernel
      exact hshort hwhole
    · refine staysOpen_of_any ?_
      decide +kernel

/-- The user 1000 locks the server at the time 2.  Root asks for a job at the time 4, and the payload
stays on the connection. -/
theorem locked_payload_left : ¬∀ s, Run (Step plainConfig) anyInput started s →
    ∀ (e : Env) (before : ℕ → UInt8) (index : ℕ) (c : CommandLine) (input : Chunks UInt8)
      (more : Stream), input.flatten = c.cNewJob ++ more → s.Framed e before index input more := by
  intro hall
  obtain ⟨s, hr, hP⟩ := exists_run plainConfig anyInput started
    (fun s => s.userLocker = some 1 ∧ s.lockerTime = 2 ∧ (s.clientCs 0).user = 0 ∧
      (s.clientReadNewjob (world 4) (fun _ => 0) 0 [fivefold.cNewJob]).toOption.any
        (fun r => r.2.isSome) = true)
    [(world 1, .accept 5 1000), (world 2, .message 0 (.request .lockServer)), (world 3, .accept 6 0)]
    (by simp [world]) (by decide +kernel)
  obtain ⟨hlock, htime, huser, hopen⟩ := of_decide_eq_true hP
  have hlocked : s.lockedByOther (world 4) (s.clientCs 0).user := by
    refine ⟨1, hlock, ?_, ?_⟩
    · rw [huser]
      decide
    · rw [htime]
      decide
  obtain ⟨s', rest, h⟩ := staysOpen_of_any hopen
  have hinput : ([fivefold.cNewJob] : Chunks UInt8).flatten = fivefold.cNewJob ++ [] := by simp
  exact ((clientReadNewjob_open hinput h).1
    (hall s hr (world 4) (fun _ => 0) 0 fivefold _ [] hinput s' rest h)).1 hlocked

end Server

end TaskSpooler
