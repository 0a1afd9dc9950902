import Mathlib.Data.List.Basic
import Mathlib.Algebra.Order.Group.Nat

/-!
# Sending and receiving bytes (`msg.c`)

A socket carries a stream of bytes: `send` takes some of the bytes it is given, and `recv` delivers
some of those that have arrived.  `send_bytes` goes on until everything is sent, whatever portions
are taken (`sendBytes_eq`).

`recv_bytes` puts the chunks one behind the other as well, but it returns the length of the last one,
and its callers take anything but the length of the string for a failure.  So a string is received
as it should be exactly if it arrives in one chunk, and if the stream ends before the string does,
`recv_bytes` asks for the rest forever (`recvBytes_whole_iff`).
-/

namespace TaskSpooler

namespace Transfer

/-- What `send` does: it takes so many bytes, or it fails. -/
abbrev Portions := List (Option ℕ)

/-- What `recv` finds: a chunk of bytes, or an error.  Behind the last entry the stream is at its
end. -/
abbrev Arrivals := List (Option (List UInt8))

/-- `send_bytes`: the bytes that reach the socket. -/
def sendBytes : Portions → List UInt8 → List UInt8
  | [], data => data
  | none :: _, _ => []
  | some k :: rest, data =>
    if data.length ≤ k then data else data.take k ++ sendBytes rest (data.drop k)

/-- `recv` of at most so many bytes; what is left of a chunk stays for the next call. -/
def recv (bytes : ℕ) : Arrivals → Option (List UInt8) × Arrivals
  | [] => (some [], [])
  | none :: rest => (none, rest)
  | some c :: rest =>
    if c.length ≤ bytes then (some c, rest) else (some (c.take bytes), some (c.drop bytes) :: rest)

/-- `recv_bytes`, with one unit of fuel for every call of `recv`: what it returns, and the bytes in
front of `data + offset`. -/
def recvLoop : ℕ → ℕ → List UInt8 → Arrivals → Option (ℤ × List UInt8)
  | 0, _, _, _ => none
  | fuel + 1, bytes, buffer, arrivals =>
    match recv bytes arrivals with
    | (none, _) => some (-1, buffer)
    | (some c, rest) =>
      if c.length = bytes then some ((c.length : ℤ), buffer ++ c)
      else recvLoop fuel (bytes - c.length) (buffer ++ c) rest

/-- `recv_bytes`. -/
def recvBytes (fuel bytes : ℕ) (arrivals : Arrivals) : Option (ℤ × List UInt8) :=
  recvLoop fuel bytes [] arrivals

variable {data buffer c : List UInt8} {chunks : List (List UInt8)} {bytes fuel : ℕ}

/-- **Everything is sent**, whatever portions are taken. -/
theorem sendBytes_eq {l : List ℕ} : sendBytes (l.map some) data = data := by
  induction l generalizing data with
  | nil => rfl
  | cons k l ih =>
    rw [List.map_cons, sendBytes, ih]
    split_ifs
    · rfl
    · exact List.take_append_drop k data

theorem recv_chunk (h : c.length ≤ bytes) {rest : Arrivals} :
    recv bytes (some c :: rest) = (some c, rest) := if_pos h

/-- **A string that has arrived is received**: the chunks are put together, and the length of the
last one is returned. -/
theorem recvLoop_whole (hne : ∀ x ∈ c :: chunks, x ≠ [])
    (hlen : (c :: chunks).flatten.length = bytes) :
    recvLoop fuel bytes buffer ((c :: chunks).map some) =
      if chunks.length < fuel then
        some ((((c :: chunks).getLast (List.cons_ne_nil _ _)).length : ℤ),
          buffer ++ (c :: chunks).flatten)
      else none := by
  induction chunks generalizing fuel bytes buffer c with
  | nil =>
    have hc : c.length = bytes := by simpa using hlen
    cases fuel with
    | zero => rfl
    | succ fuel =>
      rw [List.map_cons, recvLoop, recv_chunk hc.le]
      simp [hc]
  | cons d chunks ih =>
    have hlt : c.length < bytes := by
      have hd : d ≠ [] := hne d (List.mem_cons_of_mem _ List.mem_cons_self)
      have hpos := List.length_pos_iff.2 hd
      rw [List.flatten_cons, List.length_append, List.flatten_cons, List.length_append] at hlen
      omega
    cases fuel with
    | zero => rfl
    | succ fuel =>
      have hrest : (d :: chunks).flatten.length = bytes - c.length := by
        rw [List.flatten_cons, List.length_append] at hlen
        omega
      rw [List.map_cons, recvLoop, recv_chunk hlt.le]
      show (if c.length = bytes then _ else _) = _
      rw [if_neg hlt.ne, ih (fun x hx => hne x (List.mem_cons_of_mem _ hx)) hrest]
      simp only [List.length_cons, Nat.add_lt_add_iff_right, List.getLast_cons_cons,
        List.flatten_cons, List.append_assoc]

/-- **A string that does not arrive is waited for**: nothing is ever returned. -/
theorem recvLoop_short (hlen : chunks.flatten.length < bytes) :
    recvLoop fuel bytes buffer (chunks.map some) = none := by
  induction fuel generalizing bytes buffer chunks with
  | zero => rfl
  | succ fuel ih =>
    cases chunks with
    | nil =>
      have hbytes : 0 < bytes := hlen
      rw [List.map_nil, recvLoop]
      show (if 0 = bytes then _ else _) = _
      rw [if_neg hbytes.ne]
      have hshort : ([] : List (List UInt8)).flatten.length < bytes := hlen
      exact ih hshort
    | cons c chunks =>
      rw [List.flatten_cons, List.length_append] at hlen
      have hc : c.length < bytes := by omega
      rw [List.map_cons, recvLoop, recv_chunk hc.le]
      show (if c.length = bytes then _ else _) = _
      rw [if_neg hc.ne]
      exact ih (by omega)

/-- `recv_bytes` ends with the string in its buffer, and returns its length. -/
def Receives (data : List UInt8) (arrivals : Arrivals) : Prop :=
  ∃ fuel, recvBytes fuel data.length arrivals = some ((data.length : ℤ), data)

/-- **When a string is received.**  A string that was sent in any portions and arrives in chunks is
received as it should be exactly if there is one chunk.  If the stream ends before the string does,
`recv_bytes` never returns. -/
theorem recvBytes_whole_iff (l : List ℕ) (data : List UInt8) (hdata : 1 ≤ data.length)
    (chunks : List (List UInt8)) (hne : ∀ c ∈ chunks, c ≠ []) :
    (chunks.flatten = sendBytes (l.map some) data →
      (Receives data (chunks.map some) ↔ chunks.length = 1)) ∧
    (chunks.flatten.length < data.length →
      ∀ fuel, recvBytes fuel data.length (chunks.map some) = none) := by
  refine ⟨fun hsent => ?_, fun hshort fuel => recvLoop_short hshort⟩
  rw [sendBytes_eq] at hsent
  subst hsent
  cases chunks with
  | nil => exact absurd hdata (by simp)
  | cons c chunks =>
    constructor
    · rintro ⟨fuel, h⟩
      rw [recvBytes, recvLoop_whole hne rfl] at h
      split_ifs at h
      cases chunks with
      | nil => rfl
      | cons d chunks =>
        -- the last chunk is shorter than the string, for the first one is not empty
        have hlast := (Prod.mk.inj (Option.some.inj h)).1
        have hsub := (List.sublist_flatten_of_mem
          (List.getLast_mem (List.cons_ne_nil d chunks))).length_le
        have hpos := List.length_pos_iff.2 (hne c List.mem_cons_self)
        rw [List.getLast_cons_cons, List.flatten_cons, List.length_append] at hlast
        omega
    · intro hone
      have hnil : chunks = [] := List.length_eq_zero_iff.1 (Nat.succ.inj hone)
      subst hnil
      refine ⟨1, ?_⟩
      rw [recvBytes, recvLoop_whole hne rfl]
      simp

/-- A string of three bytes that arrives in one chunk. -/
theorem three_bytes_received :
    (([[1, 2, 3]] : List (List UInt8)).flatten = sendBytes ([2].map some) [1, 2, 3] →
      (Receives [1, 2, 3] ([[1, 2, 3]].map some) ↔ [[1, 2, 3]].length = 1)) ∧
    (([[1, 2, 3]] : List (List UInt8)).flatten.length < [1, 2, 3].length →
      ∀ fuel, recvBytes fuel [1, 2, 3].length ([[1, 2, 3]].map some) = none) :=
  recvBytes_whole_iff [2] [1, 2, 3] (by decide) [[1, 2, 3]] (by decide)

/-- A string of two bytes arrives in two chunks and is taken for a failure; of another one only the
first byte arrives, and it is waited for forever. -/
theorem two_chunks_fail : ¬∀ (data : List UInt8) (chunks : List (List UInt8)), 1 ≤ data.length →
    (∀ c ∈ chunks, c ≠ []) →
    (chunks.flatten = data → Receives data (chunks.map some)) ∧
    (chunks.flatten.length < data.length → ∃ fuel r, recvBytes fuel data.length (chunks.map some) =
      some r ∧ r.1 ≠ data.length) := by
  intro hall
  obtain ⟨fuel, h⟩ := (hall [1, 2] [[1], [2]] (by decide) (by decide)).1 rfl
  cases fuel with
  | zero => cases h
  | succ fuel =>
    cases fuel with
    | zero => cases h
    | succ fuel =>
      have htwo : recvBytes (fuel + 1 + 1) 2 [some [1], some [2]] = some (1, [1, 2]) := rfl
      exact absurd (Prod.mk.inj (Option.some.inj (htwo.symm.trans h))).1 (by decide)

end Transfer

end TaskSpooler
