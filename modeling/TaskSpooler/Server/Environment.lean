import TaskSpooler.Lib.Strtok
import TaskSpooler.Server.Basic
import TaskSpooler.Server.Transfer

/-!
# The environment of the server (`server_env.c`)

`SET_ENV` carries the text `name=value`.  `s_set_env` takes it apart with two calls of `strtok` and
hands what they return to `setenv`.  So the value ends at the next equals sign, equals signs at its
front are lost, and without a value the second call returns a null pointer, which `setenv` follows.

* `set_get_iff`: a value is read back as it was set exactly if it is not empty and has no equals
  sign; of the texts without an equals sign, `s_set_env` gets over the empty one only.
* `answer_setEnv`: where the server goes on, it does what the requests on the state of the server
  say.

A request is a string with its null, which arrives in chunks; `recv_bytes` takes more than one chunk
for a failure (`recvVar_whole`).
-/

namespace TaskSpooler

namespace Environment

open Transfer

/-- The bytes of a string, without the null at its end. -/
abbrev Bytes := List UInt8

/-- `environ`: the names with their values. -/
abbrev Environ := List (Bytes × Bytes)

/-- How the server ends. -/
inductive Failure
  /-- `error("Receiving environment variable name")`. -/
  | receiving
  /-- `recv_bytes` waits forever. -/
  | waiting
  /-- A null pointer is followed. -/
  | nullPointer
  deriving DecidableEq, Repr

/-- The byte of an equals sign. -/
def equals : UInt8 := 61

variable (E : Environ)

/-! ### The library -/

/-- `getenv`. -/
def getenv (name : Bytes) : Option Bytes := E.lookup name

/-- `setenv(name, value, 1)`.  A name that is missing, empty or has an equals sign is refused with
`EINVAL` before the value is looked at. -/
def setenv (name value : Option Bytes) : Except Failure Environ :=
  match name, value with
  | none, _ => .ok E
  | some name, none => if name = [] ∨ equals ∈ name then .ok E else .error .nullPointer
  | some name, some value =>
    if name = [] ∨ equals ∈ name then .ok E
    else .ok ((name, value) :: E.filter fun v => v.1 ≠ name)

/-- `unsetenv`. -/
def unsetenv (name : Bytes) : Environ :=
  if name = [] ∨ equals ∈ name then E else E.filter fun v => v.1 ≠ name

/-! ### The requests -/

/-- `malloc(size)` and `recv_bytes(s, var, size)`. -/
def recvVar (size : ℕ) (arrivals : Arrivals) : Except Failure Bytes :=
  match recvBytes (arrivals.length + 1) size arrivals with
  | some (res, var) => if res ≠ size then .error .receiving else .ok var
  | none => .error .waiting

/-- The string in a buffer. -/
def cString (var : Bytes) : Bytes := var.takeWhile (· ≠ 0)

/-- `s_get_env`: `m.u.size` and the bytes behind the message. -/
def sGetEnv (size : ℕ) (arrivals : Arrivals) : Except Failure (ℕ × Bytes) := do
  let var ← recvVar size arrivals
  .ok ((getenv E (cString var)).elim (0, []) fun val => (val.length + 1, val ++ [0]))

/-- `char *name = strtok(var, "="); char *val = strtok(NULL, "=");`.  Where the first call finds
nothing the second one begins at the end of the text. -/
def splitVar (text : Bytes) : Option Bytes × Option Bytes :=
  match Strtok.next (· = equals) text with
  | none => (none, none)
  | some (name, rest) => (some name, (Strtok.next (· = equals) rest).map Prod.fst)

/-- `s_set_env`. -/
def sSetEnv (size : ℕ) (arrivals : Arrivals) : Except Failure Environ := do
  let var ← recvVar size arrivals
  let (name, val) := splitVar (cString var)
  setenv E name val

/-- `s_unset_env`. -/
def sUnsetEnv (size : ℕ) (arrivals : Arrivals) : Except Failure Environ := do
  let var ← recvVar size arrivals
  .ok (unsetenv E (cString var))

variable {E} {name value text var : Bytes} {chunks chunks' : List Bytes}

/-! ### Receiving -/

/-- The chunks make up a string with its null, and none of them is empty. -/
structure Carries (chunks : List Bytes) (text : Bytes) : Prop where
  flatten : chunks.flatten = text ++ [0]
  ne_nil : ∀ c ∈ chunks, c ≠ []

theorem Carries.ne (h : Carries chunks text) : chunks ≠ [] := by
  rintro rfl
  simpa using h.flatten

/-- **A string is received exactly if it arrives in one chunk.** -/
theorem recvVar_whole (h : Carries chunks text) :
    recvVar (text.length + 1) (chunks.map some) =
      if chunks.length = 1 then .ok (text ++ [0]) else .error .receiving := by
  obtain ⟨c, chunks, rfl⟩ := List.exists_cons_of_ne_nil h.ne
  have hlen : (c :: chunks).flatten.length = text.length + 1 := by simp [h.flatten]
  have hloop : recvLoop (((c :: chunks).map some).length + 1) (text.length + 1) []
      ((c :: chunks).map some) = _ := recvLoop_whole h.ne_nil hlen
  have hfuel : chunks.length < ((c :: chunks).map some).length + 1 := by
    rw [List.length_map, List.length_cons]
    omega
  rw [if_pos hfuel, List.nil_append, h.flatten] at hloop
  rw [recvVar, recvBytes, hloop]
  cases chunks with
  | nil =>
    have hc : c = text ++ [0] := by simpa using h.flatten
    simp [hc]
  | cons d chunks =>
    -- the last chunk is shorter than the string, for the first one is not empty
    have hlast := (List.sublist_flatten_of_mem
      (List.getLast_mem (List.cons_ne_nil d chunks))).length_le
    have hpos := List.length_pos_iff.2 (h.ne_nil c List.mem_cons_self)
    rw [List.flatten_cons, List.length_append] at hlen
    have hne : (((c :: d :: chunks).getLast (List.cons_ne_nil _ _)).length : ℤ) ≠
        ((text.length + 1 : ℕ) : ℤ) := by
      rw [List.getLast_cons_cons]
      omega
    rw [if_neg (by simp)]
    exact if_pos hne

theorem cString_nul (h : 0 ∉ text) : cString (text ++ [0]) = text := by
  have hall : ∀ b ∈ text, decide (b ≠ 0) = true := fun b hb => by
    simpa using fun he : b = 0 => h (he ▸ hb)
  rw [cString, List.takeWhile_append_of_pos hall]
  simp

/-- What `s_set_env` does with a string. -/
theorem sSetEnv_eq (h : Carries chunks text) (htext : 0 ∉ text) :
    sSetEnv E (text.length + 1) (chunks.map some) =
      if chunks.length = 1 then setenv E (splitVar text).1 (splitVar text).2
      else .error .receiving := by
  rw [sSetEnv, recvVar_whole h]
  by_cases hone : chunks.length = 1
  · rw [if_pos hone, if_pos hone]
    show setenv E (splitVar (cString (text ++ [0]))).1 (splitVar (cString (text ++ [0]))).2 = _
    rw [cString_nul htext]
  · rw [if_neg hone, if_neg hone]
    rfl

/-- What `s_get_env` answers. -/
theorem sGetEnv_eq (h : Carries chunks name) (hname : 0 ∉ name) :
    sGetEnv E (name.length + 1) (chunks.map some) =
      if chunks.length = 1 then
        .ok ((getenv E name).elim (0, []) fun val => (val.length + 1, val ++ [0]))
      else .error .receiving := by
  rw [sGetEnv, recvVar_whole h]
  by_cases hone : chunks.length = 1
  · rw [if_pos hone, if_pos hone]
    show Except.ok ((getenv E (cString (name ++ [0]))).elim (0, [])
      fun val => (val.length + 1, val ++ [0])) = _
    rw [cString_nul hname]
  · rw [if_neg hone, if_neg hone]
    rfl

/-! ### Setting -/

/-- A name that is not empty and has no equals sign. -/
structure IsName (name : Bytes) : Prop where
  ne_nil : name ≠ []
  equals_notMem : equals ∉ name

theorem IsName.sep (h : IsName name) : ∀ c ∈ name, decide (c = equals) = false := by
  intro c hc
  simpa using fun he : c = equals => h.equals_notMem (he ▸ hc)

/-- The name is found, and of the value its first piece. -/
theorem splitVar_eq (h : IsName name) : splitVar (name ++ equals :: value) =
    (some name, (Strtok.next (· = equals) value).map Prod.fst) := by
  rw [splitVar, Strtok.next_append h.ne_nil h.sep (by simp)]

theorem setenv_none (h : IsName name) : setenv E (some name) none = .error .nullPointer :=
  if_neg fun hbad => hbad.elim h.ne_nil h.equals_notMem

theorem setenv_some (h : IsName name) (v : Bytes) : setenv E (some name) (some v) =
    .ok ((name, v) :: E.filter fun x => x.1 ≠ name) :=
  if_neg fun hbad => hbad.elim h.ne_nil h.equals_notMem

theorem getenv_set {v : Bytes} {F : Environ} : getenv ((name, v) :: F) name = some v := by
  simp [getenv]

/-- The value that is set is the value exactly if it is a token of its own. -/
theorem next_value_iff :
    (Strtok.next (· = equals) value).map Prod.fst = some value ↔ value ≠ [] ∧ equals ∉ value := by
  constructor
  · intro h
    obtain ⟨r, hr, hv⟩ := Option.map_eq_some_iff.1 h
    obtain ⟨hne, hsep⟩ := Strtok.next_token hr
    rw [hv] at hne hsep
    exact ⟨hne, fun hmem => by simpa using hsep equals hmem⟩
  · rintro ⟨hne, hmem⟩
    rw [Strtok.next_piece hne (IsName.sep ⟨hne, hmem⟩), Option.map_some]

/-- `SET_ENV` with `name=value` is survived, and `GET_ENV` then answers with the value. -/
def SetGet (E : Environ) (name value : Bytes) (chunks chunks' : List Bytes) : Prop :=
  ∃ E', sSetEnv E ((name ++ equals :: value).length + 1) (chunks.map some) = .ok E' ∧
    sGetEnv E' (name.length + 1) (chunks'.map some) = .ok (value.length + 1, value ++ [0])

/-- `SET_ENV` with a text that is not an assignment changes nothing. -/
def Ignored (E : Environ) (text : Bytes) (chunks : List Bytes) : Prop :=
  sSetEnv E (text.length + 1) (chunks.map some) = .ok E

theorem setGet_iff (hn : IsName name) (hname : 0 ∉ name) (hvalue : 0 ∉ value)
    (h : Carries chunks (name ++ equals :: value)) (h' : Carries chunks' name) :
    SetGet E name value chunks chunks' ↔
      (value ≠ [] ∧ equals ∉ value) ∧ chunks.length = 1 ∧ chunks'.length = 1 := by
  have htext : 0 ∉ name ++ equals :: value := by
    simp only [List.mem_append, List.mem_cons, not_or]
    exact ⟨hname, by decide, hvalue⟩
  rw [SetGet, sSetEnv_eq h htext, splitVar_eq hn, ← next_value_iff]
  by_cases hone : chunks.length = 1
  · rw [if_pos hone]
    cases hv : (Strtok.next (· = equals) value).map Prod.fst with
    | none =>
      rw [setenv_none hn]
      constructor
      · rintro ⟨E', hE', -⟩
        cases hE'
      · rintro ⟨hsome, -⟩
        cases hsome
    | some v =>
      rw [setenv_some hn]
      constructor
      · rintro ⟨E', hE', hget⟩
        obtain rfl := Except.ok.inj hE'
        rw [sGetEnv_eq h' hname, getenv_set] at hget
        by_cases hone' : chunks'.length = 1
        · rw [if_pos hone'] at hget
          have hbytes := (Prod.mk.inj (Except.ok.inj hget)).2
          rw [List.append_cancel_right hbytes]
          exact ⟨rfl, hone, hone'⟩
        · rw [if_neg hone'] at hget
          cases hget
      · rintro ⟨hsome, -, hone'⟩
        obtain rfl := Option.some.inj hsome
        refine ⟨_, rfl, ?_⟩
        rw [sGetEnv_eq h' hname, getenv_set, if_pos hone']
        rfl
  · rw [if_neg hone]
    constructor
    · rintro ⟨E', hE', -⟩
      cases hE'
    · rintro ⟨-, hone', -⟩
      exact absurd hone' hone

theorem ignored_iff (htext : 0 ∉ text) (heq : equals ∉ text) (h : Carries chunks text) :
    Ignored E text chunks ↔ text = [] := by
  rw [Ignored, sSetEnv_eq h htext]
  constructor
  · intro hok
    by_contra hne
    -- all of the text is the name, and there is no value
    have hsplit : splitVar text = (some text, none) := by
      rw [splitVar, Strtok.next_piece hne (IsName.sep ⟨hne, heq⟩)]
      rfl
    by_cases hone : chunks.length = 1
    · rw [if_pos hone, hsplit, setenv_none ⟨hne, heq⟩] at hok
      cases hok
    · rw [if_neg hone] at hok
      cases hok
  · rintro rfl
    have hone : chunks.length = 1 := by
      obtain ⟨c, chunks, rfl⟩ := List.exists_cons_of_ne_nil h.ne
      cases chunks with
      | nil => rfl
      | cons d chunks =>
        have hlen := congrArg List.length h.flatten
        have hc := List.length_pos_iff.2 (h.ne_nil c List.mem_cons_self)
        have hd := List.length_pos_iff.2 (h.ne_nil d (by simp))
        simp only [List.flatten_cons, List.length_append, List.length_nil,
          List.length_singleton] at hlen
        omega
    rw [if_pos hone]
    rfl

/-- **When the environment is set as it was asked for.**  A value is answered as it was sent exactly
if it is not empty and has no equals sign, and the two requests arrive in one chunk each.  A text
without an equals sign leaves the environment alone only if it is empty. -/
theorem set_get_iff (E : Environ) :
    (∀ name value chunks chunks', IsName name → 0 ∉ name → 0 ∉ value →
      Carries chunks (name ++ equals :: value) → Carries chunks' name →
      (SetGet E name value chunks chunks' ↔
        (value ≠ [] ∧ equals ∉ value) ∧ chunks.length = 1 ∧ chunks'.length = 1)) ∧
    (∀ text chunks, 0 ∉ text → equals ∉ text → Carries chunks text →
      (Ignored E text chunks ↔ text = [])) :=
  ⟨fun _ _ _ _ hn hname hvalue h h' => setGet_iff hn hname hvalue h h',
    fun _ _ htext heq h => ignored_iff htext heq h⟩

/-- The environment in which `PATH` is set from one request and asked for by another. -/
theorem path_set : SetGet [] [80, 65, 84, 72] [47, 98, 105, 110]
    [[80, 65, 84, 72, 61, 47, 98, 105, 110, 0]] [[80, 65, 84, 72, 0]] :=
  ((set_get_iff []).1 [80, 65, 84, 72] [47, 98, 105, 110] _ _ ⟨by decide, by decide⟩ (by decide)
    (by decide) ⟨rfl, by decide⟩ ⟨rfl, by decide⟩).2 (by decide)

/-- `A=b=c` is set to `b`; `A=` and `A` are the end of the server. -/
theorem value_cut : ¬((∀ name value, IsName name → 0 ∉ name → 0 ∉ value →
      SetGet [] name value [name ++ equals :: value ++ [0]] [name ++ [0]]) ∨
    (∀ text, 0 ∉ text → equals ∉ text → Ignored [] text [text ++ [0]])) := by
  rintro (hset | hignored)
  · obtain ⟨E', hE', hget⟩ := hset [65] [98, 61, 99] ⟨by decide, by decide⟩ (by decide) (by decide)
    have hcut : sSetEnv [] ([65] ++ equals :: [98, 61, 99]).length.succ
        ([[65] ++ equals :: [98, 61, 99] ++ [0]].map some) = .ok [([65], [98])] := by decide
    obtain rfl := Except.ok.inj (hcut.symm.trans hE')
    revert hget
    decide
  · have hok := hignored [65] (by decide) (by decide)
    revert hok
    rw [Ignored]
    decide

/-! ### The requests on the state of the server -/

/-- The text of some bytes, one character for each. -/
def bytesText (b : Bytes) : String := String.ofList (b.map fun x => Char.ofNat x.toNat)

/-- The environment in the words of the state of the server. -/
def Environ.texts (E : Environ) : List (String × String) :=
  E.map fun v => (bytesText v.1, bytesText v.2)

theorem bytesText_injective : Function.Injective bytesText := by
  have hchar : Function.Injective fun x : UInt8 => Char.ofNat x.toNat := by
    intro x y h
    have hlt : ∀ z : UInt8, (Char.ofNat z.toNat).toNat = z.toNat := fun z => by
      have hvalid : z.toNat.isValidChar := Or.inl (by have := z.toNat_lt; omega)
      rw [Char.ofNat, dif_pos hvalid]
      rfl
    refine UInt8.toNat_inj.1 ?_
    rw [← hlt x, ← hlt y]
    exact congrArg Char.toNat h
  intro a b h
  exact List.map_injective_iff.2 hchar (String.ofList_injective h)

theorem lookup_texts : E.texts.lookup (bytesText name) = (getenv E name).map bytesText := by
  rw [Environ.texts, getenv]
  induction E with
  | nil => rfl
  | cons v E ih =>
    rw [List.map_cons]
    by_cases hv : name = v.1
    · subst hv
      rw [List.lookup_cons, List.lookup_cons, beq_self_eq_true, beq_self_eq_true]
      rfl
    · have htext : bytesText name ≠ bytesText v.1 := bytesText_injective.ne hv
      rw [List.lookup_cons, List.lookup_cons, beq_false_of_ne htext, beq_false_of_ne hv]
      exact ih

theorem filter_texts : (E.texts.filter fun v => v.1 ≠ bytesText name) =
    Environ.texts (E.filter fun v => v.1 ≠ name) := by
  rw [Environ.texts, Environ.texts, List.filter_map]
  refine congrArg _ (List.filter_congr fun v _ => ?_)
  simp [bytesText_injective.eq_iff]

variable {e : Env} {s : Spool} {socket : ℤ} {user : ℕ} {E' : Environ} {v : Bytes} {n : ℕ}

/-- **A request to set a variable is the one on the state of the server** with the name and the
value that `strtok` delivers. -/
theorem answer_setEnv (henv : s.environment = E.texts) (h : Carries chunks text) (htext : 0 ∉ text)
    (hsplit : splitVar text = (some name, some v))
    (hset : sSetEnv E (text.length + 1) (chunks.map some) = .ok E') :
    s.answer e socket user (.setEnv (bytesText name) (bytesText v)) =
      .ok { s with environment := E'.texts } := by
  have hname : IsName name := by
    rw [splitVar] at hsplit
    cases hnext : Strtok.next (· = equals) text with
    | none =>
      rw [hnext] at hsplit
      cases hsplit
    | some r =>
      rw [hnext] at hsplit
      obtain ⟨hne, hsep⟩ := Strtok.next_token hnext
      obtain rfl := Option.some.inj (Prod.mk.inj hsplit).1
      exact ⟨hne, fun hmem => by simpa using hsep equals hmem⟩
  rw [sSetEnv_eq h htext, hsplit] at hset
  by_cases hone : chunks.length = 1
  · rw [if_pos hone, setenv_some hname] at hset
    obtain rfl := Except.ok.inj hset
    rw [Spool.answer, henv, filter_texts]
    rfl
  · rw [if_neg hone] at hset
    cases hset

/-- **A request for a variable is the one on the state of the server.** -/
theorem answer_getEnv (henv : s.environment = E.texts) (h : Carries chunks name)
    (hname : 0 ∉ name) {reply : Bytes}
    (hget : sGetEnv E (name.length + 1) (chunks.map some) = .ok (n, reply)) :
    s.answer e socket user (.getEnv (bytesText name)) =
      .ok (s.send socket (.env (bytesText reply.dropLast))) := by
  rw [sGetEnv_eq h hname] at hget
  by_cases hone : chunks.length = 1
  · rw [if_pos hone] at hget
    rw [Spool.answer, henv, lookup_texts]
    cases hv : getenv E name with
    | none =>
      rw [hv] at hget
      obtain ⟨-, rfl⟩ := Prod.mk.inj (Except.ok.inj hget)
      rfl
    | some val =>
      rw [hv] at hget
      obtain ⟨-, rfl⟩ := Prod.mk.inj (Except.ok.inj hget)
      rw [List.dropLast_concat]
      rfl
  · rw [if_neg hone] at hget
    cases hget

/-- **A request to remove a variable is the one on the state of the server**, for a name that the
library accepts. -/
theorem answer_unsetEnv (henv : s.environment = E.texts) (hn : IsName name)
    (h : Carries chunks name) (hname : 0 ∉ name)
    (hunset : sUnsetEnv E (name.length + 1) (chunks.map some) = .ok E') :
    s.answer e socket user (.unsetEnv (bytesText name)) =
      .ok { s with environment := E'.texts } := by
  rw [sUnsetEnv, recvVar_whole h] at hunset
  by_cases hone : chunks.length = 1
  · rw [if_pos hone] at hunset
    have hok : (Except.ok (unsetenv E (cString (name ++ [0]))) : Except Failure _) = .ok E' :=
      hunset
    rw [cString_nul hname, unsetenv, if_neg fun hbad => hbad.elim hn.ne_nil hn.equals_notMem] at hok
    obtain rfl := Except.ok.inj hok
    rw [Spool.answer, henv, filter_texts]
  · rw [if_neg hone] at hunset
    cases hunset

end Environment

end TaskSpooler
