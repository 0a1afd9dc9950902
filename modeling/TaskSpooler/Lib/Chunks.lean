import Mathlib.Data.List.Basic
import Mathlib.Algebra.GroupWithZero.Nat
import Mathlib.Algebra.Order.Group.Nat
import TaskSpooler.Lib.Except

/-!
# Reading what arrives in chunks

A connection delivers a stream in chunks, cut anywhere.  One call of `read` takes what the first
chunk has and no more; `readAll` asks again until it has as much as it wants.

* `exists_take_reads` : what a row of single calls takes and what it leaves is the stream; they take
  what they ask for exactly if none of them is short.
* `Receive.Takes` : the computation takes so many symbols whenever it succeeds.
* `Receive.Delivers` : the computation takes exactly these symbols, however the stream is cut.
-/

namespace TaskSpooler

universe u

/-- What a connection still has to deliver.  Behind the last chunk the stream is at its end. -/
abbrev Chunks (σ : Type u) := List (List σ)

namespace Chunks

variable {σ : Type u}

/-- One call for at most `n` symbols; what is left of a chunk stays for the next call. -/
def read (n : ℕ) : Chunks σ → List σ × Chunks σ
  | [] => ([], [])
  | [] :: rest => read n rest
  | (x :: c) :: rest => ((x :: c).take n, (x :: c).drop n :: rest)

/-- Calls until there are `n` symbols; `none` if the stream ends before. -/
def readAll (n : ℕ) : Chunks σ → Option (List σ × Chunks σ)
  | [] => if n = 0 then some ([], []) else none
  | c :: rest =>
    if n ≤ c.length then some (c.take n, c.drop n :: rest)
    else (readAll (n - c.length) rest).map fun r => (c ++ r.1, r.2)

/-- What single calls, one behind the other, leave. -/
def afterReads : List ℕ → Chunks σ → Chunks σ
  | [], a => a
  | n :: ns, a => afterReads ns (a.read n).2

/-- Each of the single calls finds as much as it asks for. -/
def ReadsWhole : List ℕ → Chunks σ → Prop
  | [], _ => True
  | n :: ns, a => (a.read n).1.length = n ∧ ReadsWhole ns (a.read n).2

/-- The calls are looked at one by one. -/
def decidableReadsWhole : (ns : List ℕ) → (a : Chunks σ) → Decidable (ReadsWhole ns a)
  | [], _ => instDecidableTrue
  | _ :: ns, a => @instDecidableAnd _ _ inferInstance (decidableReadsWhole ns (a.read _).2)

instance (ns : List ℕ) (a : Chunks σ) : Decidable (ReadsWhole ns a) := decidableReadsWhole ns a

variable {n : ℕ} {ns : List ℕ} {a : Chunks σ} {w more : List σ}

theorem read_append (n : ℕ) (a : Chunks σ) : (a.read n).1 ++ (a.read n).2.flatten = a.flatten := by
  induction a with
  | nil => rfl
  | cons c rest ih =>
    cases c with
    | nil => exact ih
    | cons x c => rw [read, List.flatten_cons, List.flatten_cons, ← List.append_assoc,
        List.take_append_drop]

theorem length_read_le (n : ℕ) (a : Chunks σ) : (a.read n).1.length ≤ n := by
  induction a with
  | nil => exact Nat.zero_le n
  | cons c rest ih =>
    cases c with
    | nil => exact ih
    | cons x c => exact List.length_take_le n (x :: c)

/-- A call that is not short takes the front of the stream. -/
theorem read_of_length (h : (a.read w.length).1.length = w.length) (ha : a.flatten = w ++ more) :
    (a.read w.length).1 = w ∧ (a.read w.length).2.flatten = more := by
  rw [← read_append w.length a] at ha
  exact List.append_inj ha h

/-- **What a row of single calls takes**: together with what it leaves it is the stream; it is as
much as was asked for if no call is short, and less if one is. -/
theorem exists_take_reads (ns : List ℕ) (a : Chunks σ) :
    ∃ w, a.flatten = w ++ (a.afterReads ns).flatten ∧ w.length ≤ ns.sum ∧
      (w.length = ns.sum ↔ a.ReadsWhole ns) := by
  induction ns generalizing a with
  | nil => exact ⟨[], rfl, le_rfl, iff_of_true rfl trivial⟩
  | cons n ns ih =>
    obtain ⟨w, hw, hle, hiff⟩ := ih (a.read n).2
    have hread := length_read_le n a
    refine ⟨(a.read n).1 ++ w, ?_, ?_, ?_⟩
    · rw [afterReads, List.append_assoc, ← hw, read_append]
    · rw [List.length_append, List.sum_cons]
      exact Nat.add_le_add hread hle
    · rw [ReadsWhole, ← hiff, List.length_append, List.sum_cons]
      refine ⟨fun h => ?_, fun h => ?_⟩
      · have hfirst : (a.read n).1.length = n := by omega
        exact ⟨hfirst, by omega⟩
      · rw [h.1, h.2]

/-- What has arrived, in whatever chunks, can be read. -/
theorem exists_readAll (ha : a.flatten = w ++ more) :
    ∃ rest, a.readAll w.length = some (w, rest) ∧ rest.flatten = more := by
  induction a generalizing w with
  | nil =>
    obtain ⟨rfl, rfl⟩ : w = [] ∧ more = [] := List.append_eq_nil_iff.1 ha.symm
    exact ⟨[], rfl, rfl⟩
  | cons c rest ih =>
    rw [List.flatten_cons] at ha
    by_cases hc : w.length ≤ c.length
    · refine ⟨c.drop w.length :: rest, ?_, ?_⟩
      · have hw : c.take w.length = w := by
          rw [← List.take_append_of_le_length hc, ha, List.take_left]
        rw [readAll, if_pos hc, hw]
      · rw [List.flatten_cons, ← List.drop_append_of_le_length hc, ha, List.drop_left]
    · -- the whole chunk is taken, and the rest of `w` is asked for
      have hw : c ++ w.drop c.length = w := by
        have htake : w.take c.length = c := by
          rw [← List.take_append_of_le_length (not_le.1 hc).le, ← ha, List.take_left]
        rw [← htake, List.length_take, min_eq_left (not_le.1 hc).le, List.take_append_drop]
      have hrest : rest.flatten = w.drop c.length ++ more := by
        rw [← hw, List.append_assoc] at ha
        exact List.append_cancel_left ha
      obtain ⟨rest', hread, hmore⟩ := ih hrest
      rw [List.length_drop] at hread
      refine ⟨rest', ?_, hmore⟩
      rw [readAll, if_neg hc, hread, Option.map_some, hw]

/-- What is read is the front of the stream. -/
theorem readAll_append {r : List σ × Chunks σ} (h : a.readAll n = some r) :
    r.1.length = n ∧ a.flatten = r.1 ++ r.2.flatten := by
  induction a generalizing n r with
  | nil =>
    rw [readAll] at h
    split_ifs at h with hn
    cases h
    exact ⟨hn.symm, rfl⟩
  | cons c rest ih =>
    rw [readAll] at h
    split_ifs at h with hn
    · cases h
      exact ⟨List.length_take_of_le hn, by
        rw [List.flatten_cons, List.flatten_cons, ← List.append_assoc, List.take_append_drop]⟩
    · obtain ⟨r', hr, rfl⟩ := Option.map_eq_some_iff.1 h
      obtain ⟨hlen, happ⟩ := ih hr
      refine ⟨?_, ?_⟩
      · rw [List.length_append, hlen]
        omega
      · rw [List.flatten_cons, happ, List.append_assoc]

end Chunks

/-- A computation that reads from a connection and may fail. -/
abbrev Receive (σ ε : Type u) := StateT (Chunks σ) (Except ε)

namespace Receive

variable {σ ε α β : Type u} {r : Receive σ ε α} {f : α → Receive σ ε β} {m n : ℕ} {w w' : List σ}
  {x : α} {y : β}

/-- A single call for `n` symbols. -/
def once (n : ℕ) : Receive σ ε (List σ) := fun a => .ok (a.read n)

/-- Calls until there are `n` symbols, and `err` if there never are. -/
def all (err : ε) (n : ℕ) : Receive σ ε (List σ) := fun a =>
  match a.readAll n with
  | none => .error err
  | some r => .ok r

/-- The computation takes `n` symbols whenever it succeeds. -/
def Takes (r : Receive σ ε α) (n : ℕ) : Prop :=
  ∀ ⦃a x rest⦄, r.run a = .ok (x, rest) → ∃ w, w.length = n ∧ a.flatten = w ++ rest.flatten

/-- From a stream that starts with `w`, however it is cut, the computation takes exactly `w`, and it
succeeds with `x`. -/
def Delivers (r : Receive σ ε α) (w : List σ) (x : α) : Prop :=
  ∀ ⦃a more⦄, a.flatten = w ++ more → ∃ rest, r.run a = .ok (x, rest) ∧ rest.flatten = more

theorem Takes.pure (x : α) : Takes (pure x : Receive σ ε α) 0 := by
  intro a y rest h
  cases h
  exact ⟨[], rfl, rfl⟩

theorem Takes.bind (hr : Takes r m) (hf : ∀ x, Takes (f x) n) : Takes (r >>= f) (m + n) := by
  intro a y rest h
  rw [StateT.run_bind, Except.bind_eq_ok] at h
  obtain ⟨⟨x, rest₁⟩, h₁, h₂⟩ := h
  obtain ⟨w₁, hw₁, happ₁⟩ := hr h₁
  obtain ⟨w₂, hw₂, happ₂⟩ := hf x h₂
  exact ⟨w₁ ++ w₂, by rw [List.length_append, hw₁, hw₂], by rw [happ₁, happ₂, List.append_assoc]⟩

theorem Takes.map (hr : Takes r n) (f : α → β) : Takes (f <$> r) n := by
  intro a y rest h
  rw [StateT.run_map] at h
  obtain ⟨⟨x, rest'⟩, hx, heq⟩ := Except.map_eq_ok.1 h
  cases heq
  exact hr hx

theorem takes_all (err : ε) (n : ℕ) : Takes (all err n : Receive σ ε (List σ)) n := by
  intro a x rest h
  simp only [all, StateT.run] at h
  split at h
  · cases h
  · next r hr =>
    cases h
    exact ⟨_, Chunks.readAll_append hr⟩

theorem Delivers.pure (x : α) : Delivers (pure x : Receive σ ε α) [] x := fun a _ ha =>
  ⟨a, rfl, ha⟩

theorem Delivers.bind (hr : Delivers r w x) (hf : Delivers (f x) w' y) :
    Delivers (r >>= f) (w ++ w') y := by
  intro a more ha
  rw [List.append_assoc] at ha
  obtain ⟨rest, hrun, hrest⟩ := hr ha
  obtain ⟨rest', hrun', hrest'⟩ := hf hrest
  refine ⟨rest', ?_, hrest'⟩
  rw [StateT.run_bind, hrun]
  exact hrun'

/-- The last symbols are taken by a computation that only wraps up. -/
theorem Delivers.bind_pure (hr : Delivers r w x) (f : α → β) :
    Delivers (r >>= fun x => Pure.pure (f x)) w (f x) := by
  have h : Delivers (r >>= fun x => Pure.pure (f x)) (w ++ []) (f x) :=
    hr.bind (Delivers.pure (f x))
  rwa [List.append_nil] at h

theorem Delivers.map (hr : Delivers r w x) (f : α → β) : Delivers (f <$> r) w (f x) := by
  intro a more ha
  obtain ⟨rest, hrun, hrest⟩ := hr ha
  refine ⟨rest, ?_, hrest⟩
  rw [StateT.run_map, hrun]
  rfl

theorem delivers_all (err : ε) (h : w.length = n) : Delivers (all err n) w w := by
  intro a more ha
  obtain ⟨rest, hread, hrest⟩ := Chunks.exists_readAll ha
  refine ⟨rest, ?_, hrest⟩
  simp only [all, StateT.run, ← h, hread]

end Receive

end TaskSpooler
