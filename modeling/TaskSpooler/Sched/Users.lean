import TaskSpooler.Sched.OnTime

/-!
# Reading the user file

The user file may change the limits of the users and of the server, and add users.
-/

namespace TaskSpooler

namespace Spool

variable {e : Env} {s s' : Spool}

/-- Two records of a user agree on who he is and on his counters. -/
def SameCounters (x y : User) : Prop :=
  x.uid = y.uid ∧ x.busy = y.busy ∧ x.jobs = y.jobs ∧ x.queue = y.queue

/-- A relation between the old and the new record of a user holds for all users. -/
theorem update_keeps {P : User → User → Prop} (us : ℕ → User) {u : ℕ} {f : User → User}
    (hf : ∀ x, P (f x) x) (hrefl : ∀ x, P x x) (i : ℕ) :
    P (Function.update us u (f (us u)) i) (us i) := by
  by_cases hi : i = u
  · subst hi
    rw [Function.update_self]
    exact hf _
  · rw [Function.update_of_ne hi]
    exact hrefl _

/-- What reading the user file may change. -/
structure Reads (s s' : Spool) : Prop where
  eq : s' = s.onQueue fun q =>
    { q with users := s'.users, nusers := s'.nusers, maxSlots := s'.maxSlots }
  nusers : s.nusers ≤ s'.nusers
  old : ∀ u < s.nusers, SameCounters (s'.users u) (s.users u)
  new : ∀ u < s'.nusers, s.nusers ≤ u →
    (s'.users u).busy = 0 ∧ (s'.users u).jobs = 0 ∧ (s'.users u).queue = 0
  uids : (∀ u < s.nusers, ∀ u' < s.nusers, (s.users u).uid = (s.users u').uid → u = u') →
    ∀ u < s'.nusers, ∀ u' < s'.nusers, (s'.users u).uid = (s'.users u').uid → u = u'
  maxSlots : 0 < s'.maxSlots ∨ s'.maxSlots = s.maxSlots

namespace Reads

variable {s'' : Spool}

theorem view (h : Reads s s') : s'.view = { s.view with
    users := s'.users, nusers := s'.nusers, maxSlots := s'.maxSlots } := by
  conv_lhs => rw [h.eq]
  rfl

theorem activeJobs (h : Reads s s') : s'.activeJobs = s.activeJobs := by
  rw [h.eq]
  rfl

theorem refl : Reads s s :=
  ⟨rfl, le_refl _, fun _ _ => ⟨rfl, rfl, rfl, rfl⟩, fun _ h h' => absurd h (by omega), id, .inr rfl⟩

theorem trans (h : Reads s s') (h' : Reads s' s'') : Reads s s'' := by
  refine ⟨?_, h.nusers.trans h'.nusers, fun u hu => ?_, fun u hu hle => ?_,
    fun hinj => h'.uids (h.uids hinj), ?_⟩
  · conv_lhs => rw [h'.eq, h.eq]
    rfl
  · obtain ⟨h₁, h₂, h₃, h₄⟩ := h.old u hu
    obtain ⟨h₁', h₂', h₃', h₄'⟩ := h'.old u (hu.trans_le h.nusers)
    exact ⟨h₁'.trans h₁, h₂'.trans h₂, h₃'.trans h₃, h₄'.trans h₄⟩
  · by_cases hu' : u < s'.nusers
    · obtain ⟨-, h₂, h₃, h₄⟩ := h'.old u hu'
      rw [h₂, h₃, h₄]
      exact h.new u hu' hle
    · exact h'.new u hu (by omega)
  · obtain hpos | heq := h'.maxSlots
    · exact .inl hpos
    · rw [heq]
      exact h.maxSlots

end Reads

theorem findUserByUid_some {q : Queue} {uid u : ℕ} (h : q.findUserByUid uid = some u) :
    u < q.nusers ∧ (q.users u).uid = uid := by
  have hmem := List.mem_of_find?_eq_some h
  have huid := List.find?_some h
  exact ⟨List.mem_range.1 hmem, by simpa using huid⟩

theorem findUserByUid_none {q : Queue} {uid : ℕ} (h : q.findUserByUid uid = none) :
    ∀ u < q.nusers, (q.users u).uid ≠ uid := by
  intro u hu
  have := List.find?_eq_none.1 h u (List.mem_range.2 hu)
  simpa using this

theorem addUser_reads {x : User} (hx : x.busy = 0 ∧ x.jobs = 0 ∧ x.queue = 0)
    (hnew : ∀ u < s.nusers, (s.users u).uid ≠ x.uid) :
    Reads s (s.onQueue fun q =>
      { q with users := Function.update q.users q.nusers x, nusers := q.nusers + 1 }) := by
  have hold : ∀ i < s.nusers, Function.update s.users s.nusers x i = s.users i :=
    fun i hi => Function.update_of_ne (ne_of_lt hi) ..
  have hself : Function.update s.users s.nusers x s.nusers = x := Function.update_self ..
  refine ⟨rfl, Nat.le_succ _, fun i hi => ?_, fun i hi hle => ?_, fun hinj i hi j hj h => ?_,
    .inr rfl⟩
  · show SameCounters (Function.update s.users s.nusers x i) _
    rw [hold i hi]
    exact ⟨rfl, rfl, rfl, rfl⟩
  · obtain rfl : i = s.nusers := Nat.le_antisymm (Nat.lt_succ_iff.1 hi) hle
    show (Function.update s.users s.nusers x s.nusers).busy = 0 ∧
      (Function.update s.users s.nusers x s.nusers).jobs = 0 ∧
      (Function.update s.users s.nusers x s.nusers).queue = 0
    rw [hself]
    exact hx
  · change (Function.update s.users s.nusers x i).uid = (Function.update s.users s.nusers x j).uid at h
    obtain hi | rfl := Nat.lt_or_eq_of_le (Nat.lt_succ_iff.1 hi) <;>
      obtain hj | rfl := Nat.lt_or_eq_of_le (Nat.lt_succ_iff.1 hj)
    · rw [hold i hi, hold j hj] at h
      exact hinj i hi j hj h
    · rw [hold i hi, hself] at h
      exact absurd h (hnew i hi)
    · rw [hold j hj, hself] at h
      exact absurd h.symm (hnew j hj)
    · rfl

theorem readUserLine_reads (l : UserLine) : Reads s (s.readUserLine l) := by
  cases l with
  | slots n =>
    rw [readUserLine]
    split_ifs with hn
    · rw [sSetMaxSlots]
      simp only [hn, if_true, lt_irrefl, if_false]
      exact ⟨rfl, le_refl _, fun _ _ => ⟨rfl, rfl, rfl, rfl⟩,
        fun _ h h' => absurd h (Nat.not_lt.2 h'), id, .inl hn⟩
    · exact .refl
  | user name uid maxSlots =>
    rw [readUserLine]
    cases hu : s.findUserByUid uid with
    | some u =>
      have hupd := update_keeps (P := SameCounters) s.users (u := u)
        (f := fun u => { u with maxSlots := maxSlots }) (fun _ => ⟨rfl, rfl, rfl, rfl⟩)
        fun _ => ⟨rfl, rfl, rfl, rfl⟩
      exact ⟨rfl, le_refl _, fun i _ => hupd i, fun _ h h' => absurd h (Nat.not_lt.2 h'),
        fun hinj i hi j hj h => hinj i hi j hj ((hupd i).1.symm.trans (h.trans (hupd j).1)), .inr rfl⟩
    | none =>
      dsimp only
      split_ifs
      · exact .refl
      · exact addUser_reads ⟨rfl, rfl, rfl⟩ (findUserByUid_none hu)

/-- The number of slots after reading the lines of a user file. -/
def slotsAfter (l : List UserLine) (n : ℤ) : ℤ :=
  l.foldl (fun n l =>
    match l with
    | .slots k => if 0 < k then k else n
    | .user _ _ _ => n) n

theorem maxSlots_readUserFile : (s.readUserFile e).maxSlots = slotsAfter e.userFile s.maxSlots := by
  rw [readUserFile, slotsAfter]
  generalize e.userFile = l
  induction l generalizing s with
  | nil => rfl
  | cons x l ih =>
    rw [List.foldl_cons, List.foldl_cons, ih]
    congr 1
    cases x with
    | slots n =>
      rw [readUserLine]
      split_ifs with hn
      · simp [sSetMaxSlots, hn, onQueue]
      · simp [hn]
    | user name uid maxSlots =>
      rw [readUserLine]
      split
      · rfl
      · split_ifs <;> rfl

theorem readUserFile_reads : Reads s (s.readUserFile e) :=
  Except.foldl_induction (R := Reads) (fun _ => .refl) (fun h h' => h.trans h') s
    fun _ => readUserLine_reads _

/-- The limits of the users may change, and users may be added. -/
structure Limits (s s' : Spool) : Prop where
  nusers : s.nusers ≤ s'.nusers
  users : ∀ u < s.nusers, ∃ n, s'.users u = { s.users u with maxSlots := n }

theorem Limits.refl : Limits s s := ⟨le_refl _, fun u _ => ⟨(s.users u).maxSlots, rfl⟩⟩

theorem Limits.trans {s'' : Spool} (h : Limits s s') (h' : Limits s' s'') : Limits s s'' := by
  refine ⟨h.nusers.trans h'.nusers, fun u hu => ?_⟩
  obtain ⟨n, hn⟩ := h.users u hu
  obtain ⟨n', hn'⟩ := h'.users u (hu.trans_le h.nusers)
  exact ⟨n', by rw [hn', hn]⟩

theorem readUserLine_limits (l : UserLine) : Limits s (s.readUserLine l) := by
  cases l with
  | slots n =>
    rw [readUserLine, sSetMaxSlots]
    split_ifs
    all_goals exact ⟨le_refl _, fun u _ => ⟨(s.users u).maxSlots, rfl⟩⟩
  | user name uid maxSlots =>
    rw [readUserLine]
    cases hu : s.findUserByUid uid with
    | some u =>
      refine ⟨le_refl _, fun i _ => ?_⟩
      by_cases hi : i = u
      · subst hi
        exact ⟨maxSlots, Function.update_self ..⟩
      · exact ⟨(s.users i).maxSlots, Function.update_of_ne hi ..⟩
    | none =>
      dsimp only
      split_ifs
      · exact .refl
      · exact ⟨Nat.le_succ _, fun i hi =>
          ⟨(s.users i).maxSlots, Function.update_of_ne (ne_of_lt hi) ..⟩⟩

theorem readUserFile_limits : Limits s (s.readUserFile e) :=
  Except.foldl_induction (R := Limits) (fun _ => .refl) (fun h h' => h.trans h') s
    fun _ => readUserLine_limits _

end Spool

end TaskSpooler
