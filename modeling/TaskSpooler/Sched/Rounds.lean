import TaskSpooler.Sched.Usage

/-!
# The rounds of `next_run_job`

A round over the users starts a job if there is one that can be started for some user with a
queue (`round_found_iff`), and otherwise changes nothing.  `next_run_job` ends with such a round
(`nextRunLoop_settled`).
-/

namespace TaskSpooler

namespace Spool

variable {e : Env} {s s' : Spool} {found : Bool} {l : List ℕ}

/-- There is a free slot, and a user with a queue has a job that can be started. -/
def Startable (e : Env) (s : Spool) : Prop :=
  0 < s.maxSlots - s.busySlots ∧ ∃ uid < s.nusers, (s.users uid).queue ≠ 0 ∧
    ∃ p ∈ s.activeJobs, s.eligible e uid p

instance : Decidable (s.Startable e) :=
  inferInstanceAs (Decidable (0 < s.maxSlots - s.busySlots ∧ ∃ uid < s.nusers,
    (s.users uid).queue ≠ 0 ∧ ∃ p ∈ s.activeJobs, s.eligible e uid p))

theorem round_true (h : round e l (s, true) = .ok (s', found)) : found = true := by
  induction l generalizing s with
  | nil =>
    cases h
    rfl
  | cons i l ih =>
    rw [round] at h
    split_ifs at h
    · exact ih h
    · cases h
      rfl
    · split at h
      · exact ih h
      · rw [Except.bind_eq_ok] at h
        obtain ⟨s₁, -, h⟩ := h
        exact ih h

/-- A round that starts no job has looked at every user. -/
theorem round_false (h : round e l (s, false) = .ok (s', false)) :
    s' = s ∧ ∀ i ∈ l, 0 < s.maxSlots - s.busySlots →
      (s.users ((s.lastUid + i) % s.nusers)).queue ≠ 0 →
      ∀ p ∈ s.activeJobs, ¬s.eligible e ((s.lastUid + i) % s.nusers) p := by
  induction l with
  | nil =>
    cases h
    exact ⟨rfl, fun i hi => absurd hi List.not_mem_nil⟩
  | cons i l ih =>
    rw [round] at h
    split_ifs at h with hqueue hroom
    · obtain ⟨rfl, hl⟩ := ih h
      refine ⟨rfl, fun j hj hroom hne => ?_⟩
      obtain rfl | hj := List.mem_cons.1 hj
      · exact absurd hqueue hne
      · exact hl j hj hroom hne
    · cases h
      exact ⟨rfl, fun j _ hpos => by omega⟩
    · split at h
      · rename_i hnone
        obtain ⟨rfl, hl⟩ := ih h
        refine ⟨rfl, fun j hj hroom hne => ?_⟩
        obtain rfl | hj := List.mem_cons.1 hj
        · exact List.find?_eq_none.1 hnone
        · exact hl j hj hroom hne
      · rw [Except.bind_eq_ok] at h
        obtain ⟨s₁, -, h⟩ := h
        exact absurd (round_true h) (by simp)

theorem exists_index {n u : ℕ} (last : ℕ) (h : u < n) : ∃ i < n, (last + i) % n = u := by
  have hlast := Nat.mod_lt last (Nat.zero_lt_of_lt h)
  refine ⟨(u + (n - last % n)) % n, Nat.mod_lt _ (Nat.zero_lt_of_lt h), ?_⟩
  rw [Nat.add_mod_mod, ← Nat.mod_add_mod, show last % n + (u + (n - last % n)) = u + n by omega,
    Nat.add_mod_right, Nat.mod_eq_of_lt h]

theorem round_of_not_startable (hn : ∀ i ∈ l, i < s.nusers) (h : ¬s.Startable e) :
    round e l (s, found) = .ok (s, found) := by
  induction l with
  | nil => rfl
  | cons i l ih =>
    have huid : (s.lastUid + i) % s.nusers < s.nusers :=
      Nat.mod_lt _ ((Nat.zero_le _).trans_lt (hn i List.mem_cons_self))
    have ih := ih fun j hj => hn j (List.mem_cons_of_mem _ hj)
    rw [round]
    split_ifs with hqueue hroom
    · exact ih
    · rfl
    · have hnone : s.activeJobs.find? (s.eligible e ((s.lastUid + i) % s.nusers)) = none :=
        List.find?_eq_none.2 fun p hp hel => h ⟨by omega, _, huid, hqueue, p, hp, hel⟩
      rw [hnone]
      exact ih

/-- **A round starts a job if one can be started.** -/
theorem round_found_iff (h : round e (List.range s.nusers) (s, false) = .ok (s', found)) :
    found = true ↔ s.Startable e := by
  constructor
  · rintro rfl
    by_contra hno
    rw [round_of_not_startable (fun i hi => List.mem_range.1 hi) hno] at h
    cases h
  · rintro ⟨hroom, uid, huid, hqueue, p, hp, hel⟩
    by_contra hfound
    rw [Bool.not_eq_true] at hfound
    subst hfound
    obtain ⟨i, hi, hiu⟩ := exists_index s.lastUid huid
    exact (round_false h).2 i (List.mem_range.2 hi) hroom (hiu ▸ hqueue) p hp (hiu ▸ hel)

theorem not_startable_of_nil (h : s.activeJobs = []) : ¬s.Startable e := by
  rintro ⟨-, uid, -, -, p, hp, -⟩
  rw [h] at hp
  exact List.not_mem_nil hp

/-- **When `next_run_job` returns, no job can be started.** -/
theorem nextRunLoop_settled {fuel : ℕ} (h : nextRunLoop e fuel s = .ok s') : ¬s'.Startable e := by
  induction fuel generalizing s with
  | zero => cases h
  | succ fuel ih =>
    rw [nextRunLoop] at h
    split_ifs at h with hnil
    · cases h
      exact not_startable_of_nil hnil
    · rw [Except.bind_eq_ok] at h
      obtain ⟨⟨s₁, found⟩, h₁, h⟩ := h
      dsimp only at h
      split_ifs at h with hfound
      · exact ih h
      · cases h
        obtain rfl : found = false := by simpa using hfound
        obtain ⟨rfl, -⟩ := round_false h₁
        exact fun hst => absurd ((round_found_iff h₁).2 hst) (by simp)

end Spool

end TaskSpooler
