import TaskSpooler.Server.Runs

/-!
# Reading the user file again

`s_refresh_users` reads the user file into the table of users, compares the table with the one it
had, and takes its changes back if the file removes a user or changes a limit.

* `rejected_refresh_keeps`: after a rejection the configuration is the one before, if and only if
  the file leaves the number of slots as it is.
* `rejected_refresh_sets_slots`: a line `TS_SLOTS` of a rejected file stays in force.
-/

namespace TaskSpooler

/-- The number of slots that a line of the user file sets. -/
def UserLine.slots? : UserLine → Option ℤ
  | slots n => if 0 < n then some n else none
  | user _ _ _ => none

namespace Spool

variable {e : Env} {s s' : Spool}

/-- The configuration of the server: `users_vec` and the number of slots. -/
def configuration (s : Spool) : List User × ℤ := ((List.range s.nusers).map s.users, s.maxSlots)

/-- The rejection that `s_refresh_users` reports, if it does. -/
def refreshRejection (e : Env) (s : Spool) : Option String :=
  (List.range s.nusers).findSome? (refreshComplaint s (s.readUserFile e))

/-- The number of slots in the last line of a user file that sets it. -/
def lastSlots (l : List UserLine) : Option ℤ := (l.filterMap UserLine.slots?).getLast?

theorem slotsAfter_append (l l' : List UserLine) (n : ℤ) :
    slotsAfter (l ++ l') n = slotsAfter l' (slotsAfter l n) := List.foldl_append

theorem slotsAfter_eq (l : List UserLine) (n : ℤ) : slotsAfter l n = (lastSlots l).getD n := by
  -- the last line that sets the slots is found from the end of the file
  induction l using List.reverseRecOn with
  | nil => rfl
  | append_singleton l x ih =>
    rw [slotsAfter_append, ih]
    cases x with
    | slots k => by_cases hk : 0 < k <;> simp [slotsAfter, lastSlots, UserLine.slots?, hk]
    | user name uid k => simp [slotsAfter, lastSlots, UserLine.slots?]

/-- The rollback restores the users, and nothing else. -/
theorem sRefreshUsers_rejected {text : String} (socket : ℤ) (h : s.refreshRejection e = some text) :
    ∃ s', s.sRefreshUsers e socket = .ok s' ∧ s'.configuration =
      ((List.range s.nusers).map s.users, (lastSlots e.userFile).getD s.maxSlots) := by
  have hslots := maxSlots_readUserFile (e := e) (s := s)
  rw [slotsAfter_eq] at hslots
  unfold refreshRejection at h
  simp only [sRefreshUsers, h]
  refine ⟨_, rfl, Prod.ext (List.map_congr_left fun u hu => ?_) hslots⟩
  have hu : u < s.nusers := List.mem_range.1 hu
  exact usersBack_eq hu

/-- **A rejected refresh leaves the configuration as it was** if and only if the last line of the
file that sets the number of slots, if there is one, sets the number that the server has. -/
theorem rejected_refresh_keeps {text : String} (socket : ℤ)
    (h : s.refreshRejection e = some text) :
    ∃ s', s.sRefreshUsers e socket = .ok s' ∧ (s'.configuration = s.configuration ↔
      ∀ n, lastSlots e.userFile = some n → n = s.maxSlots) := by
  obtain ⟨s', hs, hconf⟩ := sRefreshUsers_rejected socket h
  refine ⟨s', hs, ?_⟩
  rw [hconf, configuration, Prod.mk.injEq]
  refine ⟨fun heq n hn => ?_, fun hall => ⟨rfl, ?_⟩⟩
  · rw [← heq.2, hn]
    rfl
  · cases hn : lastSlots e.userFile with
    | none => rfl
    | some n => exact hall n hn

end Spool

namespace Server

/-- A user file that raises the limit of a user, after a line that sets the slots. -/
def raisedWorld (n : ℤ) : Env := { world 1 with userFile := [.slots n, .user "user" 1000 3] }

/-- The file is rejected.  It sets the number of slots that there are, and nothing changes. -/
theorem same_slots_kept : (∃ text, started.refreshRejection (raisedWorld 2) = some text) ∧
    ∃ s', started.sRefreshUsers (raisedWorld 2) 7 = .ok s' ∧
      s'.configuration = started.configuration := by
  obtain ⟨text, htext⟩ : ∃ text, started.refreshRejection (raisedWorld 2) = some text :=
    Option.isSome_iff_exists.1 (by decide +kernel)
  obtain ⟨s', hs, hiff⟩ := Spool.rejected_refresh_keeps 7 htext
  refine ⟨⟨text, htext⟩, s', hs, hiff.2 fun n hn => ?_⟩
  cases hn
  rfl

/-- The file is rejected, but the number of slots is the one in the file from now on. -/
theorem rejected_refresh_sets_slots : ¬∀ (e : Env) (s s' : Spool) (socket : ℤ) (text : String),
    s.refreshRejection e = some text → s.sRefreshUsers e socket = .ok s' →
      s'.configuration = s.configuration := by
  intro hall
  obtain ⟨text, htext⟩ : ∃ text, started.refreshRejection (raisedWorld 5) = some text :=
    Option.isSome_iff_exists.1 (by decide +kernel)
  obtain ⟨s', hs, hconf⟩ := Spool.sRefreshUsers_rejected 7 htext
  have heq := congrArg Prod.snd (hconf.symm.trans (hall _ _ _ _ _ htext hs))
  exact absurd heq (by decide)

end Server

end TaskSpooler
