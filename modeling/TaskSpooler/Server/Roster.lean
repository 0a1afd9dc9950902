import TaskSpooler.Server.Causes

/-!
# The users along a run

A step counts the jobs and slots of the users, and changes nothing else about them unless a user is
suspended or resumed (`step_who`).  Users are added by `REFRESH_USERS` only.
-/

namespace TaskSpooler

/-- What the record of a user says apart from the counters. -/
def User.who (u : User) : User := { u with busy := 0, jobs := 0, queue := 0 }

theorem User.maxSlots_of_who {u u' : User} (h : u.who = u'.who) : u.maxSlots = u'.maxSlots := by
  have hmax := congrArg User.maxSlots h
  exact hmax

namespace Act

variable {v : View} {a : Act}

theorem who_apply (hg : a.Guard v) (ha : ∀ us n, a ≠ users us n) (u : ℕ) :
    ((a.apply v).users u).who = (v.users u).who := by
  by_cases hl : a.Local
  · rw [users_apply hl hg]
    split_ifs <;> rfl
  · cases a with
    | recount =>
      rw [recount_toQueue]
      rfl
    | users us n => exact absurd rfl (ha us n)
    | _ => exact absurd trivial hl

theorem ofUsage.ne_users {e : Env} {late : Job → Prop} (h : a.ofUsage e late) (us : ℕ → User)
    (n : ℕ) : a ≠ users us n := by
  rintro rfl
  obtain h | h | h := h
  · exact h
  · cases h
  · exact h.1

end Act

theorem Usage.who {e : Env} {late : Job → Prop} {v v' : View} (h : Usage e late v v') (u : ℕ) :
    (v'.users u).who = (v.users u).who :=
  h.moves.invariant (I := fun w => (w.users u).who = (v.users u).who) rfl
    fun hI ha hg => (Act.who_apply hg ha.ne_users u).trans hI

namespace Server

variable {e : Env} {s s' : Server} {i : Input} {u : ℕ}

/-- The step suspends the user. -/
def Suspends (s : Server) (i : Input) (u : ℕ) : Prop :=
  match i with
  | .message index (.request (.suspendUser jobid)) => s.Targets (s.clientCs index).user jobid u
  | _ => False

/-- The step resumes the user. -/
def Resumes (s : Server) (i : Input) (u : ℕ) : Prop :=
  match i with
  | .message index (.request (.resumeUser jobid)) => s.Targets (s.clientCs index).user jobid u
  | _ => False

/-- A move of a step keeps what is known of a user, if it is known after he is suspended or resumed
as well. -/
theorem Does.who {K : View → Prop} {P : User → Prop} {a : Act} {v : View} (h : s.Does K e i a v)
    (hg : a.Guard v) (hu : u < v.nusers) (hP : P (v.users u).who)
    (hsus : s.Suspends i u → ∀ x, P x → P x.suspended)
    (hres : s.Resumes i u → ∀ x, P x → P x.resumed) : P ((a.apply v).users u).who := by
  by_cases ha : ∀ us n, a ≠ .users us n
  · rwa [Act.who_apply hg ha]
  · simp only [ne_eq, not_forall, not_not] at ha
    obtain ⟨us, n, rfl⟩ := ha
    show P (us u).who
    obtain ⟨index, rfl, hsame⟩ | ⟨index, jobid, u', rfl, ht, -, rfl⟩ | ⟨index, jobid, u', rfl, ht, -, rfl⟩ :=
      h.users
    · rwa [hsame u hu]
    · by_cases huu : u = u'
      · subst huu
        rw [Function.update_self]
        exact hsus ht _ hP
      · rwa [Function.update_of_ne huu]
    · by_cases huu : u = u'
      · subst huu
        rw [Function.update_self]
        exact hres ht _ hP
      · rwa [Function.update_of_ne huu]

/-- **What is known of a user is kept by a step**, if it is known after he is suspended or resumed
as well. -/
theorem step_who {P : User → Prop} (hs : s.Sound) (hen : s.Enabled i) (hi : i ≠ .restart)
    (h : s.step e i = .ok s') (hu : u < s.nusers) (hP : P (s.users u).who)
    (hsus : s.Suspends i u → ∀ x, P x → P x.suspended)
    (hres : s.Resumes i u → ∀ x, P x → P x.resumed) : P (s'.users u).who := by
  have hcourse := step_course (K := fun _ => True) hs hen hi (fun _ _ => trivial) h
  refine (hcourse.invariant (I := fun v => u < v.nusers ∧ P (v.users u).who) ⟨hu, hP⟩ ?_ ?_).2
  · intro w a hI ha hg
    exact ⟨hI.1.trans_le (Act.nusers_le_apply hg), ha.who hg hI.1 hI.2 hsus hres⟩
  · intro w w' hI husage
    exact ⟨hI.1.trans_le (Moves.nusers_le husage.moves), by rw [husage.who]; exact hI.2⟩

/-- Who a user is does not change. -/
theorem step_uid (hs : s.Sound) (hen : s.Enabled i) (hi : i ≠ .restart) (h : s.step e i = .ok s')
    (hu : u < s.nusers) : (s'.users u).uid = (s.users u).uid :=
  step_who (P := fun x => x.uid = (s.users u).uid) hs hen hi h hu rfl (fun _ _ hx => hx)
    fun _ _ hx => hx

end Server

end TaskSpooler
