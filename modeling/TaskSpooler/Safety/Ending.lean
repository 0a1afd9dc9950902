import TaskSpooler.Safety.Remove

/-!
# The ends of jobs

What is known while jobs come to their end (`Spool.Clears`): each of those that is not to be kept is
waited for, and so `check_notify_list` destroys it.  The end of a job keeps this (`Clears.ending`),
and so do the recount, which ends the jobs whose process has died (`settles_sUpdateSlotsUsage`), and
every request but `CLEAR_FINISHED` (`rolled_answer`).
-/

namespace TaskSpooler

open Waiting

namespace Spool

variable {e : Env} {E X : ℤ → Prop} {s s' s₁ s₂ : Spool} {r : Result} {k : ℤ}

/-- While the jobs with ids in `E` may end and the sockets in `X` may be closed: each of these jobs
that is not to be kept has an id of its own and somebody who waits for it, and nobody waits for two
jobs. -/
structure Clears (E X : ℤ → Prop) (s : Spool) : Prop where
  ids : s.view.Ids
  kept : ∀ y ∈ s.shelf, y.2 = true
  waited : ∀ p ∈ s.activeJobs, E p.jobid → p.shouldKeepFinished = false →
    p.jobid ∉ s.shelf.map Prod.fst ∧ (∃ n ∈ s.notifies, n.2 = p.jobid ∧ ¬X n.1) ∧
      ∀ k, E k → FirstFor k s.notifies

/-- The jobs whose process has died are among those that may end. -/
def Dead (e : Env) (E : ℤ → Prop) (s : Spool) : Prop :=
  ∀ p ∈ s.activeJobs, 0 < p.pid → e.alive p.pid = false → E p.jobid

/-- A job comes from an active one with the same id, pid and mark. -/
def Inherits (s s' : Spool) : Prop :=
  ∀ p' ∈ s'.activeJobs, ∃ p ∈ s.activeJobs, p.tag = p'.tag ∧ p.pid = p'.pid

/-- A job is one that was active before, up to what notifications write to it. -/
def Shrinks (s s' : Spool) : Prop :=
  ∀ p' ∈ s'.activeJobs, ∃ p ∈ s.activeJobs, p.plain = p'.plain

theorem Shrinks.refl : s.Shrinks s := fun p hp => ⟨p, hp, rfl⟩

theorem Shrinks.trans {s'' : Spool} (h : s.Shrinks s') (h' : s'.Shrinks s'') : s.Shrinks s'' :=
  fun p hp => by
    obtain ⟨p', hp', hplain'⟩ := h' p hp
    obtain ⟨p'', hp'', hplain⟩ := h p' hp'
    exact ⟨p'', hp'', hplain.trans hplain'⟩

theorem Shrinks.inherits (h : s.Shrinks s') : s.Inherits s' := fun p' hp' => by
  obtain ⟨p, hp, hplain⟩ := h p' hp'
  have hpid : p.plain.pid = p'.plain.pid := congrArg Job.pid hplain
  exact ⟨p, hp, Job.tag_of_plain hplain, hpid⟩

theorem Clears.mono {E' X' : ℤ → Prop} (h : s.Clears E X) (hE : ∀ k, E' k → E k)
    (hX : ∀ k, X' k → X k) : s.Clears E' X' := by
  refine ⟨h.ids, h.kept, fun p hp hEp hdrop => ?_⟩
  obtain ⟨hfree, ⟨n, hn, hk, hx⟩, hfirst⟩ := h.waited p hp (hE _ hEp) hdrop
  exact ⟨hfree, ⟨n, hn, hk, fun hx' => hx (hX _ hx')⟩, fun k hk => hfirst k (hE k hk)⟩

/-- What has no new jobs, the same shelf and the same waiting clients, up to closed ones. -/
theorem Clears.of_inherits (h : s.Clears E X) (hids : s'.view.Ids) (hshelf : s'.shelf = s.shelf)
    (hsub : s'.notifies.Sublist s.notifies) (hstay : ∀ n ∈ s.notifies, ¬X n.1 → n ∈ s'.notifies)
    (hin : s.Inherits s') : s'.Clears E X := by
  refine ⟨hids, hshelf ▸ h.kept, fun p' hp' hE hdrop => ?_⟩
  obtain ⟨p, hp, htag, -⟩ := hin p' hp'
  have hid : p.jobid = p'.jobid := congrArg Prod.fst htag
  have hkeep : p.shouldKeepFinished = p'.shouldKeepFinished := congrArg Prod.snd htag
  obtain ⟨hfree, ⟨n, hn, hk, hx⟩, hfirst⟩ := h.waited p hp (hid ▸ hE) (hkeep.trans hdrop)
  rw [← hid, hshelf]
  exact ⟨hfree, ⟨n, hstay n hn hx, hk, hx⟩, fun k hk => (hfirst k hk).sublist hsub⟩

theorem Dead.of_inherits (h : s.Dead e E) (hin : s.Inherits s') : s'.Dead e E := by
  intro p' hp' hpid hdead
  obtain ⟨p, hp, htag, heq⟩ := hin p' hp'
  have hid : p.jobid = p'.jobid := congrArg Prod.fst htag
  rw [← heq] at hpid hdead
  exact hid ▸ h p hp hpid hdead

/-- **A job that may end** leaves nothing behind that is not to be kept. -/
theorem Clears.ending (h : s.Clears E X) (hE : E k) (h₁ : s.jobFinished e r k = .ok s₁)
    (h₂ : s₁.checkNotifyList k = .ok s₂) :
    s₂.Clears E X ∧ s.Shrinks s₂ ∧ RollsOn e.maxFinished s.shelf s₂.shelf := by
  have hserves : ∀ p, s.findjob k = some p → p.shouldKeepFinished = false →
      k ∉ s.shelf.map Prod.fst ∧ s.ServesAll k := by
    intro p hp hdrop
    obtain rfl := findjob_jobid hp
    obtain ⟨hfree, ⟨n, hn, hk, -⟩, hfirst⟩ := h.waited p (Keyed.mem_of_lookup hp) hE hdrop
    exact ⟨hfree, ⟨n, hn, hk⟩, hfirst _ hE⟩
  obtain ⟨hactive, htold, new, hshelf, hnew⟩ := ending_spec h.ids h.kept hserves h₁ h₂
  have hops : Ops e (fun _ _ => True) s s₂ :=
    Ops.trans (.single (.finish r k) trivial trivial h₁) (.single (.notify k) trivial trivial h₂)
  have hids : s₂.view.Ids := hops.ids h.ids
  have hin : s.Shrinks s₂ := fun q' hq' => by
    obtain ⟨q, hq, hplain, -⟩ := hactive q' hq'
    exact ⟨q, hq, hplain⟩
  have hrolls : RollsOn e.maxFinished s.shelf s₂.shelf := hshelf ▸ rollsOn_kept new
  refine ⟨⟨hids, fun y hy => ?_, fun q' hq' hEq hdrop => ?_⟩, hin, hrolls⟩
  · rw [hshelf, List.mem_append] at hy
    obtain hy | hy := hy
    · exact h.kept y (((Queue.kept_sublist _ _).map Job.tag).subset hy)
    · rw [hnew y hy]
  · obtain ⟨q, hq, hplain, hne⟩ := hactive q' hq'
    have hid : q.jobid = q'.jobid := Job.jobid_of_plain hplain
    have hkeep : q.shouldKeepFinished = q'.shouldKeepFinished :=
      congrArg Prod.snd (Job.tag_of_plain hplain)
    obtain ⟨hfree, ⟨n, hn, hk, hx⟩, hfirst⟩ := h.waited q hq (hid ▸ hEq) (hkeep.trans hdrop)
    rw [← hid]
    refine ⟨?_, ⟨n, ?_, hk, hx⟩, fun k' hk' => (hfirst k' hk').sublist ?_⟩
    · rw [hshelf, List.map_append, List.mem_append]
      rintro (hmem | hmem)
      · exact hfree (((Queue.kept_sublist _ _).map Job.tag).map Prod.fst |>.subset hmem)
      · obtain ⟨y, hy, hyq⟩ := List.mem_map.1 hmem
        rw [hnew y hy] at hyq
        exact hne hyq.symm
    · obtain heq | heq := htold
      · rwa [heq]
      · rw [heq]
        exact (mem_served (hfirst k hE)).2 ⟨hn, fun heq => hne (hk.symm.trans heq)⟩
    · obtain heq | heq := htold
      · rw [heq]
      · rw [heq]
        exact removeFirsts_sublist

end Spool

/-! ### Operations between the ends of jobs -/

namespace Op

variable {e : Env} {E X : ℤ → Prop} {s s' : Spool} {o : Op}

/-- The operation has no part in the end of a job, submits none and records no pid. -/
def Still (X : ℤ → Prop) : Op → Prop
  | finish .. | notify _ | removeActive _ | removeFinished _ | clear _ | fill .. | runjobOk ..
  | wait .. | reconnect .. => False
  | unnotify socket => X socket
  | _ => True

theorem Makes.still {a : Act} (h : o.Makes a) (ho : o.Still X) :
    (∀ p ds n m q, a ≠ .submit p ds n m q) ∧ (∀ old p ds m q, a ≠ .reuse old p ds m q) ∧
      ∀ p n, a ≠ .pid p n := by
  refine ⟨?_, ?_, ?_⟩
  all_goals
    intros
    rintro rfl
    cases o <;> first | exact h | exact ho

theorem still_inherits (hids : s.view.Ids) (hpre : o.Pre e s) (h : o.run e s = .ok s')
    (ho : o.Still X) : s.Inherits s' := by
  have hjobs := (moves hids hpre h).invariant (I := fun v => v.Ids ∧ ∀ p' ∈ v.activeJobs,
    ∃ p ∈ s.view.activeJobs, p.tag = p'.tag ∧ p.pid = p'.pid)
    ⟨hids, fun p' hp' => ⟨p', hp', rfl, rfl⟩⟩ fun {v a} hI ha hg => ⟨Act.ids_apply hI.1 hg, ?_⟩
  · intro p' hp'
    obtain ⟨x, hx, htag, hpid⟩ := hjobs.2 p'.strip (List.mem_map_of_mem hp')
    obtain ⟨p, hp, rfl⟩ := List.mem_map.1 hx
    exact ⟨p, hp, htag, hpid⟩
  · obtain ⟨hsubmit, hreuse, hpid⟩ := ha.still ho
    have hplain : PlainFn fun p' => ∃ p ∈ s.view.activeJobs, p.tag = p'.tag ∧ p.pid = p'.pid :=
      fun _ => rfl
    refine Act.forall_apply hplain hI.1 hg hI.2 fun p' hnew => ?_
    cases hold : a.old v with
    | none =>
      obtain ⟨ds, n, m, q, rfl⟩ := Act.new_of_old_none hold hnew
      exact absurd rfl (hsubmit p' ds n m q)
    | some p =>
      obtain ⟨p₀, hp₀, htag, heq⟩ := Act.of_old hplain hg hI.2 hold
      have hfix : p'.fixed.tag = p.fixed.tag := congrArg Job.tag (Act.fixed_new hold hnew hreuse)
      exact ⟨p₀, hp₀, htag.trans hfix.symm, heq.trans (Act.pid_new hg hold hnew hpid).symm⟩

theorem still_notifies (h : o.run e s = .ok s') (ho : o.Still X) :
    s'.notifies.Sublist s.notifies ∧ ∀ n ∈ s.notifies, ¬X n.1 → n ∈ s'.notifies := by
  have hsame : s'.notifies = s.notifies → s'.notifies.Sublist s.notifies ∧
      ∀ n ∈ s.notifies, ¬X n.1 → n ∈ s'.notifies := fun heq => by
    rw [heq]
    exact ⟨.refl _, fun n hn _ => hn⟩
  by_cases hstirs : o.Stirs
  · cases o with
    | settings l t env dir b =>
      cases h
      exact hsame rfl
    | unnotify socket =>
      cases h
      refine ⟨List.eraseP_sublist, fun n hn hx => ?_⟩
      have hne : n.1 ≠ socket := by
        rintro rfl
        exact hx ho
      exact (List.mem_eraseP_of_neg (by simpa using hne)).2 hn
    | _ => first | exact ho.elim | exact hstirs.elim
  · exact hsame (Spool.notifies_of_aside (aside_run h hstirs))

theorem Still.not_shelves (ho : o.Still X) : ¬o.Shelves := by
  cases o <;> first | exact fun h => h | exact ho.elim

end Op

namespace Spool

variable {e : Env} {E X : ℤ → Prop} {s s' s'' s₁ s₂ : Spool} {r : Result} {k socket : ℤ}

/-- What is known of the jobs that may end is still known, and the shelf has rolled on. -/
def Settles (e : Env) (E X : ℤ → Prop) (s s' : Spool) : Prop :=
  s.Clears E X → s.Dead e E →
    s'.Clears E X ∧ s'.Dead e E ∧ RollsOn e.maxFinished s.shelf s'.shelf

theorem Settles.refl : Settles e E X s s := fun h hd => ⟨h, hd, .refl⟩

theorem Settles.of_eq (h : s' = s) : Settles e E X s s' := h ▸ .refl

theorem Settles.trans (h : Settles e E X s s') (h' : Settles e E X s' s'') :
    Settles e E X s s'' := fun hc hd => by
  obtain ⟨hc', hd', hr⟩ := h hc hd
  obtain ⟨hc'', hd'', hr'⟩ := h' hc' hd'
  exact ⟨hc'', hd'', hr.trans hr'⟩

theorem clears_still {o : Op} (hpre : o.Pre e s) (h : o.run e s = .ok s') (ho : o.Still X)
    (hc : s.Clears E X) : s'.Clears E X ∧ s.Inherits s' ∧ s'.shelf = s.shelf := by
  obtain ⟨hsub, hstay⟩ := Op.still_notifies h ho
  have hin := Op.still_inherits hc.ids hpre h ho
  have hshelf := Op.shelf_run hc.ids hpre h ho.not_shelves
  exact ⟨hc.of_inherits ((Op.moves hc.ids hpre h).ids hc.ids) hshelf hsub hstay hin, hin, hshelf⟩

theorem settles_of_ops {ok : Op → Spool → Prop} (h : Ops e ok s s')
    (hok : ∀ o s, ok o s → o.Still X) : Settles e E X s s' := fun hc hd =>
  h.invariant (I := fun s₁ => s₁.Clears E X ∧ s₁.Dead e E ∧ RollsOn e.maxFinished s.shelf s₁.shelf)
    ⟨hc, hd, .refl⟩ fun hI ho hpre hr => by
      obtain ⟨hc', hin, hshelf⟩ := clears_still hpre hr (hok _ _ ho) hI.1
      exact ⟨hc', hI.2.1.of_inherits hin, hI.2.2.trans (.of_eq hshelf)⟩

/-! ### The recount -/

theorem settles_sweepJob (h : s.sweepJob e k = .ok s') : Settles e E X s s' := by
  rw [sweepJob] at h
  cases hp : s.findjob k with
  | none =>
    simp only [hp, Except.ok.injEq] at h
    exact .of_eq h.symm
  | some p =>
    simp only [hp] at h
    split_ifs at h with hdead
    · rw [Except.bind_eq_ok] at h
      obtain ⟨s₁, h₁, h⟩ := h
      intro hc hd
      obtain rfl := findjob_jobid hp
      simp only [isDead, decide_eq_true_eq] at hdead
      have hE : E p.jobid := hd p (Keyed.mem_of_lookup hp) hdead.2.1 hdead.2.2
      obtain ⟨hc', hin, hrolls⟩ := hc.ending hE h₁ h
      exact ⟨hc', hd.of_inherits hin.inherits, hrolls⟩
    · cases h
      exact .refl

theorem settles_sweepDead (h : s.sweepDead e = .ok s') : Settles e E X s s' :=
  Except.foldlM_induction (R := fun s s' : Spool => Settles e E X s s') (fun _ => .refl)
    (fun h h' => h.trans h') (fun _ h => settles_sweepJob h) h

/-- **A recount** settles the jobs whose process has died. -/
theorem settles_sUpdateSlotsUsage (h : s.sUpdateSlotsUsage e = .ok s') : Settles e E X s s' := by
  intro hc hd
  rw [sUpdateSlotsUsage] at h
  have hops : Ops e (fun o _ => o.Still X) s (s.sCheckTimeout e).1 :=
    sCheckTimeout_ops hc.ids (fun _ _ _ => trivial) fun _ => trivial
  have htime : Settles e E X s (s.sCheckTimeout e).1 := settles_of_ops hops fun _ _ ho => ho
  revert h htime
  generalize s.sCheckTimeout e = t
  obtain ⟨s₀, timeout⟩ := t
  intro h htime
  simp only [Except.bind_eq_ok] at h
  obtain ⟨s₁, h₁, s₂, h₂, h⟩ := h
  have hops : Ops e (fun o _ => o.Still X) s₁ s₂ := .single .recount trivial trivial h₂
  have hcount : Settles e E X s s₂ := (htime.trans (settles_sweepDead h₁)).trans
    (settles_of_ops hops fun _ _ ho => ho)
  split_ifs at h
  · have hids := (hcount hc hd).1.ids
    refine (hcount.trans (settles_of_ops (nextRunJob_ops hids h) fun o _ ho => ?_)) hc hd
    cases o <;> trivial
  · cases h
    exact hcount hc hd

/-! ### Requests -/

/-- A request for which the server may count its slots again. -/
def counting : Request → Bool
  | .refreshUsers | .lockServer | .contJob _ | .suspendUser _ | .list _ _ | .listAll _ _ => true
  | _ => false

/-- The request makes the server count its slots again, which ends the jobs whose process has
died. -/
def recounts (s : Spool) (user : ℕ) : Request → Bool
  | .refreshUsers => user = 0
  | .lockServer => (s.users user).uid = 0
  | r => counting r

/-- All jobs on the shelf are to be kept, and the shelf has rolled on. -/
def Rolled (e : Env) (s s' : Spool) : Prop :=
  (∀ y ∈ s'.shelf, y.2 = true) ∧ RollsOn e.maxFinished s.shelf s'.shelf

theorem Rolled.of_eq (hkept : ∀ y ∈ s.shelf, y.2 = true) (h : s'.shelf = s.shelf) : Rolled e s s' :=
  ⟨h ▸ hkept, .of_eq h⟩

theorem Rolled.trans_eq (h : Rolled e s s') (heq : s''.shelf = s'.shelf) : Rolled e s s'' :=
  ⟨heq ▸ h.1, h.2.trans (.of_eq heq)⟩

theorem Settles.rolled (h : Settles e E X s s') (hc : s.Clears E X) (hd : s.Dead e E) :
    Rolled e s s' :=
  ⟨(h hc hd).1.kept, (h hc hd).2.2⟩

/-- A recount, and then operations that leave the shelf alone. -/
theorem rolled_of_recount (hc : s.Clears E X) (hd : s.Dead e E)
    (h : ∃ s₁, s.sUpdateSlotsUsage e = .ok s₁ ∧ Ops e (fun o _ => ¬o.Shelves) s₁ s') :
    Rolled e s s' := by
  obtain ⟨s₁, h₁, hrest⟩ := h
  have hsettles := settles_sUpdateSlotsUsage (E := E) (X := X) h₁
  exact (hsettles.rolled hc hd).trans_eq (hrest.shelf (hsettles hc hd).1.ids fun _ _ ho => ho)

theorem settles_sSuspendUser {u : ℕ} (h : s.sSuspendUser e socket u = .ok s') :
    Settles e E X s s' := by
  intro hc hd
  obtain ⟨s₁, hpause, h⟩ : ∃ s₁, Ops e (fun o _ => o.Still X) s s₁ ∧ s₁.sUpdateSlotsUsage e = .ok s' :=
    sSuspendUser_cases hc.ids (fun _ _ => trivial) (fun _ _ _ _ => trivial)
      (fun _ _ _ _ _ => trivial) h
  exact ((settles_of_ops hpause fun _ _ ho => ho).trans (settles_sUpdateSlotsUsage h)) hc hd

theorem rolled_suspendUser {user : ℕ} {uid : ℤ} (hc : s.Clears E X) (hd : s.Dead e E)
    (h : s.suspendUser e socket user uid = .ok s') : Rolled e s s' := by
  rw [suspendUser] at h
  cases ht : s.target user uid with
  | all =>
    simp only [ht, Except.bind_eq_ok] at h
    obtain ⟨s₁, h₁, h⟩ := h
    cases h
    have hall : Settles e E X s s₁ := Except.foldlM_induction
      (R := fun s s' : Spool => Settles e E X s s') (fun _ => .refl) (fun h h' => h.trans h')
      (fun _ h => settles_sSuspendUser h) h₁
    have hops : Ops e (fun o _ => ¬o.Shelves) s₁ (s₁.sUserStatusAll e socket) :=
      sUserStatusAll_ops fun _ _ h => h
    exact (hall.rolled hc hd).trans_eq (hops.shelf (hall hc hd).1.ids fun _ _ ho => ho)
  | one u =>
    simp only [ht, Except.bind_eq_ok] at h
    obtain ⟨s₁, h₁, h⟩ := h
    cases h
    exact ((settles_sSuspendUser h₁).rolled hc hd).trans_eq rfl
  | missing => simp [ht] at h

theorem rolled_sRefreshUsers (hc : s.Clears E X) (hd : s.Dead e E)
    (h : s.sRefreshUsers e socket = .ok s') : Rolled e s s' := by
  obtain hops | ⟨s₁, hnew, h⟩ : Ops e (fun o _ => o.Still X) s s' ∨
      ∃ s₁, Ops e (fun o _ => o.Still X) s s₁ ∧ s₁.sUpdateSlotsUsage e = .ok s' :=
    sRefreshUsers_cases hc.ids (fun _ _ => trivial) (fun _ _ _ _ => trivial) h
  · exact (settles_of_ops hops fun _ _ ho => ho).rolled hc hd
  · exact ((settles_of_ops hnew fun _ _ ho => ho).trans (settles_sUpdateSlotsUsage h)).rolled hc hd

theorem not_shelves_of_ofAnswer {user : ℕ} {r : Request} {o : Op}
    (h : o.ofAnswer e socket user r s) (hr : r ≠ .clearFinished)
    (hcount : counting r = false) : ¬o.Shelves := by
  cases o with
  | finish r' k | notify k | removeActive p | removeFinished p | clear u =>
    cases r <;> first | exact absurd rfl hr | exact h.elim | cases hcount
  | _ => exact fun h => h

/-- **A request** lets the shelf roll on, but for `CLEAR_FINISHED`. -/
theorem rolled_answer {user : ℕ} {r : Request} (hc : s.Clears E X)
    (hd : s.recounts user r → s.Dead e E) (hr : r ≠ .clearFinished)
    (h : s.answer e socket user r = .ok s') : Rolled e s s' := by
  have hother : counting r = false → Rolled e s s' := fun hcount =>
    .of_eq hc.kept ((answer_ops hc.ids h).shelf hc.ids fun _ _ ho =>
      not_shelves_of_ofAnswer ho hr hcount)
  cases r with
  | refreshUsers =>
    rw [answer] at h
    split_ifs at h with hu
    · exact rolled_sRefreshUsers hc (hd (by simpa [recounts] using hu)) h
    · cases h
      exact .of_eq hc.kept rfl
  | lockServer =>
    obtain ⟨hroot, hcount⟩ | hops : (s.users user).uid = 0 ∧ (∃ s₁, s.sUpdateSlotsUsage e = .ok s₁ ∧
        Ops e (fun o _ => ¬o.Shelves) s₁ s') ∨ Ops e (fun o _ => ¬o.Shelves) s s' :=
      sLockServer_cases (fun _ _ h => h) (fun _ _ _ h => h) h
    · exact rolled_of_recount hc (hd (by simpa [recounts] using hroot)) hcount
    · exact .of_eq hc.kept (hops.shelf hc.ids fun _ _ ho => ho)
  | contJob jobid =>
    refine rolled_of_recount hc (hd rfl) (sContJob_cases (fun _ _ h => h) (fun _ _ _ _ h => h)
      (fun s₁ _ p hp hq hl => ?_) h)
    obtain rfl := findjob_jobid hp
    exact contStarted_ops_of hp hq hl (fun _ _ h => h) (fun h => h) (fun _ _ h => h) (fun _ _ h => h)
      fun _ h => h
  | suspendUser uid => exact rolled_suspendUser hc (hd rfl) h
  | list format jobid =>
    rw [answer] at h
    exact rolled_of_recount hc (hd rfl) (sList_cases (fun _ _ h => h) h)
  | listAll format jobid =>
    rw [answer] at h
    exact rolled_of_recount hc (hd rfl) (sList_cases (fun _ _ h => h) h)
  | _ => exact hother rfl

/-- **A submission** begins with a recount. -/
theorem rolled_sNewjob {id : ℤ} {m : NewJob} {user : ℕ} (hc : s.Clears E X) (hd : s.Dead e E)
    (h : s.sNewjob e socket m user = .ok (s', id)) : Rolled e s s' := by
  rw [sNewjob, Except.bind_eq_ok] at h
  obtain ⟨s₁, h₁, h⟩ := h
  have hrolled : Rolled e s s₁ := (settles_sUpdateSlotsUsage h₁).rolled hc hd
  have hfill : ∀ {old}, s₁.newjobFill e socket m user old = .ok (s', id) → Rolled e s s' :=
    fun h => hrolled.trans_eq
      (congrArg (List.map Job.tag) (finishedJobs_of_aside (aside_newjobFill h)))
  split at h
  · exact hfill h
  · split_ifs at h
    · exact hfill h
    · cases h
      exact hrolled.trans_eq rfl

end Spool

end TaskSpooler
