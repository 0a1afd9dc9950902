import TaskSpooler.Sched.Users

/-!
# The moves of the requests about users

The answers of `client_read` that leave the connections alone.  `Act.ofAnswer` lists the moves of
each request, and `answer_course` shows that there are no others.  The recounts on the way are kept
as a whole, since `user->queue` is right only after them: a `Course` is a sequence of moves and
recounts.
-/

namespace TaskSpooler

/-! ### Courses -/

/-- A sequence of moves and recounts. -/
inductive Course (e : Env) (late : Job → Prop) (ok : Act → View → Prop) : View → View → Prop
  | moves {v v' : View} (h : Moves ok v v') : Course e late ok v v'
  | usage {v v' : View} (h : Usage e late v v') : Course e late ok v v'
  | trans {v v' v'' : View} (h : Course e late ok v v') (h' : Course e late ok v' v'') :
      Course e late ok v v''

namespace Course

variable {e : Env} {late late' : Job → Prop} {ok ok' : Act → View → Prop} {v v' : View}

theorem of_eq (h : v' = v) : Course e late ok v v' := .moves (.of_eq h)

theorem single (a : Act) (hg : a.Guard v) (hok : ok a v) (h : v' = a.apply v) :
    Course e late ok v v' :=
  .moves (.single a hg hok h)

theorem mono (h : Course e late ok v v') (himp : ∀ a w, ok a w → ok' a w) :
    Course e late ok' v v' := by
  induction h with
  | moves h => exact .moves (h.mono himp)
  | usage h => exact .usage h
  | trans _ _ ih ih' => exact ih.trans ih'

theorem mono_late (h : Course e late ok v v') (himp : ∀ p, late p → late' p) :
    Course e late' ok v v' := by
  induction h with
  | moves h => exact .moves h
  | usage h => exact .usage (h.mono himp)
  | trans _ _ ih ih' => exact ih.trans ih'

/-- An invariant of moves and of recounts is one of a course. -/
theorem invariant {I : View → Prop} (h : Course e late ok v v') (hinit : I v)
    (hkeep : ∀ {w a}, I w → ok a w → a.Guard w → I (a.apply w))
    (husage : ∀ {w w'}, I w → Usage e late w w' → I w') : I v' := by
  induction h with
  | moves h => exact h.invariant hinit hkeep
  | usage h => exact husage hinit h
  | trans _ _ ih ih' => exact ih' (ih hinit)

/-- A course without the order of its recounts. -/
theorem toMoves (h : Course e late ok v v') :
    Moves (fun a w => ok a w ∨ a.ofUsage e late) v v' := by
  induction h with
  | moves h => exact h.mono fun _ _ ha => .inl ha
  | usage h => exact h.moves.mono fun _ _ ha => .inr ha
  | trans _ _ ih ih' => exact ih.trans ih'

theorem ids (h : Course e late ok v v') (hids : v.Ids) : v'.Ids := h.toMoves.ids hids

end Course

/-! ### The moves -/

namespace Spool

/-- The users that `SUSPEND_USER` and `RESUME_USER` are about. -/
def Targets (s : Spool) (user : ℕ) (jobid : ℤ) (u : ℕ) : Prop :=
  match s.target user jobid with
  | .all => 1 ≤ u ∧ u < s.nusers
  | .one u' => u = u'
  | .missing => False

/-- The jobs that a request may relegate: those that are late when it comes, or, when a user is
suspended, that are late at some moment.  Most requests do not recount. -/
def AnswerLate (e : Env) (s : Spool) : Request → Job → Prop
  | .suspendUser _, p => timedOut e p ∧ ∃ p₀, Late e s p₀
  | .refreshUsers, p | .lockServer, p | .contJob _, p | .list _ _, p | .listAll _ _, p => Late e s p
  | _, _ => False

end Spool

/-- The record of a user after `s_suspend_user`. -/
def User.suspended (u : User) : User := { u with maxSlots := -(u.maxSlots.natAbs : ℤ), locked := true }

/-- The record of a user after `s_resume_user`. -/
def User.resumed (u : User) : User := { u with maxSlots := u.maxSlots.natAbs, locked := false }

/-- The user may act on the job: he owns it, or is root. -/
def View.Owns (v : View) (user : ℕ) (p : Job) : Prop :=
  p.user = some user ∨ (v.users user).uid = 0

/-- The moves of a request of a user, apart from the recounts.  `K` holds whenever a wall time is
made negative after a recount. -/
def Act.ofAnswer (K : View → Prop) (e : Env) (s : Spool) (user : ℕ) (r : Request) (a : Act)
    (v : View) : Prop :=
  match r, a with
  | .refreshUsers, .users us _ => ∀ u < v.nusers, us u = v.users u
  | .refreshUsers, .maxSlots n => user = 0 ∧ n = Spool.slotsAfter e.userFile s.maxSlots
  | .holdJob jobid, .lock p => p.jobid = jobid ∧ v.Owns user p
  | .holdJob jobid, .pause p => p.jobid = jobid ∧ v.Owns user p
  | .holdJob jobid, .wall p w => p.jobid = jobid ∧ w = p.wallTime.natAbs ∧ p.state = .pause ∧
      p.wallTime < 0
  | .contJob jobid, .unlock p => p.jobid = jobid ∧ v.Owns user p
  | .contJob jobid, .wall p w => p.jobid = jobid ∧ p.state ≠ .queued ∧ p.state ≠ .locked ∧
      (w = p.wallTime.natAbs ∨
        K v ∧ p.state ≠ .running ∧ w = -(p.wallTime.natAbs : ℤ) ∧ v.Owns user p)
  | .contJob jobid, .start p => p.jobid = jobid ∧ v.Owns user p ∧
      (v.users user).busy + p.numSlots ≤ (v.users user).maxSlots ∧
      v.busySlots + p.numSlots ≤ v.maxSlots
  | .requeueJob jobid, .relegate p requeue => p.jobid = jobid ∧ requeue = true ∧ v.Owns user p
  | .requeueJob _, .reorder _ => True
  | .suspendUser jobid, .users us n => n = v.nusers ∧ ∃ u, s.Targets user jobid u ∧
      us = Function.update v.users u (v.users u).suspended
  | .suspendUser jobid, .pause p => p.state = .running ∧ ∃ u, p.user = some u ∧ s.Targets user jobid u
  | .resumeUser jobid, .users us n => n = v.nusers ∧ ∃ u, s.Targets user jobid u ∧
      us = Function.update v.users u (v.users u).resumed
  | .resumeUser jobid, .start p => ∃ u, p.user = some u ∧ s.Targets user jobid u
  | .addWtime jobid _, .wall p w => p.jobid = jobid ∧ (0 ≤ w ∨ p.wallTime < 0)
  | .clearFinished, .forget l =>
    l = v.finishedJobs.filter fun p => ¬(p.user = some user ∨ user = 0)
  | .urgent _, .reorder _ => True
  | .swapJobs _ _, .reorder _ => True
  | .setMaxSlots n, .maxSlots n' => user = 0 ∧ n' = n
  | _, _ => False

theorem Act.ofAnswer_congr {K : View → Prop} {e : Env} {s s' : Spool} {user : ℕ} {r : Request}
    {a : Act} {v : View} (h : s.toQueue = s'.toQueue) :
    a.ofAnswer K e s user r v = a.ofAnswer K e s' user r v := by
  unfold Act.ofAnswer Spool.Targets Spool.target
  rw [h]

namespace Spool

variable {e : Env} {s s' : Spool} {jobid socket : ℤ} {user : ℕ} {K : View → Prop}

/-! ### Holding and continuing a job -/

theorem wall_wall {v : View} {p : Job} (w w' : ℤ) :
    (Act.wall p w).apply ((Act.wall p w').apply v) = (Act.wall p w).apply v := by
  simp only [Act.apply, View.onQueue, Queue.modJob]
  rw [Keyed.modify_modify]
  · rfl
  · exact fun _ h => h

theorem view_setWallTime {p : Job} (w : ℤ) :
    (s.setWallTime p.jobid w).view = (Act.wall p w).apply s.view := by
  rw [setWallTime, view_updateDb, view_modJob (g := Job.setWallTime w) fun _ => rfl]
  rfl

theorem view_pause (p : Job) :
    ((s.safePauseJob e p).modJob p.jobid (Job.setState .pause)).view =
      (Act.pause p).apply s.view := by
  rw [view_modJob (g := Job.setState .pause) fun _ => rfl, view_safePauseJob]
  rfl

theorem view_sLockQueue (p : Job) : (s.sLockQueue p).view = (Act.lock p).apply s.view := by
  rw [sLockQueue, view_updateDb, view_modJob (g := Job.setState .locked) fun _ => rfl,
    view_uncountQueued]
  rfl

theorem view_sUnlockQueue (p : Job) : (s.sUnlockQueue p).view = (Act.unlock p).apply s.view := by
  rw [sUnlockQueue, view_updateDb, view_modJob (g := Job.setState .queued) fun _ => rfl,
    view_countQueued]
  rfl

theorem owns_of_ownerOrRoot {p : Job} (h : s.ownerOrRoot user p) : s.view.Owns user p := by
  rw [ownerOrRoot, decide_eq_true_eq] at h
  exact h

theorem sHoldJob_moves :
    Moves (Act.ofAnswer K e s user (.holdJob jobid)) s.view (s.sHoldJob e socket jobid user).view := by
  rw [sHoldJob]
  split_ifs
  · exact .refl
  · cases hp : s.findjob jobid with
    | none => exact .refl
    | some p =>
      dsimp only
      have hhas := view_has_of_findjob hp
      obtain rfl := findjob_jobid hp
      split_ifs with hq howner hl hpause hw hpid
      · exact .single (.lock p) ⟨hhas, hq⟩ ⟨rfl, owns_of_ownerOrRoot howner⟩ (view_sLockQueue p)
      · exact .refl
      · exact .refl
      · exact .single (.wall p _) hhas ⟨rfl, rfl, hpause, hw⟩ (view_setWallTime _)
      · exact .refl
      · exact .single (.pause p) ⟨hhas, hpid.1, hq, hl, hpause⟩
          ⟨rfl, owns_of_ownerOrRoot hpid.2⟩ (view_pause p)
      · exact .refl

theorem contStarted_moves {p : Job} {s₀ : Spool} (hK : K s.view)
    (hp : s.findjob p.jobid = some p) (hq : p.state ≠ .queued) (hl : p.state ≠ .locked) :
    Moves (Act.ofAnswer K e s₀ user (.contJob p.jobid)) s.view
      (s.contStarted e socket p user).view := by
  have hhas := view_has hp
  have hwall : (s.modJob p.jobid (Job.setWallTime p.wallTime.natAbs)).view =
      (Act.wall p p.wallTime.natAbs).apply s.view := view_modJob (g := Job.setWallTime _) fun _ => rfl
  have hpos : Moves (Act.ofAnswer K e s₀ user (.contJob p.jobid)) s.view
      (s.modJob p.jobid (Job.setWallTime p.wallTime.natAbs)).view :=
    .single (.wall p _) hhas ⟨rfl, hq, hl, .inl rfl⟩ hwall
  have hself : (s.modJob p.jobid (Job.setWallTime p.wallTime.natAbs)).findjob p.jobid =
      some (p.setWallTime p.wallTime.natAbs) := by
    refine (Queue.findjob_modJob (f := Job.setWallTime _) (fun _ h => h) _).trans ?_
    rw [if_pos rfl, hp, Option.map_some]
  rw [contStarted]
  split_ifs with hrun hsleep hpid hroom hpause
  · exact hpos
  · exact hpos
  · refine hpos.trans (.single (.start (p.setWallTime p.wallTime.natAbs)) ⟨?_, hpause, hpid.1⟩
      ⟨rfl, ?_, hroom⟩ ?_)
    · exact view_has hself
    · exact owns_of_ownerOrRoot (s := s.modJob p.jobid _) hpid.2
    · exact view_configRunning _ _
  · exact hpos
  · refine .single (.wall p (-(p.wallTime.natAbs : ℤ))) hhas
      ⟨rfl, hq, hl, .inr ⟨hK, hrun, rfl, owns_of_ownerOrRoot (s := s.modJob p.jobid _) hpid.2⟩⟩ ?_
    rw [view_sendLine, view_setWallTime (p := p), hwall, wall_wall]
  · exact hpos

/-- **`s_cont_job`**: a recount, and then the request itself. -/
theorem sContJob_phases (hids : s.view.Ids) (hK : ∀ v, Usage e (Late e s) s.view v → K v)
    (h : s.sContJob e socket jobid user = .ok s') :
    ∃ v, Usage e (Late e s) s.view v ∧
      Moves (Act.ofAnswer K e s user (.contJob jobid)) v s'.view := by
  rw [sContJob, Except.bind_eq_ok] at h
  obtain ⟨s₁, h₁, h⟩ := h
  have husage := sUpdateSlotsUsage_usage hids h₁
  refine ⟨s₁.view, husage, ?_⟩
  split_ifs at h
  · cases h
    exact .refl
  · cases hp : s₁.findjob jobid with
    | none =>
      simp only [hp] at h
      cases h
      exact .refl
    | some p =>
      simp only [hp] at h
      obtain rfl := findjob_jobid hp
      split_ifs at h with hl howner hq
      · cases h
        exact .single (.unlock p) ⟨view_has hp, hl⟩ ⟨rfl, owns_of_ownerOrRoot howner⟩
          (view_sUnlockQueue p)
      · cases h
        exact .refl
      · cases h
        exact .refl
      · cases h
        exact contStarted_moves (hK _ husage) hp hq hl

theorem sContJob_course (hids : s.view.Ids) (hK : ∀ v, Usage e (Late e s) s.view v → K v)
    (h : s.sContJob e socket jobid user = .ok s') :
    Course e (Late e s) (Act.ofAnswer K e s user (.contJob jobid)) s.view s'.view := by
  obtain ⟨v, husage, hmoves⟩ := sContJob_phases hids hK h
  exact (Course.usage husage).trans (.moves hmoves)

/-- `s_requeue_job` does nothing, or it relegates a started job and puts it at the end. -/
theorem sRequeueJob_cases (e : Env) (s : Spool) (socket jobid : ℤ) (user : ℕ) (hids : s.view.Ids) :
    (s.sRequeueJob e socket jobid user).view = s.view ∨
    ∃ p, s.findjob jobid = some p ∧ s.ownerOrRoot user p ∧ (p.state = .running ∨ p.state = .pause) ∧
      Moves (fun a v => a = .relegate p true ∧ v.Owns user p ∨ ∃ l, a = .reorder l) s.view
        (s.sRequeueJob e socket jobid user).view := by
  rw [sRequeueJob]
  cases hp : s.findjob jobid with
  | none => exact .inl rfl
  | some p =>
    dsimp only
    obtain rfl := findjob_jobid hp
    split_ifs with howner hstate
    · exact .inl rfl
    · exact .inl rfl
    · have hstate' : p.state = .running ∨ p.state = .pause := by tauto
      have howner : s.ownerOrRoot user p = true := by simpa using howner
      refine .inr ⟨p, rfl, howner, hstate', ?_⟩
      have hrel : Moves (fun a v => a = .relegate p true ∧ v.Owns user p ∨ ∃ l, a = .reorder l)
          s.view (s.sRelegateJob e p).view :=
        .single (.relegate p true) ⟨view_has hp, hstate', by simp⟩
          (.inl ⟨rfl, owns_of_ownerOrRoot howner⟩) (view_sRelegateJob p)
      refine hrel.trans (.single (.reorder _) ?_ (.inr ⟨_, rfl⟩) rfl)
      refine List.Perm.map Job.strip ?_
      have hnd := nodup_of_ids (hrel.ids hids)
      cases hfind : (s.sRelegateJob e p).findjob p.jobid with
      | none =>
        have hself := Keyed.remove_of_notMem (Keyed.lookup_eq_none.1 hfind)
        show (Keyed.remove _ _ _ ++ ((s.sRelegateJob e p).findjob p.jobid).toList).Perm _
        rw [hself, hfind, Option.toList_none, List.append_nil]
      | some p' =>
        have hperm := Keyed.perm_cons_remove hnd (Keyed.mem_of_lookup hfind)
        rw [findjob_jobid hfind] at hperm
        show (Keyed.remove _ _ _ ++ ((s.sRelegateJob e p).findjob p.jobid).toList).Perm _
        rw [hfind]
        exact List.perm_append_comm.trans hperm.symm

theorem sRequeueJob_moves (socket jobid : ℤ) (user : ℕ) (hids : s.view.Ids) :
    Moves (Act.ofAnswer K e s user (.requeueJob jobid)) s.view
      (s.sRequeueJob e socket jobid user).view := by
  obtain hv | ⟨p, hp, -, -, hmoves⟩ := sRequeueJob_cases e s socket jobid user hids
  · exact .of_eq hv
  · refine hmoves.mono fun a v ha => ?_
    obtain ⟨rfl, howns⟩ | ⟨l, rfl⟩ := ha
    · exact ⟨findjob_jobid hp, rfl, howns⟩
    · trivial

/-! ### Wall times and limits -/

theorem sAddWtime_moves (user : ℕ) {w : ℤ} :
    Moves (Act.ofAnswer K e s user (.addWtime jobid w)) s.view (s.sAddWtime socket jobid w).view := by
  rw [sAddWtime]
  split_ifs
  · exact .refl
  · cases hp : s.findjob jobid with
    | none => exact .refl
    | some p =>
      dsimp only
      have hhas := view_has_of_findjob hp
      obtain rfl := findjob_jobid hp
      split_ifs with hover hneg hwall
      · exact .refl
      · exact .refl
      · exact .single (.wall p _) hhas ⟨rfl, .inr hwall⟩
          (view_modJob (g := Job.setWallTime _) fun _ => rfl)
      · exact .single (.wall p (p.wallTime.natAbs + w)) hhas ⟨rfl, .inl (by omega)⟩
          (view_modJob (g := Job.setWallTime _) fun _ => rfl)

theorem view_sSetMaxSlots {n : ℤ} : (s.sSetMaxSlots socket n).view =
    if 0 < n then (Act.maxSlots n).apply s.view else s.view := by
  rw [sSetMaxSlots]
  split_ifs <;> rfl

theorem sSetMaxSlots_moves {n : ℤ} (hu : user = 0) :
    Moves (Act.ofAnswer K e s user (.setMaxSlots n)) s.view (s.sSetMaxSlots socket n).view := by
  rw [view_sSetMaxSlots]
  split_ifs with hn
  · exact .single (.maxSlots n) hn ⟨hu, rfl⟩ rfl
  · exact .refl

/-! ### The order of the queue -/

theorem sMoveUrgent_moves {ok : Act → View → Prop} (hids : s.view.Ids)
    (hok : ∀ l, ok (.reorder l) s.view) : Moves ok s.view (s.sMoveUrgent socket jobid).view := by
  rw [sMoveUrgent]
  cases hp : s.findjob jobid with
  | none => exact .refl
  | some p =>
    obtain rfl := findjob_jobid hp
    refine .single (.reorder _) ?_ (hok _) rfl
    exact ((Keyed.perm_cons_remove (nodup_of_ids hids) (Keyed.mem_of_lookup hp)).map
      Job.strip).symm

theorem getElem_of_findIdx {i : ℕ} {p : Job}
    (hi : (s.activeJobs.findIdx? fun p => p.jobid = jobid) = some i) (hp : s.findjob jobid = some p) :
    ∃ h : i < s.activeJobs.length, s.activeJobs[i] = p := by
  have h : s.activeJobs.find? (fun p => decide (p.jobid = jobid)) = _ :=
    List.find?_eq_bind_findIdx?_getElem?
  rw [hi, Option.bind_some] at h
  have hp' : s.activeJobs[i]? = some p := h.symm.trans hp
  exact List.getElem?_eq_some_iff.1 hp'

theorem sSwapJobs_moves {jobid' : ℤ} {ok : Act → View → Prop} (hok : ∀ l, ok (.reorder l) s.view) :
    Moves ok s.view (s.sSwapJobs socket jobid jobid').view := by
  rw [sSwapJobs]
  split
  · rename_i i₁ i₂ p₁ p₂ h₁ h₂ hp₁ hp₂
    rw [view_send, view_swapDb]
    refine .single (.reorder _) ?_ (hok _) rfl
    refine List.Perm.map Job.strip ?_
    obtain ⟨hi₁, hget₁⟩ := getElem_of_findIdx h₁ hp₁
    obtain ⟨hi₂, hget₂⟩ := getElem_of_findIdx h₂ hp₂
    subst hget₁ hget₂
    exact List.set_set_perm hi₁ hi₂
  · exact .refl

theorem sSortJobs_moves {ok : Act → View → Prop} (hok : ∀ l, ok (.reorder l) s.view) :
    Moves ok s.view s.sSortJobs.view := by
  refine .single (.reorder _) ?_ (hok _) rfl
  have h := (List.filter_append_perm (fun p : Job => decide (p.state = .running))
    s.activeJobs).map Job.strip
  show (List.map Job.strip (_ ++ _)).Perm (List.map Job.strip s.activeJobs)
  simpa using h

/-! ### Users -/

theorem modUser_guard {u : ℕ} {f : User → User} (hids : s.view.Ids)
    (hf : ∀ x, SameCounters (f x) x ∧ (f x).maxSlots.natAbs = x.maxSlots.natAbs) :
    (Act.users (Function.update s.users u (f (s.users u))) s.nusers).Guard s.view := by
  have hupd := update_keeps s.users (u := u) (f := f)
    (P := fun x y => SameCounters x y ∧ x.maxSlots.natAbs = y.maxSlots.natAbs) hf
    fun _ => ⟨⟨rfl, rfl, rfl, rfl⟩, rfl⟩
  refine ⟨le_refl _, fun i hi j hj h => ?_, fun i _ => ?_, fun i hi hle => ?_⟩
  · exact hids.uids i hi j hj ((hupd i).1.1.symm.trans (h.trans (hupd j).1.1))
  · obtain ⟨⟨-, h₂, h₃, h₄⟩, h₅⟩ := hupd i
    exact ⟨h₂, h₃, h₄, h₅⟩
  · rw [view_nusers] at hle
    omega

/-- The limit of a user is written, without changing what it is. -/
theorem modUser_moves (ok : Act → View → Prop) {u : ℕ} {f : User → User} (hids : s.view.Ids)
    (hok : ok (.users (Function.update s.users u (f (s.users u))) s.nusers) s.view)
    (hf : ∀ x, SameCounters (f x) x ∧ (f x).maxSlots.natAbs = x.maxSlots.natAbs) :
    Moves ok s.view (s.modUser (some u) f).view :=
  .single (.users (Function.update s.users u (f (s.users u))) s.nusers) (modUser_guard hids hf)
    hok rfl

theorem suspendJob_moves {ok : Act → View → Prop} {u : ℕ}
    (hok : ∀ p v, p.user = some u → p.state = .running → ok (.pause p) v) :
    Moves ok s.view (s.suspendJob e socket u jobid).view := by
  rw [suspendJob]
  cases hp : s.findjob jobid with
  | none => exact .refl
  | some p =>
    dsimp only
    obtain rfl := findjob_jobid hp
    split_ifs with hown hpid
    · refine .single (.pause p) ⟨view_has hp, hpid, ?_, ?_, ?_⟩ (hok p _ hown.1 hown.2) (view_pause p)
      all_goals simp [hown.2]
    · exact .refl
    · exact .refl

theorem suspendAll_moves (socket : ℤ) {ok : Act → View → Prop} {u : ℕ}
    (hok : ∀ p v, p.user = some u → p.state = .running → ok (.pause p) v) (l : List ℤ) :
    Moves ok s.view (l.foldl (fun s jobid => s.suspendJob e socket u jobid) s).view :=
  Except.foldl_induction (R := fun s s' : Spool => Moves ok s.view s'.view) (fun _ => .refl)
    (fun h h' => h.trans h') s fun _ => suspendJob_moves hok

theorem resumeJobs_moves {ok : Act → View → Prop} {u : ℕ}
    (hok : ∀ p v, p.user = some u → ok (.start p) v) (l : List ℤ) :
    Moves ok s.view (l.foldl (fun s jobid =>
      match s.findjob jobid with
      | none => s
      | some p => if p.user = some u ∧ p.state = .pause ∧ p.pid ≠ 0 then s.configRunning e p
                  else s) s).view := by
  refine Except.foldl_induction (R := fun s s' : Spool => Moves ok s.view s'.view) (fun _ => .refl)
    (fun h h' => h.trans h') s fun {s jobid} _ => ?_
  cases hp : s.findjob jobid with
  | none => exact .refl
  | some p =>
    dsimp only
    obtain rfl := findjob_jobid hp
    split_ifs with hown
    · exact .single (.start p) ⟨view_has hp, hown.2⟩ (hok p _ hown.1) (view_configRunning _ p)
    · exact .refl

theorem sResumeUser_moves {ok : Act → View → Prop} {u : ℕ} (hids : s.view.Ids)
    (husers : ∀ v, ok (.users (Function.update v.users u (v.users u).resumed) v.nusers) v)
    (hok : ∀ p v, p.user = some u → ok (.start p) v) :
    Moves ok s.view (s.sResumeUser e socket u).view := by
  have hlimit := modUser_moves ok hids (husers s.view)
    fun x => ⟨⟨rfl, rfl, rfl, rfl⟩, Int.natAbs_natCast _⟩
  exact hlimit.trans (resumeJobs_moves hok _)

theorem sResumeUserAll_moves {ok : Act → View → Prop} (hids : s.view.Ids)
    (husers : ∀ u v, 1 ≤ u → u < s.nusers →
      ok (.users (Function.update v.users u (v.users u).resumed) v.nusers) v)
    (hok : ∀ p v u, p.user = some u → 1 ≤ u → u < s.nusers → ok (.start p) v) :
    Moves ok s.view (s.sResumeUserAll e socket).view := by
  refine Except.foldl_induction (R := fun s s' : Spool => s.view.Ids → Moves ok s.view s'.view)
    (fun _ _ => .refl) (fun h h' hids => (h hids).trans (h' ((h hids).ids hids))) s
    (fun {s u} hu hids => ?_) hids
  rw [List.mem_range'_1] at hu
  exact sResumeUser_moves hids (fun v => husers u v hu.1 (by omega))
    fun p v hp => hok p v u hp hu.1 (by omega)

@[simp] theorem view_sUserStatusAll : (s.sUserStatusAll e socket).view = s.view := by
  rw [sUserStatusAll, view_send, view_foldl]
  · rfl
  · intro s i
    split_ifs <;> rfl

theorem resumeUser_moves (hids : s.view.Ids) (h : s.resumeUser e socket user jobid = .ok s') :
    Moves (Act.ofAnswer K e s user (.resumeUser jobid)) s.view s'.view := by
  rw [resumeUser] at h
  cases ht : s.target user jobid with
  | all =>
    simp only [ht] at h
    cases h
    rw [view_sUserStatusAll]
    refine sResumeUserAll_moves hids (fun u v h₁ h₂ => ?_) fun p v u hp h₁ h₂ => ?_
    · exact ⟨rfl, u, by simp [Targets, ht, h₁, h₂], rfl⟩
    · exact ⟨u, hp, by simp [Targets, ht, h₁, h₂]⟩
  | one u =>
    simp only [ht] at h
    cases h
    show Moves _ s.view (s.sResumeUser e socket u).view
    refine sResumeUser_moves hids (fun v => ?_) fun p v hp => ?_
    · exact ⟨rfl, u, by simp [Targets, ht], rfl⟩
    · exact ⟨u, hp, by simp [Targets, ht]⟩
  | missing => simp [ht] at h

/-- What may be late while a user is suspended. -/
def LaterOn (e : Env) (s₀ : Spool) (p : Job) : Prop := timedOut e p ∧ ∃ p₀, Late e s₀ p₀

theorem sSuspendUser_course {ok : Act → View → Prop} {u : ℕ} {s₀ : Spool} (hids : s.view.Ids)
    (husers : ∀ v, ok (.users (Function.update v.users u (v.users u).suspended) v.nusers) v)
    (hok : ∀ p v, p.user = some u → p.state = .running → ok (.pause p) v) (hlate : NoLater e s₀ s)
    (h : s.sSuspendUser e socket u = .ok s') :
    Course e (LaterOn e s₀) ok s.view s'.view ∧ NoLater e s₀ s' := by
  rw [sSuspendUser] at h
  have hlimit := modUser_moves ok hids (husers s.view)
    fun x => ⟨⟨rfl, rfl, rfl, rfl⟩, by rw [User.suspended, Int.natAbs_neg, Int.natAbs_natCast]⟩
  set s₁ := s.modUser (some u) fun u => { u with maxSlots := -(u.maxSlots.natAbs : ℤ), locked := true }
  have hpause := suspendAll_moves socket (s := s₁) (e := e) hok
    (s₁.activeJobs.map Job.jobid)
  have hnl : NoLater e s₁
      ((s₁.activeJobs.map Job.jobid).foldl (fun s jobid => s.suspendJob e socket u jobid) s₁) :=
    Except.foldl_induction (R := NoLater e) (fun _ => .refl) (fun h h' => h.trans h') _
      fun _ => noLater_suspendJob
  set s₂ := (s₁.activeJobs.map Job.jobid).foldl (fun s jobid => s.suspendJob e socket u jobid) s₁
  have hmoves := hlimit.trans hpause
  have hlate₂ : NoLater e s₀ s₂ := (hlate.trans (.of_eq rfl)).trans hnl
  have husage := sUpdateSlotsUsage_usage (s := s₂.sendLine socket _) (hmoves.ids hids) h
  refine ⟨(Course.moves hmoves).trans (.usage (husage.mono fun p hp => ⟨hp.2, hlate₂ ⟨p, hp⟩⟩)), ?_⟩
  have hsend : ∀ text, NoLater e s₂ (s₂.sendLine socket text) := fun _ => .of_eq rfl
  exact (hlate₂.trans (hsend _)).trans (noLater_sUpdateSlotsUsage h)

theorem sSuspendUserAll_course {ok : Act → View → Prop} {s₀ : Spool} (hids : s.view.Ids)
    (husers : ∀ u v, 1 ≤ u → u < s.nusers →
      ok (.users (Function.update v.users u (v.users u).suspended) v.nusers) v)
    (hok : ∀ p v u, p.user = some u → 1 ≤ u → u < s.nusers → p.state = .running → ok (.pause p) v)
    (hlate : NoLater e s₀ s) (h : s.sSuspendUserAll e socket = .ok s') :
    Course e (LaterOn e s₀) ok s.view s'.view := by
  refine (Except.foldlM_induction (R := fun s s' : Spool => s.view.Ids → NoLater e s₀ s →
      Course e (LaterOn e s₀) ok s.view s'.view ∧ NoLater e s₀ s') (fun _ _ h => ⟨.of_eq rfl, h⟩)
    (fun h h' hids hnl => ?_) (fun {s s' u} hu h hids hnl => ?_) h hids hlate).1
  · obtain ⟨hc, hnl⟩ := h hids hnl
    obtain ⟨hc', hnl'⟩ := h' (hc.ids hids) hnl
    exact ⟨hc.trans hc', hnl'⟩
  · rw [List.mem_range'_1] at hu
    exact sSuspendUser_course hids (fun v => husers u v hu.1 (by omega))
      (fun p v hp => hok p v u hp hu.1 (by omega)) hnl h

theorem suspendUser_course (hids : s.view.Ids) (h : s.suspendUser e socket user jobid = .ok s') :
    Course e (AnswerLate e s (.suspendUser jobid)) (Act.ofAnswer K e s user (.suspendUser jobid))
      s.view s'.view := by
  rw [suspendUser] at h
  cases ht : s.target user jobid with
  | all =>
    simp only [ht, Except.bind_eq_ok] at h
    obtain ⟨s₁, h₁, h⟩ := h
    cases h
    rw [view_sUserStatusAll]
    refine sSuspendUserAll_course hids (fun u v h₁ h₂ => ?_) (fun p v u hp h₁ h₂ hrun => ?_) .refl h₁
    · exact ⟨rfl, u, by simp [Targets, ht, h₁, h₂], rfl⟩
    · exact ⟨hrun, u, hp, by simp [Targets, ht, h₁, h₂]⟩
  | one u =>
    simp only [ht, Except.bind_eq_ok] at h
    obtain ⟨s₁, h₁, h⟩ := h
    cases h
    refine (sSuspendUser_course hids (fun v => ?_) (fun p v hp hrun => ?_) .refl h₁).1
    · exact ⟨rfl, u, by simp [Targets, ht], rfl⟩
    · exact ⟨hrun, u, hp, by simp [Targets, ht]⟩
  | missing => simp [ht] at h

theorem refreshComplaint_none {new : Spool} {i : ℕ} (hi : i < s.nusers) (hread : Reads s new)
    (hids : s.view.Ids) (h : refreshComplaint s new i = none) :
    (new.users i).maxSlots = (s.users i).maxSlots := by
  rw [refreshComplaint] at h
  cases hu : new.findUserByUid (s.users i).uid with
  | none => simp [hu] at h
  | some u =>
    simp only [hu] at h
    split_ifs at h with hslots
    obtain ⟨hlt, huid⟩ := findUserByUid_some hu
    have hsame : u = i := hread.uids hids.uids u hlt i (hi.trans_le hread.nusers)
      (huid.trans (hread.old i hi).1.symm)
    rw [hsame] at hslots
    exact not_not.1 hslots

/-- The users after a user file that was rejected. -/
def usersBack (e : Env) (s : Spool) (i : ℕ) : User :=
  if i < s.nusers then { (s.readUserFile e).users i with maxSlots := (s.users i).maxSlots }
  else (s.readUserFile e).users i

theorem usersBack_guard (hids : s.view.Ids) : (Act.users (s.usersBack e) s.nusers).Guard s.view := by
  have hread := readUserFile_reads (e := e) (s := s)
  refine ⟨le_refl _, fun i hi j hj huid => ?_, fun i hi => ?_, fun i hi hle => ?_⟩
  · simp only [usersBack, hi, hj, if_true] at huid
    exact hread.uids hids.uids i (hi.trans_le hread.nusers) j (hj.trans_le hread.nusers) huid
  · have hi' : i < s.nusers := hi
    simp only [usersBack, hi', if_true]
    obtain ⟨-, h₂, h₃, h₄⟩ := hread.old i hi
    exact ⟨h₂, h₃, h₄, rfl⟩
  · rw [view_nusers] at hle
    omega

theorem refreshed_guard (hids : s.view.Ids)
    (h : (List.range s.nusers).findSome? (refreshComplaint s (s.readUserFile e)) = none) :
    (Act.users (s.readUserFile e).users (s.readUserFile e).nusers).Guard s.view := by
  have hread := readUserFile_reads (e := e) (s := s)
  have hcomplaint : ∀ i < s.nusers, refreshComplaint s (s.readUserFile e) i = none :=
    fun i hi => List.findSome?_eq_none_iff.1 h i (List.mem_range.2 hi)
  refine ⟨hread.nusers, hread.uids hids.uids, fun i hi => ?_, hread.new⟩
  obtain ⟨-, h₂, h₃, h₄⟩ := hread.old i hi
  refine ⟨h₂, h₃, h₄, ?_⟩
  rw [refreshComplaint_none hi hread hids (hcomplaint i hi)]
  rfl

theorem usersBack_eq {u : ℕ} (hu : u < s.nusers) : s.usersBack e u = s.users u := by
  obtain ⟨n, hn⟩ := (readUserFile_limits (e := e)).users u hu
  rw [usersBack, if_pos hu, hn]

/-- A refresh that is not rejected changes no user. -/
theorem refreshed_eq {u : ℕ} (hids : s.view.Ids)
    (h : (List.range s.nusers).findSome? (refreshComplaint s (s.readUserFile e)) = none)
    (hu : u < s.nusers) : (s.readUserFile e).users u = s.users u := by
  obtain ⟨n, hn⟩ := (readUserFile_limits (e := e)).users u hu
  have hlimit := refreshComplaint_none hu readUserFile_reads hids
    (List.findSome?_eq_none_iff.1 h u (List.mem_range.2 hu))
  rw [hn] at hlimit ⊢
  obtain rfl : n = (s.users u).maxSlots := hlimit
  rfl

theorem sRefreshUsers_course (hids : s.view.Ids) (hu : user = 0)
    (h : s.sRefreshUsers e socket = .ok s') :
    Course e (Late e s) (Act.ofAnswer K e s user .refreshUsers) s.view s'.view := by
  have hread := readUserFile_reads (e := e) (s := s)
  have hmoves : ∀ us n, (Act.users us n).Guard s.view → (∀ u < s.nusers, us u = s.users u) →
      Moves (Act.ofAnswer K e s user .refreshUsers) s.view
        { s.view with users := us, nusers := n, maxSlots := (s.readUserFile e).maxSlots } := by
    intro us n hg hsame
    refine Moves.trans (.single (.users us n) hg hsame rfl) ?_
    obtain hpos | heq := hread.maxSlots
    · exact .single (.maxSlots _) hpos ⟨hu, maxSlots_readUserFile⟩ rfl
    · rw [heq]
      exact .refl
  rw [sRefreshUsers] at h
  split at h
  · cases h
    refine .moves (Moves.trans (hmoves _ _ (usersBack_guard (e := e) hids)
      fun u hu => usersBack_eq hu) (.of_eq ?_))
    rw [view_sendLine]
    have hview := congrArg (fun v : View => { v with
      users := s.usersBack e
      nusers := s.nusers }) hread.view
    exact hview
  · rename_i hnone
    have hnew : Moves (Act.ofAnswer K e s user .refreshUsers) s.view (s.readUserFile e).view := by
      rw [hread.view]
      exact hmoves _ _ (refreshed_guard hids hnone) fun u hu => refreshed_eq hids hnone hu
    have husage := sUpdateSlotsUsage_usage (s := (s.readUserFile e).send socket _) (hnew.ids hids) h
    refine (Course.moves hnew).trans (.usage (husage.mono fun p hp => ?_))
    exact ⟨hread.activeJobs ▸ hp.1, hp.2⟩

/-! ### Requests that look something up -/

theorem sList_usage {format : ListFormat} {o : Option ℕ} (hids : s.view.Ids)
    (h : s.sList e socket o format jobid = .ok s') : Usage e (Late e s) s.view s'.view := by
  rw [sList, Except.bind_eq_ok] at h
  obtain ⟨s₁, h₁, h⟩ := h
  have husage := sUpdateSlotsUsage_usage hids h₁
  suffices hview : s'.view = s₁.view by
    rw [hview]
    exact husage
  cases format with
  | default =>
    cases o with
    | none =>
      cases h
      rw [view_sUserStatusAll, view_send]
    | some u =>
      dsimp only at h
      split_ifs at h
      · cases h
        rw [view_sUserStatusAll, view_send]
      · cases h
        rfl
  | json =>
    cases h
    rfl
  | tab =>
    dsimp only at h
    split_ifs at h
    cases h
    rfl

theorem sLockServer_course {ok : Act → View → Prop} (hids : s.view.Ids)
    (h : s.sLockServer e socket user = .ok s') : Course e (Late e s) ok s.view s'.view := by
  rw [sLockServer] at h
  dsimp only at h
  split_ifs at h
  · rw [Except.bind_eq_ok] at h
    obtain ⟨s₁, h₁, h⟩ := h
    have husage := sUpdateSlotsUsage_usage hids h₁
    cases h
    exact .usage husage
  · split at h
    all_goals
      cases h
      exact .of_eq rfl

@[simp] theorem view_sUnlockServer (u : ℕ) : (s.sUnlockServer socket u).view = s.view := by
  rw [sUnlockServer]
  split
  · rfl
  · split_ifs <;> rfl

@[simp] theorem view_waitFor (p : Job) : (s.waitFor socket p).view = s.view := by
  rw [waitFor]
  split_ifs <;> rfl

theorem view_sWaitJob : (s.sWaitJob socket jobid).view = s.view := by
  rw [sWaitJob]
  split
  · rfl
  · exact view_waitFor _

theorem sWaitRunningJob_view (h : s.sWaitRunningJob socket jobid = .ok s') : s'.view = s.view := by
  rw [sWaitRunningJob] at h
  split_ifs at h
  · cases h
    rfl
  · rw [Except.bind_eq_ok] at h
    obtain ⟨o, -, h⟩ := h
    cases o with
    | none =>
      cases h
      rfl
    | some p =>
      cases h
      exact view_waitFor p

theorem sJobInfo_view (h : s.sJobInfo socket jobid = .ok s') : s'.view = s.view := by
  rw [sJobInfo] at h
  split_ifs at h
  · cases h
    rfl
  · rw [Except.bind_eq_ok] at h
    obtain ⟨o, -, h⟩ := h
    cases o with
    | none =>
      cases h
      rfl
    | some p =>
      dsimp only at h
      split_ifs at h
      cases h
      rfl

theorem sSendOutput_view (h : s.sSendOutput socket jobid = .ok s') : s'.view = s.view := by
  rw [sSendOutput] at h
  by_cases hno : s.noJobs jobid
  · rw [if_pos hno] at h
    cases h
    rfl
  · rw [if_neg hno, Except.bind_eq_ok] at h
    obtain ⟨o, -, h⟩ := h
    cases o with
    | none =>
      cases h
      rfl
    | some p =>
      dsimp only at h
      split_ifs at h
      all_goals
        cases h
        rfl

theorem sGetLabel_view : (s.sGetLabel socket jobid).view = s.view := by
  rw [sGetLabel]
  split <;> rfl

theorem sSendCmd_view : (s.sSendCmd socket jobid).view = s.view := by
  rw [sSendCmd]
  split <;> rfl

theorem sSendState_view : (s.sSendState socket jobid).view = s.view := by
  rw [sSendState]
  split <;> rfl

theorem sClearFinished_moves :
    Moves (Act.ofAnswer K e s user .clearFinished) s.view (s.sClearFinished user).view := by
  have hdb := view_foldl (f := fun (s : Spool) (p : Job) => s.deleteFinishedDb p.jobid)
    (fun s p => view_deleteFinishedDb)
    (s.finishedJobs.filter fun p => decide (p.user = some user ∨ user = 0)) s
  refine .single (.forget (s.view.finishedJobs.filter fun p =>
    decide ¬(p.user = some user ∨ user = 0))) List.filter_sublist rfl ?_
  rw [sClearFinished]
  rw [view_finishedJobs (fun l => l.filter fun p => decide ¬(p.user = some user ∨ user = 0)), hdb]
  · rfl
  · rw [List.filter_map]
    rfl

theorem reordered_moves {ok : Act → View → Prop} {b : Prop} [Decidable b]
    (hok : ∀ l v, ok (.reorder l) v) (h : Moves ok s.view s'.view) :
    Moves ok s.view (if b then s' else s).sortIfAsked.view := by
  have hsort : ∀ s : Spool, Moves ok s.view s.sortIfAsked.view := by
    intro s
    rw [sortIfAsked]
    split_ifs
    · exact sSortJobs_moves fun l => hok l _
    · exact .refl
  split_ifs
  · exact h.trans (hsort s')
  · exact hsort s

/-! ### The answers -/

/-- **Every answer of the server is a sequence of the moves of its request and of recounts.** -/
theorem answer_course {r : Request} (hids : s.view.Ids)
    (hK : ∀ v, Usage e (Late e s) s.view v → K v) (h : s.answer e socket user r = .ok s') :
    Course e (AnswerLate e s r) (Act.ofAnswer K e s user r) s.view s'.view := by
  cases r with
  | refreshUsers =>
    rw [answer] at h
    split_ifs at h with hu
    · exact sRefreshUsers_course hids hu h
    · cases h
      exact .of_eq rfl
  | lockServer => exact sLockServer_course hids h
  | unlockServer =>
    cases h
    exact .of_eq (view_sUnlockServer _)
  | holdJob jobid =>
    cases h
    exact .moves sHoldJob_moves
  | contJob jobid => exact sContJob_course hids hK h
  | requeueJob jobid =>
    cases h
    exact .moves (sRequeueJob_moves _ _ _ hids)
  | suspendUser jobid => exact suspendUser_course hids h
  | resumeUser jobid => exact .moves (resumeUser_moves hids h)
  | list format jobid => exact .usage (sList_usage (o := some user) hids h)
  | listAll format jobid => exact .usage (sList_usage (o := none) hids h)
  | info jobid => exact .of_eq (sJobInfo_view h)
  | addWtime jobid w =>
    cases h
    split_ifs
    · exact .moves (sAddWtime_moves _)
    · exact .of_eq rfl
  | clearFinished =>
    cases h
    exact .moves sClearFinished_moves
  | askOutput jobid => exact .of_eq (sSendOutput_view h)
  | waitjob jobid =>
    cases h
    exact .of_eq view_sWaitJob
  | waitRunningJob jobid => exact .of_eq (sWaitRunningJob_view h)
  | getLabel jobid =>
    cases h
    exact .of_eq sGetLabel_view
  | getCmd jobid =>
    cases h
    exact .of_eq sSendCmd_view
  | getState jobid =>
    cases h
    exact .of_eq sSendState_view
  | urgent jobid =>
    cases h
    exact .moves (reordered_moves (fun _ _ => trivial) (sMoveUrgent_moves hids fun _ => trivial))
  | swapJobs jobid₁ jobid₂ =>
    cases h
    exact .moves (reordered_moves (fun _ _ => trivial) (sSwapJobs_moves fun _ => trivial))
  | setMaxSlots n =>
    cases h
    split_ifs with hu
    · exact .moves (sSetMaxSlots_moves hu)
    · exact .of_eq rfl
  | bindOff =>
    cases h
    split_ifs <;> exact .of_eq rfl
  | bindOn =>
    cases h
    split_ifs <;> exact .of_eq rfl
  | _ =>
    cases h
    exact .of_eq rfl

end Spool

end TaskSpooler
