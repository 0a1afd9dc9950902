import TaskSpooler.Ops.Usage

/-!
# The operations of the requests

What the server does for a request that leaves the connections alone is a sequence of operations
(`answer_ops`).  `Op.ofAnswer` lists them, with the tests that the request makes before.
-/

namespace TaskSpooler

namespace Op

/-- The operations of a request of a user. -/
def ofAnswer (e : Env) (socket : ℤ) (user : ℕ) (r : Request) (o : Op) (s : Spool) : Prop :=
  match r, o with
  | _, send k m => k = socket ∨ greets k m s
  | .refreshUsers, users _ _ _ => user = 0
  | .unlockServer, settings _ _ _ _ b => b = s.cpu.disabled
  | .lockServer, settings _ _ _ _ b => b = s.cpu.disabled
  | .holdJob jobid, lock p => p.jobid = jobid ∧ s.ownerOrRoot user p
  | .holdJob jobid, pause p => p.jobid = jobid ∧ s.ownerOrRoot user p
  | .holdJob jobid, wall k w => k = jobid ∧ ∃ p, s.findjob jobid = some p ∧ p.state = .pause ∧
      p.wallTime < 0 ∧ w = p.wallTime.natAbs
  | .contJob jobid, unlock p => p.jobid = jobid ∧ s.ownerOrRoot user p
  | .contJob jobid, absWall p => p.jobid = jobid
  | .contJob jobid, thaw p => p.jobid = jobid ∧ p.state = .running
  | .contJob jobid, start p => p.jobid = jobid ∧ s.ownerOrRoot user p
  | .contJob jobid, wall k w => k = jobid ∧ ∃ p, s.findjob jobid = some p ∧ s.ownerOrRoot user p ∧
      w = -(p.wallTime.natAbs : ℤ)
  | .requeueJob jobid, relegate p => p.jobid = jobid ∧ s.ownerOrRoot user p
  | .requeueJob jobid, bottom ids => ids = [jobid]
  | .suspendUser _, users _ _ _ => True
  | .suspendUser _, pause p => p.state = .running
  | .resumeUser _, users _ _ _ => True
  | .resumeUser _, start _ => True
  | .addWtime jobid w, addWtime k id w' => user = 0 ∧ k = socket ∧ id = jobid ∧ w' = w
  | .clearFinished, clear u => u = user
  | .askOutput jobid, thaw p => p.jobid = jobid ∧ p.state = .pause
  | .waitjob _, wait k _ => k = socket
  | .waitRunningJob _, wait k _ => k = socket
  | .urgent jobid, urgent k id => k = socket ∧ id = jobid ∧
      (user = 0 ∨ s.sGetJobUser jobid = some user)
  | .urgent _, sort => True
  | .setMaxSlots _, users _ _ _ => user = 0
  | .swapJobs jobid₁ jobid₂, swap k id₁ id₂ => k = socket ∧ id₁ = jobid₁ ∧ id₂ = jobid₂ ∧
      (user = 0 ∨ (s.sGetJobUser jobid₁ = some user ∧ s.sGetJobUser jobid₂ = some user))
  | .swapJobs _ _, sort => True
  | .setEnv _ _, settings l t _ _ b => l = s.userLocker ∧ t = s.lockerTime ∧ b = s.cpu.disabled
  | .unsetEnv _, settings l t _ _ b => l = s.userLocker ∧ t = s.lockerTime ∧ b = s.cpu.disabled
  | .setLogdir _, settings l t _ _ b => l = s.userLocker ∧ t = s.lockerTime ∧ b = s.cpu.disabled
  | .bindOff, settings l t _ _ _ => l = s.userLocker ∧ t = s.lockerTime ∧ user = 0
  | .bindOn, settings l t _ _ _ => l = s.userLocker ∧ t = s.lockerTime ∧ user = 0
  | .refreshUsers, o | .lockServer, o | .contJob _, o | .suspendUser _, o | .list _ _, o
  | .listAll _ _, o => o.ofUsage e s
  | _, _ => False

end Op

namespace Spool

variable {e : Env} {s s' : Spool} {jobid socket : ℤ} {user : ℕ} {ok : Op → Spool → Prop}

/-! ### Answers -/

theorem send_ops {r : Reply} (hr : r.tells = false) (hok : ok (.send socket r) s) :
    Ops e ok s (s.send socket r) :=
  .single (.send socket r) hr hok rfl

theorem sendLine_ops {text : String} (hok : ∀ r, ok (.send socket r) s) :
    Ops e ok s (s.sendLine socket text) :=
  send_ops rfl (hok _)

theorem sUserStatusAll_ops (hok : ∀ r s, ok (.send socket r) s) :
    Ops e ok s (s.sUserStatusAll e socket) := by
  have hfold : Ops e ok (s.send socket (.line "-- Users ----------- \n")) _ :=
    Except.foldl_induction (R := fun s s' : Spool => Ops e ok s s') (fun _ => .refl)
      (fun h h' => h.trans h') (l := List.range s.nusers)
      (f := fun s i =>
        if (s.users i).maxSlots = 0 ∧ (s.users i).busy = 0 then s else s.sUserStatus socket i) _
      fun {s i} _ => by
        split_ifs
        · exact .refl
        · exact send_ops rfl (hok _ _)
  exact ((send_ops rfl (hok _ _)).trans hfold).trans (send_ops rfl (hok _ _))

/-- `s_list` counts the slots again and answers. -/
theorem sList_cases {o : Option ℕ} {format : ListFormat} (hsend : ∀ r s, ok (.send socket r) s)
    (h : s.sList e socket o format jobid = .ok s') :
    ∃ s₁, s.sUpdateSlotsUsage e = .ok s₁ ∧ Ops e ok s₁ s' := by
  rw [sList, Except.bind_eq_ok] at h
  obtain ⟨s₁, h₁, h⟩ := h
  refine ⟨s₁, h₁, ?_⟩
  cases format with
  | default =>
    have hlist : Ops e ok s₁ (s₁.send socket (s₁.listFor o)) := send_ops rfl (hsend _ _)
    cases o with
    | none =>
      cases h
      exact hlist.trans (sUserStatusAll_ops hsend)
    | some u =>
      cases h
      refine hlist.trans ?_
      split_ifs
      · exact sUserStatusAll_ops hsend
      · exact send_ops rfl (hsend _ _)
  | json =>
    cases h
    refine send_ops ?_ (hsend _ _)
    rw [listOne]
    split_ifs
    · split <;> rfl
    · rfl
  | tab =>
    dsimp only at h
    split_ifs at h
    cases h
    exact send_ops rfl (hsend _ _)

theorem sList_ops {o : Option ℕ} {format : ListFormat} (hids : s.view.Ids)
    (hsend : ∀ r s, ok (.send socket r) s) (husage : ∀ o s, Op.ofUsage e o s → ok o s)
    (h : s.sList e socket o format jobid = .ok s') : Ops e ok s s' := by
  obtain ⟨s₁, h₁, hrest⟩ := sList_cases hsend h
  exact ((sUpdateSlotsUsage_ops hids h₁).mono husage).trans hrest

/-! ### Holding and continuing a job -/

theorem sHoldJob_ops : Ops e (Op.ofAnswer e socket user (.holdJob jobid)) s
    (s.sHoldJob e socket jobid user) := by
  have hline : ∀ (s : Spool) text, Ops e (Op.ofAnswer e socket user (.holdJob jobid)) s
      (s.sendLine socket text) := fun s text => sendLine_ops fun _ => .inl rfl
  rw [sHoldJob]
  split_ifs with hneg
  · exact hline _ _
  · cases hp : s.findjob jobid with
    | none => exact hline _ _
    | some p =>
      obtain rfl := findjob_jobid hp
      dsimp only
      split_ifs with hq howner hl hpause hwall hpid
      · exact Ops.trans (.single (.lock p) ⟨hp, hq⟩ ⟨rfl, howner⟩ rfl) (hline _ _)
      · exact hline _ _
      · exact hline _ _
      · exact Ops.trans (.single (.wall p.jobid _) (Option.isSome_iff_exists.2 ⟨p, hp⟩)
          ⟨rfl, p, hp, hpause, hwall, rfl⟩ rfl) (hline _ _)
      · exact hline _ _
      · exact Ops.trans (.single (.pause p) ⟨hp, hpid.1, hq, hl, hpause⟩ ⟨rfl, hpid.2⟩ rfl)
          (hline _ _)
      · exact hline _ _

theorem findjob_absWall {p : Job} {w : ℤ} (hp : s.findjob p.jobid = some p) :
    (s.modJob p.jobid (Job.setWallTime w)).findjob p.jobid = some (p.setWallTime w) := by
  have h : (s.modJob p.jobid (Job.setWallTime w)).findjob p.jobid = _ :=
    Queue.findjob_modJob (f := Job.setWallTime w) (fun _ h => h) p.jobid
  rw [h, if_pos rfl, hp, Option.map_some]

/-- `s_cont_job` marks the job as one that waits for another turn: there is no room for it. -/
def Marks (s : Spool) (user : ℕ) (p : Job) : Prop :=
  p.state ≠ .running ∧ p.pid ≠ 0 ∧ s.ownerOrRoot user p ∧
    ¬((s.users user).busy + p.numSlots ≤ (s.users user).maxSlots ∧
      s.busySlots + p.numSlots ≤ s.maxSlots)

theorem contStarted_ops_of {p : Job} (hp : s.findjob p.jobid = some p) (hq : p.state ≠ .queued)
    (hl : p.state ≠ .locked) (hsend : ∀ r s, ok (.send socket r) s) (habs : ok (.absWall p) s)
    (hthaw : p.state = .running → ∀ s, ok (.thaw p) s)
    (hstart : p.state = .pause → s.ownerOrRoot user p → ok (.start (p.setWallTime p.wallTime.natAbs))
      (s.modJob p.jobid (Job.setWallTime p.wallTime.natAbs)))
    (hwall : s.Marks user p → ok (.wall p.jobid (-(p.wallTime.natAbs : ℤ)))
      (s.modJob p.jobid (Job.setWallTime p.wallTime.natAbs))) :
    Ops e ok s (s.contStarted e socket p user) := by
  have hline : ∀ (s : Spool) text, Ops e ok s (s.sendLine socket text) := fun s text =>
    sendLine_ops fun _ => hsend _ _
  have hpos : Ops e ok s (s.modJob p.jobid (Job.setWallTime p.wallTime.natAbs)) :=
    .single (.absWall p) ⟨hp, hq, hl⟩ habs rfl
  have hfind := findjob_absWall (w := p.wallTime.natAbs) hp
  rw [contStarted]
  refine hpos.trans ?_
  split_ifs with hrun hsleep hown hroom hpause
  · exact hline _ _
  · exact Ops.trans (.single (.thaw p) trivial (hthaw hrun _) rfl) (hline _ _)
  · exact Ops.trans (.single (.start (p.setWallTime p.wallTime.natAbs)) ⟨hfind, hpause, hown.1⟩
      (hstart hpause hown.2) rfl) (hline _ _)
  · exact hline _ _
  · exact Ops.trans (.single (.wall p.jobid _) (Option.isSome_iff_exists.2 ⟨_, hfind⟩)
      (hwall ⟨hrun, hown.1, hown.2, hroom⟩) rfl) (hline _ _)
  · exact hline _ _

theorem contStarted_ops {p : Job} (hp : s.findjob p.jobid = some p) (hq : p.state ≠ .queued)
    (hl : p.state ≠ .locked) :
    Ops e (Op.ofAnswer e socket user (.contJob p.jobid)) s (s.contStarted e socket p user) :=
  contStarted_ops_of hp hq hl (fun _ _ => .inl rfl) rfl (fun hrun _ => ⟨rfl, hrun⟩)
    (fun _ hown => ⟨rfl, hown⟩) fun hmark =>
      ⟨rfl, _, findjob_absWall hp, hmark.2.2.1, by simp [Job.setWallTime]⟩

/-- `s_cont_job` counts the slots again before it looks for the job. -/
theorem sContJob_cases (hsend : ∀ r s, ok (.send socket r) s)
    (hunlock : ∀ p (s : Spool), p.jobid = jobid → s.ownerOrRoot user p → ok (.unlock p) s)
    (hstarted : ∀ s₁, s.sUpdateSlotsUsage e = .ok s₁ → ∀ p, s₁.findjob jobid = some p →
      p.state ≠ .queued → p.state ≠ .locked → Ops e ok s₁ (s₁.contStarted e socket p user))
    (h : s.sContJob e socket jobid user = .ok s') :
    ∃ s₁, s.sUpdateSlotsUsage e = .ok s₁ ∧ Ops e ok s₁ s' := by
  have hline : ∀ (s : Spool) text, Ops e ok s (s.sendLine socket text) := fun s text =>
    sendLine_ops fun _ => hsend _ _
  rw [sContJob, Except.bind_eq_ok] at h
  obtain ⟨s₁, h₁, h⟩ := h
  refine ⟨s₁, h₁, ?_⟩
  split_ifs at h with hneg
  · cases h
    exact hline _ _
  · cases hp : s₁.findjob jobid with
    | none =>
      simp only [hp] at h
      cases h
      exact hline _ _
    | some p =>
      have hid := findjob_jobid hp
      have hp' : s₁.findjob p.jobid = some p := hid ▸ hp
      simp only [hp] at h
      split_ifs at h with hl howner hq
      · cases h
        exact Ops.trans (.single (.unlock p) ⟨hp', hl⟩ (hunlock p _ hid howner) rfl) (hline _ _)
      · cases h
        exact hline _ _
      · cases h
        exact hline _ _
      · cases h
        exact hstarted s₁ h₁ p hp hq hl

theorem sContJob_ops_of (hids : s.view.Ids) (husage : ∀ o s, Op.ofUsage e o s → ok o s)
    (hsend : ∀ r s, ok (.send socket r) s)
    (hunlock : ∀ p (s : Spool), p.jobid = jobid → s.ownerOrRoot user p → ok (.unlock p) s)
    (hstarted : ∀ s₁, s.sUpdateSlotsUsage e = .ok s₁ → ∀ p, s₁.findjob jobid = some p →
      p.state ≠ .queued → p.state ≠ .locked → Ops e ok s₁ (s₁.contStarted e socket p user))
    (h : s.sContJob e socket jobid user = .ok s') : Ops e ok s s' := by
  obtain ⟨s₁, h₁, hrest⟩ := sContJob_cases hsend hunlock hstarted h
  exact ((sUpdateSlotsUsage_ops hids h₁).mono husage).trans hrest

theorem sContJob_ops (hids : s.view.Ids) (h : s.sContJob e socket jobid user = .ok s') :
    Ops e (Op.ofAnswer e socket user (.contJob jobid)) s s' := by
  refine sContJob_ops_of hids (fun o s ho => ?_) (fun _ _ => .inl rfl)
    (fun p s hid hown => ⟨hid, hown⟩) (fun s₁ _ p hp hq hl => ?_) h
  · cases o <;> first | exact ho | exact .inr ho | exact ho.elim
  · obtain rfl := findjob_jobid hp
    exact contStarted_ops hp hq hl

theorem sRequeueJob_ops_of (hids : s.view.Ids)
    (hrel : ∀ p, s.findjob jobid = some p → s.ownerOrRoot user p →
      p.state = .running ∨ p.state = .pause → ok (.relegate p) s)
    (hbottom : ∀ s, ok (.bottom [jobid]) s) (hsend : ∀ r s, ok (.send socket r) s) :
    Ops e ok s (s.sRequeueJob e socket jobid user) := by
  have hline : ∀ (s : Spool) text, Ops e ok s (s.sendLine socket text) := fun s text =>
    sendLine_ops fun _ => hsend _ _
  rw [sRequeueJob]
  cases hp : s.findjob jobid with
  | none => exact hline _ _
  | some p =>
    obtain rfl := findjob_jobid hp
    dsimp only
    split_ifs with howner hstate
    · exact hline _ _
    · exact hline _ _
    · have hstate' : p.state = .running ∨ p.state = .pause := by tauto
      have hled : Ops e ok s (s.sRelegateJob e p) :=
        .single (.relegate p) ⟨hp, hstate'⟩ (hrel p hp (by simpa using howner) hstate') rfl
      have hids' := congrArg Ledger.active (ledger_sRelegateJob (s := s) (e := e) (p := p))
      have hsub : [p.jobid] ⊆ (s.sRelegateJob e p).activeJobs.map Job.jobid := by
        simp only [ledger] at hids'
        rw [hids', List.cons_subset]
        exact ⟨List.mem_map_of_mem (Keyed.mem_of_lookup hp), List.nil_subset _⟩
      refine (hled.trans (.single (.bottom [p.jobid]) ⟨List.nodup_singleton _, hsub⟩
        (hbottom _) ?_)).trans (hline _ _)
      have hrem := Keyed.remove_eq_filter (k := p.jobid) (nodup_of_ids (hled.ids hids))
      simp only [Op.run, toBottom, List.foldl_cons, List.foldl_nil, List.filterMap_cons,
        List.filterMap_nil, List.mem_singleton, ← ne_eq, ← hrem, onQueue]
      cases (s.sRelegateJob e p).findjob p.jobid <;> simp only [Option.toList]

theorem sRequeueJob_ops (hids : s.view.Ids) : Ops e (Op.ofAnswer e socket user (.requeueJob jobid)) s
    (s.sRequeueJob e socket jobid user) :=
  sRequeueJob_ops_of hids (fun _ hp hown _ => ⟨findjob_jobid hp, hown⟩) (fun _ => rfl)
    fun _ _ => .inl rfl

/-! ### Users -/

theorem modUser_ops (ok : Op → Spool → Prop) {u : ℕ} {f : User → User} (hids : s.view.Ids)
    (hok : ∀ us n m, ok (.users us n m) s)
    (hf : ∀ x, SameCounters (f x) x ∧ (f x).maxSlots.natAbs = x.maxSlots.natAbs) :
    Ops e ok s (s.modUser (some u) f) :=
  .single (.users (Function.update s.users u (f (s.users u))) s.nusers s.maxSlots)
    ⟨modUser_guard hids hf, .inl rfl⟩ (hok _ _ _) rfl

theorem suspendJob_ops {u : ℕ} (hsend : ∀ r s, ok (.send socket r) s)
    (hok : ∀ p s, p.user = some u → p.state = .running → p.pid ≠ 0 → ok (.pause p) s) :
    Ops e ok s (s.suspendJob e socket u jobid) := by
  rw [suspendJob]
  cases hp : s.findjob jobid with
  | none => exact .refl
  | some p =>
    dsimp only
    obtain rfl := findjob_jobid hp
    split_ifs with hown hpid
    · refine .single (.pause p) ⟨hp, hpid, ?_, ?_, ?_⟩ (hok p _ hown.1 hown.2 hpid) rfl
      all_goals simp [hown.2]
    · exact sendLine_ops fun _ => hsend _ _
    · exact .refl

theorem suspendAll_ops {u : ℕ} (hsend : ∀ r s, ok (.send socket r) s)
    (hok : ∀ p s, p.user = some u → p.state = .running → p.pid ≠ 0 → ok (.pause p) s) (l : List ℤ) :
    Ops e ok s (l.foldl (fun s jobid => s.suspendJob e socket u jobid) s) :=
  Except.foldl_induction (R := fun s s' : Spool => Ops e ok s s') (fun _ => .refl)
    (fun h h' => h.trans h') s fun _ => suspendJob_ops hsend hok

theorem resumeJobs_ops {u : ℕ} (hok : ∀ p s, ok (.start p) s) (l : List ℤ) :
    Ops e ok s (l.foldl (fun s jobid =>
      match s.findjob jobid with
      | none => s
      | some p => if p.user = some u ∧ p.state = .pause ∧ p.pid ≠ 0 then s.configRunning e p
                  else s) s) := by
  refine Except.foldl_induction (R := fun s s' : Spool => Ops e ok s s') (fun _ => .refl)
    (fun h h' => h.trans h') s fun {s jobid} _ => ?_
  cases hp : s.findjob jobid with
  | none => exact .refl
  | some p =>
    dsimp only
    obtain rfl := findjob_jobid hp
    split_ifs with hown
    · exact .single (.start p) ⟨hp, hown.2⟩ (hok p _) rfl
    · exact .refl

theorem sResumeUser_ops {u : ℕ} (hids : s.view.Ids) (hsend : ∀ r s, ok (.send socket r) s)
    (husers : ∀ us n m s, ok (.users us n m) s) (hok : ∀ p s, ok (.start p) s) :
    Ops e ok s (s.sResumeUser e socket u) := by
  have hlimit := modUser_ops ok (u := u) (e := e) hids (fun us n m => husers us n m _)
    (f := fun u => { u with maxSlots := u.maxSlots.natAbs, locked := false })
    fun x => ⟨⟨rfl, rfl, rfl, rfl⟩, Int.natAbs_natCast _⟩
  exact (hlimit.trans (resumeJobs_ops hok _)).trans (sendLine_ops fun _ => hsend _ _)

theorem sResumeUserAll_ops (hids : s.view.Ids) (hsend : ∀ r s, ok (.send socket r) s)
    (husers : ∀ us n m s, ok (.users us n m) s) (hok : ∀ p s, ok (.start p) s) :
    Ops e ok s (s.sResumeUserAll e socket) :=
  Except.foldl_induction (R := fun s s' : Spool => s.view.Ids → Ops e ok s s')
    (fun _ _ => .refl) (fun h h' hids => (h hids).trans (h' ((h hids).ids hids))) s
    (fun _ hids => sResumeUser_ops hids hsend husers hok) hids

theorem resumeUser_ops (hids : s.view.Ids) (h : s.resumeUser e socket user jobid = .ok s') :
    Ops e (Op.ofAnswer e socket user (.resumeUser jobid)) s s' := by
  rw [resumeUser] at h
  cases ht : s.target user jobid with
  | all =>
    simp only [ht] at h
    cases h
    exact (sResumeUserAll_ops hids (fun _ _ => .inl rfl) (fun _ _ _ _ => trivial)
      fun _ _ => trivial).trans (sUserStatusAll_ops fun _ _ => .inl rfl)
  | one u =>
    simp only [ht] at h
    cases h
    exact (sResumeUser_ops hids (fun _ _ => .inl rfl) (fun _ _ _ _ => trivial)
      fun _ _ => trivial).trans (send_ops rfl (.inl rfl))
  | missing => simp [ht] at h

theorem ofAnswer_of_ofUsage {r : Request} (hr : (match r with
      | .refreshUsers | .lockServer | .contJob _ | .suspendUser _ | .list _ _ | .listAll _ _ => true
      | _ => false) = true) {o : Op} (ho : o.ofUsage e s) : Op.ofAnswer e socket user r o s := by
  cases r <;> first | cases hr; done | (cases o <;> first | exact ho | exact .inr ho | exact ho.elim)

/-- `s_suspend_user` counts the slots again after it has paused the jobs. -/
theorem sSuspendUser_cases {u : ℕ} (hids : s.view.Ids) (hsend : ∀ r s, ok (.send socket r) s)
    (husers : ∀ us n m s, ok (.users us n m) s)
    (hpause : ∀ p s, p.user = some u → p.state = .running → p.pid ≠ 0 → ok (.pause p) s)
    (h : s.sSuspendUser e socket u = .ok s') :
    ∃ s₁, Ops e ok s s₁ ∧ s₁.sUpdateSlotsUsage e = .ok s' := by
  have hlimit := modUser_ops ok (u := u) (e := e) hids (fun us n m => husers us n m _)
    (f := fun u => { u with maxSlots := -(u.maxSlots.natAbs : ℤ), locked := true })
    fun x => ⟨⟨rfl, rfl, rfl, rfl⟩, by rw [Int.natAbs_neg, Int.natAbs_natCast]⟩
  exact ⟨_, (hlimit.trans (suspendAll_ops hsend hpause _)).trans (sendLine_ops fun _ => hsend _ _), h⟩

theorem sSuspendUser_ops {u : ℕ} (hids : s.view.Ids)
    (h : s.sSuspendUser e socket u = .ok s') :
    Ops e (Op.ofAnswer e socket user (.suspendUser jobid)) s s' := by
  obtain ⟨s₁, hpause, h⟩ : ∃ s₁, Ops e (Op.ofAnswer e socket user (.suspendUser jobid)) s s₁ ∧
      s₁.sUpdateSlotsUsage e = .ok s' :=
    sSuspendUser_cases hids (fun _ _ => .inl rfl) (fun _ _ _ _ => trivial)
      (fun _ _ _ hrun _ => hrun) h
  exact hpause.trans ((sUpdateSlotsUsage_ops (hpause.ids hids) h).mono fun o s ho =>
    ofAnswer_of_ofUsage rfl ho)

theorem suspendUser_ops (hids : s.view.Ids) (h : s.suspendUser e socket user jobid = .ok s') :
    Ops e (Op.ofAnswer e socket user (.suspendUser jobid)) s s' := by
  rw [suspendUser] at h
  cases ht : s.target user jobid with
  | all =>
    simp only [ht, Except.bind_eq_ok] at h
    obtain ⟨s₁, h₁, h⟩ := h
    cases h
    have hall : Ops e (Op.ofAnswer e socket user (.suspendUser jobid)) s s₁ :=
      Except.foldlM_induction (R := fun s s' : Spool => s.view.Ids →
        Ops e (Op.ofAnswer e socket user (.suspendUser jobid)) s s') (fun _ _ => .refl)
        (fun h h' hids => (h hids).trans (h' ((h hids).ids hids)))
        (fun _ h hids => sSuspendUser_ops hids h) h₁ hids
    exact hall.trans (sUserStatusAll_ops fun _ _ => .inl rfl)
  | one u =>
    simp only [ht, Except.bind_eq_ok] at h
    obtain ⟨s₁, h₁, h⟩ := h
    cases h
    exact (sSuspendUser_ops hids h₁).trans (send_ops rfl (.inl rfl))
  | missing => simp [ht] at h

/-- `s_refresh_users` counts the slots again if it does not complain about the user file. -/
theorem sRefreshUsers_cases (hids : s.view.Ids) (hsend : ∀ r s, ok (.send socket r) s)
    (husers : ∀ us n m s, ok (.users us n m) s) (h : s.sRefreshUsers e socket = .ok s') :
    Ops e ok s s' ∨ ∃ s₁, Ops e ok s s₁ ∧ s₁.sUpdateSlotsUsage e = .ok s' := by
  have hread := readUserFile_reads (e := e) (s := s)
  have hslots : (s.readUserFile e).maxSlots = s.maxSlots ∨ 0 < (s.readUserFile e).maxSlots :=
    hread.maxSlots.symm
  rw [sRefreshUsers] at h
  split at h
  · cases h
    refine .inl (Ops.trans (.single (.users (s.usersBack e) s.nusers (s.readUserFile e).maxSlots)
      ⟨usersBack_guard hids, hslots⟩ (husers _ _ _ _) ?_) (sendLine_ops fun _ => hsend _ _))
    have heq := congrArg (fun x : Spool => x.onQueue fun q =>
      { q with nusers := s.nusers, users := s.usersBack e }) hread.eq
    exact congrArg Except.ok heq.symm
  · rename_i hnone
    refine .inr ⟨_, Ops.trans (.single (.users _ _ _) ⟨refreshed_guard hids hnone, hslots⟩
      (husers _ _ _ _) ?_) (send_ops rfl (hsend _ _)), h⟩
    exact congrArg Except.ok hread.eq.symm

theorem sRefreshUsers_ops (hids : s.view.Ids) (hu : user = 0)
    (h : s.sRefreshUsers e socket = .ok s') :
    Ops e (Op.ofAnswer e socket user .refreshUsers) s s' := by
  obtain hops | ⟨s₁, hnew, h⟩ : Ops e (Op.ofAnswer e socket user .refreshUsers) s s' ∨
      ∃ s₁, Ops e (Op.ofAnswer e socket user .refreshUsers) s s₁ ∧ s₁.sUpdateSlotsUsage e = .ok s' :=
    sRefreshUsers_cases hids (fun _ _ => .inl rfl) (fun _ _ _ _ => hu) h
  · exact hops
  · exact hnew.trans ((sUpdateSlotsUsage_ops (hnew.ids hids) h).mono fun o s ho =>
      ofAnswer_of_ofUsage rfl ho)

/-! ### The lock of the server -/

/-- `s_lock_server` counts the slots again for root. -/
theorem sLockServer_cases (hsend : ∀ r s, ok (.send socket r) s)
    (hset : ∀ l t (s : Spool), ok (.settings l t s.environment s.logdir s.cpu.disabled) s)
    (h : s.sLockServer e socket user = .ok s') :
    (s.users user).uid = 0 ∧ (∃ s₁, s.sUpdateSlotsUsage e = .ok s₁ ∧ Ops e ok s₁ s') ∨
      Ops e ok s s' := by
  have hset : ∀ (s : Spool) l t, Ops e ok s { s with userLocker := l, lockerTime := t } :=
    fun s l t => .single (.settings l t s.environment s.logdir s.cpu.disabled) trivial (hset _ _ _) rfl
  have hline : ∀ (s : Spool) text, Ops e ok s (s.sendLine socket text) := fun s text =>
    sendLine_ops fun _ => hsend _ _
  rw [sLockServer] at h
  dsimp only at h
  split_ifs at h with hroot
  · rw [Except.bind_eq_ok] at h
    obtain ⟨s₁, h₁, h⟩ := h
    cases h
    exact .inl ⟨hroot, s₁, h₁, (hset _ _ _).trans (hline _ _)⟩
  · split at h
    · cases h
      exact .inr ((hset _ _ _).trans (hline _ _))
    · cases h
      exact .inr (hline _ _)

theorem sLockServer_ops (hids : s.view.Ids) (h : s.sLockServer e socket user = .ok s') :
    Ops e (Op.ofAnswer e socket user .lockServer) s s' := by
  obtain ⟨-, s₁, h₁, hrest⟩ | hops : (s.users user).uid = 0 ∧ (∃ s₁, s.sUpdateSlotsUsage e = .ok s₁ ∧
      Ops e (Op.ofAnswer e socket user .lockServer) s₁ s') ∨
        Ops e (Op.ofAnswer e socket user .lockServer) s s' :=
    sLockServer_cases (fun _ _ => .inl rfl) (fun _ _ _ => rfl) h
  · exact ((sUpdateSlotsUsage_ops hids h₁).mono fun o s ho => ofAnswer_of_ofUsage rfl ho).trans hrest
  · exact hops

theorem sUnlockServer_ops : Ops e (Op.ofAnswer e socket user .unlockServer) s
    (s.sUnlockServer socket user) := by
  have hset : Ops e (Op.ofAnswer e socket user .unlockServer) s { s with userLocker := none } :=
    .single (.settings none s.lockerTime s.environment s.logdir s.cpu.disabled) trivial rfl rfl
  have hline : ∀ (s : Spool) text, Ops e (Op.ofAnswer e socket user .unlockServer) s
      (s.sendLine socket text) := fun s text => sendLine_ops fun _ => .inl rfl
  rw [sUnlockServer]
  cases s.userLocker with
  | none => exact hline _ _
  | some l =>
    dsimp only
    split_ifs
    · exact hset.trans (hline _ _)
    · exact hset.trans (hline _ _)
    · exact hline _ _

/-! ### Requests that look something up -/

theorem lastJob_mem {p : Job} (h : s.lastJob = some p) : p ∈ s.activeJobs ∨ p ∈ s.finishedJobs := by
  rw [Queue.lastJob, Option.or_eq_some_iff] at h
  obtain h | ⟨-, h⟩ := h
  · exact .inl (List.mem_of_getLast? h)
  · exact .inr (List.mem_of_getLast? h)

theorem getJob_mem {p : Job} (h : s.getJob jobid = some p) :
    p ∈ s.activeJobs ∨ p ∈ s.finishedJobs := by
  rw [Queue.getJob, Option.or_eq_some_iff] at h
  obtain h | ⟨-, h⟩ := h
  · exact .inl (Keyed.mem_of_lookup h)
  · exact .inr (Keyed.mem_of_lookup h)

theorem getJob_jobid {p : Job} (h : s.getJob jobid = some p) : p.jobid = jobid := by
  rw [Queue.getJob, Option.or_eq_some_iff] at h
  obtain h | ⟨-, h⟩ := h
  · exact Keyed.key_of_lookup h
  · exact Keyed.key_of_lookup h

theorem currentJob_mem {p : Job} (h : s.currentJob jobid = .ok (some p)) :
    p ∈ s.activeJobs ∨ p ∈ s.finishedJobs := by
  rw [currentJob] at h
  split_ifs at h
  · split at h
    · cases h
    · rename_i q l hl
      cases h
      exact .inl (hl ▸ List.mem_cons_self)
  · exact .inr (List.mem_of_getLast? (Except.ok.inj h))
  · exact getJob_mem (Except.ok.inj h)

theorem sWaitJob_ops : Ops e (Op.ofAnswer e socket user (.waitjob jobid)) s (s.sWaitJob socket jobid) := by
  rw [sWaitJob]
  split
  · exact sendLine_ops fun _ => .inl rfl
  · rename_i p hp
    refine .single (.wait socket p) ?_ rfl rfl
    split_ifs at hp
    · exact lastJob_mem hp
    · exact getJob_mem hp

theorem sWaitRunningJob_ops (h : s.sWaitRunningJob socket jobid = .ok s') :
    Ops e (Op.ofAnswer e socket user (.waitRunningJob jobid)) s s' := by
  rw [sWaitRunningJob] at h
  split_ifs at h
  · cases h
    exact send_ops rfl (.inl rfl)
  · rw [Except.bind_eq_ok] at h
    obtain ⟨o, ho, h⟩ := h
    cases o with
    | none =>
      cases h
      exact sendLine_ops fun _ => .inl rfl
    | some p =>
      cases h
      exact .single (.wait socket p) (currentJob_mem ho) rfl rfl

theorem sJobInfo_ops (h : s.sJobInfo socket jobid = .ok s') :
    Ops e (Op.ofAnswer e socket user (.info jobid)) s s' := by
  rw [sJobInfo] at h
  split_ifs at h
  · cases h
    exact send_ops rfl (.inl rfl)
  · rw [Except.bind_eq_ok] at h
    obtain ⟨o, -, h⟩ := h
    cases o with
    | none =>
      cases h
      exact sendLine_ops fun _ => .inl rfl
    | some p =>
      dsimp only at h
      split_ifs at h
      cases h
      exact send_ops rfl (.inl rfl)

theorem sSendOutput_ops (h : s.sSendOutput socket jobid = .ok s') :
    Ops e (Op.ofAnswer e socket user (.askOutput jobid)) s s' := by
  rw [sSendOutput] at h
  by_cases hno : s.noJobs jobid
  · rw [if_pos hno] at h
    cases h
    exact send_ops rfl (.inl rfl)
  · rw [if_neg hno, Except.bind_eq_ok] at h
    obtain ⟨o, ho, h⟩ := h
    cases o with
    | none =>
      cases h
      exact sendLine_ops fun _ => .inl rfl
    | some p =>
      have hthaw : Ops e (Op.ofAnswer e socket user (.askOutput jobid)) s
          (if jobid ≠ -1 ∧ p.state = .pause then s.cgroupsThawJob p else s) := by
        split_ifs with hpause
        · rw [currentJob, if_neg hpause.1] at ho
          exact .single (.thaw p) trivial ⟨getJob_jobid (Except.ok.inj ho), hpause.2⟩ rfl
        · exact .refl
      dsimp only at h
      by_cases hout : jobid ≠ -1 ∧ hasOutput p = false
      · rw [if_pos hout] at h
        cases h
        exact sendLine_ops fun _ => .inl rfl
      · rw [if_neg hout] at h
        by_cases hskip : p.state = .skipped
        · rw [if_pos hskip] at h
          cases h
          exact hthaw.trans (sendLine_ops fun _ => .inl rfl)
        · rw [if_neg hskip] at h
          cases h
          exact hthaw.trans (send_ops rfl (.inl rfl))

theorem lookup_ops {r : Request} {o : Option Job} {text : String} {f : Job → Reply}
    (hf : ∀ p, (f p).tells = false) : Ops e (Op.ofAnswer e socket user r) s
    (match o with
      | none => s.sendLine socket text
      | some p => s.send socket (f p)) := by
  have hsend : ∀ r', Op.ofAnswer e socket user r (.send socket r') s := fun _ => by
    cases r <;> exact .inl rfl
  cases o with
  | none => exact sendLine_ops hsend
  | some p => exact send_ops (hf p) (hsend _)

theorem sortIfAsked_ops {r : Request} (hok : ∀ s, Op.ofAnswer e socket user r .sort s) :
    Ops e (Op.ofAnswer e socket user r) s s.sortIfAsked := by
  rw [sortIfAsked]
  split_ifs with hflag
  · exact .single .sort hflag (hok s) rfl
  · exact .refl

theorem sSetMaxSlots_ops {n : ℤ} (hids : s.view.Ids) (hu : user = 0) :
    Ops e (Op.ofAnswer e socket user (.setMaxSlots n)) s (s.sSetMaxSlots socket n) := by
  have hset : Ops e (Op.ofAnswer e socket user (.setMaxSlots n)) s
      (if 0 < n then s.onQueue fun q => { q with maxSlots := n } else s) := by
    split_ifs with hn
    · refine .single (.users s.users s.nusers n) ⟨⟨le_refl _, hids.uids, ?_, ?_⟩, .inr hn⟩ hu rfl
      · exact fun _ _ => ⟨rfl, rfl, rfl, rfl⟩
      · exact fun u hu hle => absurd hu (Nat.not_lt.2 hle)
    · exact .refl
  rw [sSetMaxSlots]
  generalize (if 0 < n then s.onQueue fun q => { q with maxSlots := n } else s) = s₁ at hset
  split_ifs
  · exact hset.trans (sendLine_ops fun _ => .inl rfl)
  · exact hset

/-! ### All requests -/

/-- **Every answer is a sequence of operations.** -/
theorem answer_ops {r : Request} (hids : s.view.Ids) (h : s.answer e socket user r = .ok s') :
    Ops e (Op.ofAnswer e socket user r) s s' := by
  cases r with
  | refreshUsers =>
    rw [answer] at h
    split_ifs at h with hu
    · exact sRefreshUsers_ops hids hu h
    · cases h
      exact .refl
  | lockServer => exact sLockServer_ops hids h
  | unlockServer =>
    cases h
    exact sUnlockServer_ops
  | holdJob jobid =>
    cases h
    exact sHoldJob_ops
  | contJob jobid => exact sContJob_ops hids h
  | requeueJob jobid =>
    cases h
    exact sRequeueJob_ops hids
  | suspendUser jobid => exact suspendUser_ops hids h
  | resumeUser jobid => exact resumeUser_ops hids h
  | list format jobid =>
    rw [answer] at h
    exact sList_ops hids (fun _ _ => .inl rfl) (fun o s ho => ofAnswer_of_ofUsage rfl ho) h
  | listAll format jobid =>
    rw [answer] at h
    exact sList_ops hids (fun _ _ => .inl rfl) (fun o s ho => ofAnswer_of_ofUsage rfl ho) h
  | info jobid => exact sJobInfo_ops h
  | lastId =>
    cases h
    exact send_ops rfl (.inl rfl)
  | getLabel jobid =>
    cases h
    exact lookup_ops (f := fun p => .line _) fun _ => rfl
  | addWtime jobid w =>
    cases h
    split_ifs with hu
    · exact .single (.addWtime socket jobid w) trivial ⟨hu, rfl, rfl, rfl⟩ rfl
    · exact .refl
  | getCmd jobid =>
    cases h
    exact lookup_ops (f := fun p => .line _) fun _ => rfl
  | clearFinished =>
    cases h
    exact .single (.clear user) trivial rfl rfl
  | askOutput jobid => exact sSendOutput_ops h
  | waitjob jobid =>
    cases h
    exact sWaitJob_ops
  | waitRunningJob jobid => exact sWaitRunningJob_ops h
  | countRunning | getMaxSlots | getVersion | getLogdir | getEnv var | findPid pid deep =>
    cases h
    exact send_ops rfl (.inl rfl)
  | urgent jobid =>
    cases h
    refine Ops.trans ?_ (sortIfAsked_ops fun _ => trivial)
    split_ifs with hu
    · exact .single (.urgent socket jobid) trivial ⟨rfl, rfl, hu⟩ rfl
    · exact .refl
  | setMaxSlots n =>
    cases h
    split_ifs with hu
    · exact sSetMaxSlots_ops hids hu
    · exact .refl
  | swapJobs jobid₁ jobid₂ =>
    cases h
    refine Ops.trans ?_ (sortIfAsked_ops fun _ => trivial)
    split_ifs with hu
    · exact .single (.swap socket jobid₁ jobid₂) trivial ⟨rfl, rfl, rfl, hu⟩ rfl
    · exact .refl
  | getState jobid =>
    cases h
    exact lookup_ops (f := fun p => .state p.state) fun _ => rfl
  | setEnv name value =>
    cases h
    exact .single (.settings s.userLocker s.lockerTime _ s.logdir s.cpu.disabled) trivial
      ⟨rfl, rfl, rfl⟩ rfl
  | unsetEnv var =>
    cases h
    exact .single (.settings s.userLocker s.lockerTime _ s.logdir s.cpu.disabled) trivial
      ⟨rfl, rfl, rfl⟩ rfl
  | bindOff =>
    cases h
    split_ifs with hu
    · exact .single (.settings s.userLocker s.lockerTime s.environment s.logdir true) trivial
        ⟨rfl, rfl, hu.1⟩ rfl
    · exact .refl
  | bindOn =>
    cases h
    split_ifs with hu
    · exact .single (.settings s.userLocker s.lockerTime s.environment s.logdir false) trivial
        ⟨rfl, rfl, hu.1⟩ rfl
    · exact .refl
  | setLogdir path =>
    cases h
    exact .single (.settings s.userLocker s.lockerTime s.environment path s.cpu.disabled) trivial
      ⟨rfl, rfl, rfl⟩ rfl

end Spool

end TaskSpooler
