import TaskSpooler.Ops.Answer

/-!
# The operations of the server loop

Every step of the server but a restart is a sequence of operations on its jobs (`step_ops`).
`Server.Performs` lists them for each input, with what was tested before.
-/

namespace TaskSpooler

namespace Op

/-- The operations of `clean_after_client_disappeared` for the job of a connection. -/
def ofClean (jobid : ℤ) (o : Op) (s : Spool) : Prop :=
  match o with
  | finish r k => r = Server.goneResult ∧ k = jobid ∧
      ∃ p, s.findjob jobid = some p ∧ (p.state = .running ∨ p.state = .pause)
  | delete k => k = jobid ∧ ∃ p, s.findjob jobid = some p ∧ p.state ≠ .running ∧ p.state ≠ .pause
  | notify k => k = jobid
  | _ => False

/-- The operations of `NEWJOB`, apart from the recount. -/
def ofNewjob (socket : ℤ) (m : NewJob) (user : ℕ) (o : Op) (s : Spool) : Prop :=
  match o with
  | send k _ => k = socket
  | fill socket' m' user' _ => socket' = socket ∧ m' = m ∧ user' = user
  | delete jobid => ∃ p, s.findjob jobid = some p ∧ p.state = .holdingClient
  | unnotify socket' => socket' = socket
  | _ => False

/-- The operations of `RECONNECT`. -/
def ofReconnect (socket jobid : ℤ) (user : ℕ) (o : Op) (s : Spool) : Prop :=
  match o with
  | send k _ => k = socket
  | reconnect p _ socket' => p.jobid = jobid ∧ socket' = socket ∧ p.user = some user
  | runjob socket' k => k = jobid ∧ socket' = socket ∧
      ∃ p, s.findjob jobid = some p ∧ p.state = .running ∧ p.pid = 0
  | _ => False

/-- The operations of `REMOVEJOB`. -/
def ofRemove (socket : ℤ) (user : ℕ) (o : Op) : Prop :=
  match o with
  | send k _ => k = socket
  | removeActive p | removeFinished p => user = 0 ∨ p.user = some user
  | _ => False

/-- A lock of the server that is older than `DEFAULT_USER_LOCK_TIME` is dropped. -/
def unlocks (e : Env) (o : Op) (s : Spool) : Prop :=
  match o with
  | settings l _ env dir b => l = none ∧ env = s.environment ∧ dir = s.logdir ∧
      b = s.cpu.disabled ∧ 30 < e.now - s.lockerTime
  | _ => False

end Op

namespace Server

/-- The operations of a message. -/
def Answers (e : Env) (s : Server) (index : ℕ) (m : Msg) (o : Op) (sp : Spool) : Prop :=
  let c := s.clientCs index
  match m with
  | .newjob m => o.ofUsage e sp ∨ o.ofNewjob c.socket m c.user sp ∨ o.unlocks e sp
  | .runjobOk oname pid => o = .runjobOk c.jobid oname pid
  | .endjob r => o = .finish r c.jobid ∨ o = .notify c.jobid ∨ ∃ r', o = .send c.socket r'
  | .reconnect jobid _ => o.ofReconnect c.socket jobid c.user sp
  | .removejob _ => o.ofRemove c.socket c.user
  | .killAll _ _ => (∃ r', o = .send c.socket r') ∨ o.ofUsage e sp ∨ (∃ socket, o = .unnotify socket) ∨
      (∃ k : ℕ, (k : ℤ) < s.nconnections ∧ (s.clientCs k).hasjob ∧ o.ofClean (s.clientCs k).jobid sp) ∨
      ∃ k : ℕ, index ≤ k ∧ (k : ℤ) < s.nconnections ∧ (s.clientCs k).hasjob ∧
        o = .delete (s.clientCs k).jobid
  | .killServer => False
  | .request r => o.ofAnswer e c.socket c.user r sp ∨ r.closes ∧ c.hasjob ∧ o = .delete c.jobid
  | .unknown => c.hasjob ∧ o.ofClean c.jobid sp ∨ c.hasjob = false ∧ o = .unnotify c.socket

/-- The operations of a step. -/
def Performs (e : Env) (s : Server) (i : Input) (o : Op) (sp : Spool) : Prop :=
  match i with
  | .message index m => o.unlocks e sp ∨ s.Answers e index m o sp
  | .disconnect index =>
    let c := s.clientCs index
    c.hasjob ∧ o.ofClean c.jobid sp ∨ c.hasjob = false ∧ o = .unnotify c.socket
  | .health => ∃ jobid, o = .health jobid
  | .cleanup => ∃ jobid p, o = .delete jobid ∧ sp.findjob jobid = some p ∧ p.state = .queued ∧
      p.clientSocket ≤ 0
  | .schedule => o.ofSchedule sp ∨ ∃ p, o = .freeze p
  | .accept socket _ => ∃ r, o = .send socket r
  | .restart => False

variable {e : Env} {s s' : Server} {index : ℕ} {jobid : ℤ} {ok : Op → Spool → Prop}

/-! ### Connections that are closed -/

theorem cleanJob_ops {sp sp' : Spool} (h : cleanJob e sp jobid = .ok sp') :
    Ops e (Op.ofClean jobid) sp sp' := by
  rw [cleanJob] at h
  cases hp : sp.findjob jobid with
  | none =>
    simp only [hp] at h
    cases h
    exact .refl
  | some p =>
    simp only [hp] at h
    split_ifs at h with hstate
    · rw [Except.bind_eq_ok] at h
      obtain ⟨sp₁, h₁, h⟩ := h
      exact Ops.trans (.single (.finish goneResult jobid) trivial ⟨rfl, rfl, p, hp, hstate⟩ h₁)
        (.single (.notify jobid) trivial rfl h)
    · rw [not_or] at hstate
      exact .single (.delete jobid) trivial ⟨rfl, p, hp, hstate⟩ h

theorem clean_ops {socket : ℤ} (h : s.cleanAfterClientDisappeared e socket index = .ok s') :
    Ops e (fun o sp => (s.clientCs index).hasjob ∧ o.ofClean (s.clientCs index).jobid sp ∨
      (s.clientCs index).hasjob = false ∧ o = .unnotify socket) s.toSpool s'.toSpool := by
  obtain ⟨sp, hsp, rfl⟩ := clean_spec h
  split_ifs at hsp with hjob
  · exact (cleanJob_ops hsp).mono fun o sp ho => .inl ⟨hjob, ho⟩
  · rw [hsp]
    exact .single (.unnotify socket) trivial (.inr ⟨by simpa using hjob, rfl⟩) rfl

theorem removeConnection_ops (h : s.removeConnection index = .ok s') :
    Ops e (fun o _ => (s.clientCs index).hasjob ∧ o = .delete (s.clientCs index).jobid) s.toSpool
      s'.toSpool := by
  obtain ⟨sp, hsp, rfl⟩ := removeConnection_spec h
  split_ifs at hsp with hjob
  · exact .single (.delete _) trivial ⟨hjob, rfl⟩ hsp
  · rw [hsp]
    exact .refl

theorem removeQueuesLoop_ops {s₀ : Server} {user fuel i : ℕ} (hder : Derived s₀ s)
    (h : removeQueuesLoop e user fuel i s = .ok s') :
    Ops e (fun o sp => (∃ socket, o = .unnotify socket) ∨
      ∃ k : ℕ, (k : ℤ) < s₀.nconnections ∧ (s₀.clientCs k).hasjob ∧
        o.ofClean (s₀.clientCs k).jobid sp) s.toSpool s'.toSpool := by
  induction fuel generalizing i s with
  | zero =>
    cases h
    exact .refl
  | succ fuel ih =>
    rw [removeQueuesLoop] at h
    split_ifs at h with hi hrem
    · rw [Except.bind_eq_ok] at h
      obtain ⟨s₁, h₁, h⟩ := h
      have hops := clean_ops h₁
      obtain ⟨sp, hsp, rfl⟩ := clean_spec h₁
      obtain ⟨k, -, hk, hid, -, hjob⟩ := hder.2 i (hi.trans_le hder.1)
      refine (hops.mono fun o sp ho => ?_).trans (ih (hder.onSpool sp).modConn.shift h)
      obtain ⟨hj, ho⟩ | ⟨-, rfl⟩ := ho
      · exact .inr ⟨k, hk, hjob hj, hid ▸ ho⟩
      · exact .inl ⟨_, rfl⟩
    · exact ih hder h
    · cases h
      exact .refl

/-! ### The cases of `client_read` -/

theorem sKillAllJobs_ops {sp : Spool} {socket : ℤ} {user : ℕ} (hok : ∀ r s, ok (.send socket r) s) :
    Ops e ok sp (sp.sKillAllJobs socket user) := by
  have hcount : Ops e ok sp (sp.sCountRunningJobs socket user) := Spool.send_ops rfl (hok _ _)
  refine hcount.trans ?_
  exact Except.foldl_induction (R := fun s s' : Spool => Ops e ok s s') (fun _ => .refl)
    (fun h h' => h.trans h') _ fun _ => Spool.send_ops rfl (hok _ _)

theorem killAll_ops {format : ListFormat} (hindex : index < s.nconnections) (hids : s.view.Ids)
    (h : s.killAll e index format jobid = .ok s') :
    Ops e (s.Answers e index (.killAll format jobid)) s.toSpool s'.toSpool := by
  simp only [killAll, Except.bind_eq_ok] at h
  obtain ⟨s₁, h₁, s₂, h₂, h⟩ := h
  have hder₀ : Derived s (s.onSpool fun sp =>
    sp.sKillAllJobs (s.clientCs index).socket (s.clientCs index).user) := Derived.refl
  have hmoves := removeQueuesLoop_ops hder₀ h₁
  obtain ⟨-, hder, -⟩ := removeQueuesLoop_moves hder₀ h₁
  have hclean : Ops e (s.Answers e index (.killAll format jobid)) s.toSpool s₁.toSpool :=
    (sKillAllJobs_ops fun _ _ => .inl ⟨_, rfl⟩).trans (hmoves.mono fun o sp ho =>
      .inr (.inr (ho.imp_right .inl)))
  rw [onSpoolM, Except.map_eq_ok] at h₂
  obtain ⟨sp, hsp, rfl⟩ := h₂
  refine (hclean.trans (Spool.sList_ops (hclean.ids hids) (fun _ _ => .inl ⟨_, rfl⟩)
    (fun _ _ ho => .inr (.inl ho)) hsp)).trans ((removeConnection_ops h).mono fun o sp ho => ?_)
  obtain ⟨hjob, rfl⟩ := ho
  obtain ⟨k, hik, hk, hid, -, hjob'⟩ := hder.2 index hindex
  exact .inr (.inr (.inr (.inr ⟨k, hik, hk, hjob' hjob, by rw [← hid]⟩)))

theorem sCheckLocker_ops (sp : Spool) (user : ℕ) (hok : ∀ o s, Op.unlocks e o s → ok o s) :
    Ops e ok sp (sp.sCheckLocker e user).1 := by
  rw [Spool.sCheckLocker]
  dsimp only
  split_ifs with hold
  · exact .single (.settings none sp.lockerTime sp.environment sp.logdir sp.cpu.disabled) trivial
      (hok _ _ ⟨rfl, rfl, rfl, rfl, hold.2⟩) rfl
  · exact .refl

theorem timeoutLock_ops {sp : Spool} (hok : ∀ o s, Op.unlocks e o s → ok o s) :
    Ops e ok sp (sp.timeoutLock e) := by
  rw [Spool.timeoutLock]
  split
  · exact .refl
  · rename_i u hu
    have hlimit : (30 : ℤ) ≤ if (sp.users u).uid = 0 then 86400 else 30 := by
      split_ifs <;> decide
    generalize (if (sp.users u).uid = 0 then (86400 : ℤ) else 30) = limit at hlimit ⊢
    split_ifs with hold
    · exact .single (.settings none sp.lockerTime sp.environment sp.logdir sp.cpu.disabled) trivial
        (hok _ _ ⟨rfl, rfl, rfl, rfl, hlimit.trans_lt hold⟩) rfl
    · exact .refl

/-- `s_newjob` fills in the job after the recount. -/
theorem sNewjob_cases {sp sp' : Spool} {socket id : ℤ} {m : NewJob} {user : ℕ} (hids : sp.view.Ids)
    (huser : user < sp.nusers) (hsend : ∀ r s, ok (.send socket r) s)
    (hfill : ∀ s₁, sp.sUpdateSlotsUsage e = .ok s₁ → ∀ old,
      (if m.jobid = 0 then none else s₁.findjob m.jobid) = old → ok (.fill socket m user old) s₁)
    (h : sp.sNewjob e socket m user = .ok (sp', id)) :
    ∃ s₁, sp.sUpdateSlotsUsage e = .ok s₁ ∧ Ops e ok s₁ sp' := by
  rw [Spool.sNewjob, Except.bind_eq_ok] at h
  obtain ⟨s₁, h₁, h⟩ := h
  have hn : s₁.nusers = sp.nusers := (Spool.sUpdateSlotsUsage_usage hids h₁).nusers_eq
  have hadd : ∀ {old}, (if m.jobid = 0 then none else s₁.findjob m.jobid) = old →
      (∀ p, old = some p → p.state = .delink ∨ p.state = .wait ∨ p.state = .locked) →
      s₁.newjobFill e socket m user old = .ok (sp', id) → Ops e ok s₁ sp' := by
    intro old hold hstate h
    refine .single (.fill socket m user old) ⟨hn ▸ huser, hold, hstate⟩ (hfill s₁ h₁ old hold) ?_
    rw [Op.run, h]
    rfl
  refine ⟨s₁, h₁, ?_⟩
  split at h
  · rename_i hnone
    exact hadd hnone (by simp) h
  · rename_i p hp
    split_ifs at h with hstate
    · exact hadd hp (fun p' hp' => by rwa [← Option.some.inj hp']) h
    · cases h
      exact Spool.send_ops rfl (hsend _ _)

theorem sNewjob_ops_of {sp sp' : Spool} {socket id : ℤ} {m : NewJob} {user : ℕ} (hids : sp.view.Ids)
    (huser : user < sp.nusers) (husage : ∀ o s, Op.ofUsage e o s → ok o s)
    (hsend : ∀ r s, ok (.send socket r) s)
    (hfill : ∀ s₁, sp.sUpdateSlotsUsage e = .ok s₁ → ∀ old,
      (if m.jobid = 0 then none else s₁.findjob m.jobid) = old → ok (.fill socket m user old) s₁)
    (h : sp.sNewjob e socket m user = .ok (sp', id)) : Ops e ok sp sp' := by
  obtain ⟨s₁, h₁, hfilled⟩ := sNewjob_cases hids huser hsend hfill h
  exact ((Spool.sUpdateSlotsUsage_ops hids h₁).mono husage).trans hfilled

theorem sNewjob_ops {sp sp' : Spool} {socket id : ℤ} {m : NewJob} {user : ℕ} (hids : sp.view.Ids)
    (huser : user < sp.nusers) (h : sp.sNewjob e socket m user = .ok (sp', id)) :
    Ops e (fun o sp => o.ofUsage e sp ∨ o.ofNewjob socket m user sp ∨ o.unlocks e sp) sp sp' :=
  sNewjob_ops_of hids huser (fun _ _ ho => .inl ho) (fun _ _ => .inr (.inl rfl))
    (fun _ _ _ _ => .inr (.inl ⟨rfl, rfl, rfl⟩)) h

/-- The case `NEWJOB` answers after `s_newjob`, unless the server is locked. -/
theorem newjob_answer {m : NewJob} (hids : s.view.Ids) (huser : (s.clientCs index).user < s.nusers)
    (hlock : ∀ o s, Op.unlocks e o s → ok o s)
    (hsend : ∀ r sp, ok (.send (s.clientCs index).socket r) sp)
    (hdelete : ∀ jobid (sp : Spool) p, sp.findjob jobid = some p → p.state = .holdingClient →
      ok (.delete jobid) sp)
    (hunnotify : ∀ sp, ok (.unnotify (s.clientCs index).socket) sp)
    (h : s.newjob e index m = .ok s') : Ops e ok s.toSpool s'.toSpool ∨ ∃ sp sp' id,
      s.toSpool.sCheckLocker e (s.clientCs index).user = (sp, false) ∧ Ops e ok s.toSpool sp ∧
      sp.view.Ids ∧ (s.clientCs index).user < sp.nusers ∧
      sp.sNewjob e (s.clientCs index).socket m (s.clientCs index).user = .ok (sp', id) ∧
      Ops e ok sp' s'.toSpool := by
  rw [newjob] at h
  have hdrop : Ops e ok _ _ := sCheckLocker_ops s.toSpool (s.clientCs index).user hlock
  have hview := Spool.view_sCheckLocker (s := s.toSpool) e (s.clientCs index).user
  revert h hdrop hview
  generalize s.toSpool.sCheckLocker e (s.clientCs index).user = lock
  obtain ⟨sp, locked⟩ := lock
  intro h hdrop hview
  dsimp only at h
  by_cases hl : locked
  · rw [if_pos hl] at h
    cases h
    exact .inl hdrop
  · rw [if_neg hl, Except.bind_eq_ok] at h
    obtain ⟨⟨sp₁, jobid⟩, h₁, h⟩ := h
    have hnusers : sp.nusers = s.nusers := congrArg (fun v : View => v.nusers) hview
    have hnok : Ops e ok sp₁ (sp₁.send (s.clientCs index).socket .newjobNok) :=
      Spool.send_ops rfl (hsend _ _)
    refine .inr ⟨sp, sp₁, jobid, ?_, hdrop, hview ▸ hids, hnusers ▸ huser, h₁, ?_⟩
    · rw [Bool.not_eq_true] at hl
      rw [hl]
    dsimp only at h
    by_cases hid : jobid = -1
    · rw [if_pos hid] at h
      refine hnok.trans ((clean_ops h).mono fun o sp ho => ?_)
      obtain ⟨hjob, -⟩ | ⟨-, rfl⟩ := ho
      · simp [modConn] at hjob
      · exact hunnotify sp
    · rw [if_neg hid] at h
      have hjob : ({ s with toSpool := sp₁ }.modConn index fun c =>
        { c with jobid := jobid, hasjob := true }).findjob jobid = sp₁.findjob jobid := rfl
      rw [hjob] at h
      -- only here the answer touches the queue: the job of a refused client is deleted
      by_cases hhold : sp₁.findjob jobid |>.any fun p => p.state = .holdingClient
      · rw [if_pos hhold] at h
        split_ifs at h with hwait
        · cases h
          exact .refl
        · obtain ⟨sp₂, hsp, rfl⟩ := clean_spec h
          rw [if_pos (by simp [modConn, onSpool])] at hsp
          simp only [modConn, onSpool, Function.update_self] at hsp
          rw [Option.any_eq_true] at hhold
          obtain ⟨p, hp, hstate⟩ := hhold
          have hstate' : p.state = .holdingClient := by simpa using hstate
          have hfind : (sp₁.send (s.clientCs index).socket .newjobNok).findjob jobid = some p := hp
          rw [cleanJob] at hsp
          simp only [hfind, hstate', reduceCtorEq, or_self, if_false] at hsp
          exact hnok.trans (.single (.delete jobid) trivial (hdelete jobid _ p hfind hstate') hsp)
      · rw [if_neg hhold] at h
        cases h
        exact Spool.send_ops rfl (hsend _ _)

theorem newjob_ops_of {m : NewJob} (hids : s.view.Ids) (huser : (s.clientCs index).user < s.nusers)
    (hlock : ∀ o s, Op.unlocks e o s → ok o s)
    (hsend : ∀ r sp, ok (.send (s.clientCs index).socket r) sp)
    (hdelete : ∀ jobid (sp : Spool) p, sp.findjob jobid = some p → p.state = .holdingClient →
      ok (.delete jobid) sp)
    (hunnotify : ∀ sp, ok (.unnotify (s.clientCs index).socket) sp)
    (hnew : ∀ sp sp' id, s.toSpool.sCheckLocker e (s.clientCs index).user = (sp, false) →
      sp.view.Ids → (s.clientCs index).user < sp.nusers →
      sp.sNewjob e (s.clientCs index).socket m (s.clientCs index).user = .ok (sp', id) →
      Ops e ok sp sp')
    (h : s.newjob e index m = .ok s') : Ops e ok s.toSpool s'.toSpool := by
  obtain hlocked | ⟨sp, sp', id, hlocker, hdrop, hids, huser, hsp, hanswer⟩ :=
    newjob_answer hids huser hlock hsend hdelete hunnotify h
  · exact hlocked
  · exact (hdrop.trans (hnew sp sp' id hlocker hids huser hsp)).trans hanswer

theorem newjob_ops {m : NewJob} (hids : s.view.Ids) (huser : (s.clientCs index).user < s.nusers)
    (h : s.newjob e index m = .ok s') :
    Ops e (s.Answers e index (.newjob m)) s.toSpool s'.toSpool :=
  newjob_ops_of hids huser (fun _ _ ho => .inr (.inr ho)) (fun _ _ => .inr (.inl rfl))
    (fun _ _ p hp hst => .inr (.inl ⟨p, hp, hst⟩)) (fun _ => .inr (.inl rfl))
    (fun _ _ _ _ hids huser h => sNewjob_ops hids huser h) h

theorem findjob_reconnected {q : Queue} {p x : Job} {st : Jobstate} {socket : ℤ}
    (hp : q.getJob p.jobid = some p)
    (hx : (q.modAnyJob p.jobid (Job.reconnected st socket)).findjob p.jobid = some x) :
    x.state = st ∧ x.pid = p.pid := by
  rw [Queue.modAnyJob] at hx
  split_ifs at hx with hsome
  · rw [Queue.findjob_modJob (f := Job.reconnected st socket) fun _ h => h, if_pos rfl] at hx
    rw [Queue.getJob, Option.or_of_isSome hsome] at hp
    rw [hp] at hx
    cases hx
    exact ⟨rfl, rfl⟩
  · have hnone : q.findjob p.jobid = some x := hx
    rw [hnone] at hsome
    exact absurd rfl hsome

theorem reconnect_ops {pid : ℤ} (h : s.reconnect index jobid pid = .ok s') :
    Ops e (s.Answers e index (.reconnect jobid pid)) s.toSpool s'.toSpool := by
  have hrefuse : Ops e (s.Answers e index (.reconnect jobid pid)) s.toSpool
      (s.send (s.clientCs index).socket (.errorInfo "")) := Spool.send_ops rfl rfl
  rw [reconnect] at h
  dsimp only at h
  split at h
  · cases h
    exact hrefuse
  · rename_i p hp
    split at h
    · cases h
      exact hrefuse
    · split at h
      · rename_i hmay
        split at h
        · cases h
          exact hrefuse
        · obtain rfl := Spool.getJob_jobid hp
          have hre : Ops e (s.Answers e index (.reconnect p.jobid pid)) s.toSpool
              ((s.onQueue fun q => q.modAnyJob p.jobid (Job.reconnected
                (if p.state = .delink then .running else p.state) (s.clientCs index).socket)).send
                (s.clientCs index).socket (.reconnectOk p.jobid)) :=
            Ops.trans (.single (.reconnect p _ _) ⟨hp, hmay.1, rfl⟩ ⟨rfl, rfl, hmay.2⟩ rfl)
              (Spool.send_ops rfl rfl)
          generalize (if p.state = .delink then Jobstate.running else p.state) = st at h hre
          split_ifs at h with hrun
          · rw [onSpoolM, Except.map_eq_ok] at h
            obtain ⟨sp, hsp, rfl⟩ := h
            obtain ⟨x, hx, -⟩ := Spool.sSendRunjob_spec hsp
            obtain ⟨hst, hpid⟩ := findjob_reconnected hp hx
            exact hre.trans (.single (.runjob _ _) trivial
              ⟨rfl, rfl, x, hx, hst.trans hrun.1, hpid.trans hrun.2⟩ hsp)
          · cases h
            exact hre
      · cases h
        exact hrefuse

theorem endjob_ops {r : Result} (h : s.endjob e index r = .ok s') :
    Ops e (s.Answers e index (.endjob r)) s.toSpool s'.toSpool := by
  simp only [endjob, Except.bind_eq_ok] at h
  obtain ⟨s₁, h₁, s₂, h₂, h⟩ := h
  cases h
  rw [onSpoolM, Except.map_eq_ok] at h₁ h₂
  obtain ⟨sp₁, hsp₁, rfl⟩ := h₁
  obtain ⟨sp₂, hsp₂, rfl⟩ := h₂
  exact (Ops.trans (.single (.finish r _) trivial (.inl rfl) hsp₁)
    (.single (.notify _) trivial (.inr (.inl rfl)) hsp₂)).trans
    (Spool.send_ops rfl (.inr (.inr ⟨_, rfl⟩)))

theorem toSpool_removeCarriersLoop {fuel i : ℕ} :
    (removeCarriersLoop jobid fuel i s).toSpool = s.toSpool := by
  induction fuel generalizing i s with
  | zero => rfl
  | succ fuel ih =>
    rw [removeCarriersLoop]
    split_ifs
    · exact ih
    · exact ih
    · rfl

theorem sRemoveJob_ops {sp sp' : Spool} {socket : ℤ} {user : ℕ} {removed : Option ℤ}
    (hids : sp.view.Ids) (h : sp.sRemoveJob e socket jobid user = .ok (sp', removed)) :
    Ops e (fun o _ => o.ofRemove socket user) sp sp' := by
  have hrefuse : ∀ text, Ops e (fun o _ => Op.ofRemove socket user o) sp (sp.sSendRemovejobNok socket text) :=
    fun _ => Spool.send_ops rfl rfl
  rw [Spool.sRemoveJob] at h
  dsimp only at h
  split at h
  · cases h
    exact hrefuse _
  · rename_i p hp
    split at h
    · cases h
      exact hrefuse _
    · rename_i howner
      have howner' : user = 0 ∨ p.user = some user := by tauto
      split at h
      · cases h
        exact hrefuse _
      · rename_i hno
        obtain hfind | ⟨hnone, hmem⟩ := Spool.namedJob_cases hids hp
        · rw [hfind, Option.isSome_some, if_pos rfl, Except.bind_eq_ok] at h
          obtain ⟨s₁, h₁, h⟩ := h
          cases h
          exact Ops.trans (.single (.removeActive p) ⟨hfind, Spool.removeRefusal_none hno⟩ howner' h₁)
            (Spool.send_ops (r := .removejobOk) rfl rfl)
        · rw [hnone, Option.isSome_none, if_neg (by simp), Except.bind_eq_ok] at h
          obtain ⟨s₁, h₁, h⟩ := h
          cases h
          exact Ops.trans (.single (.removeFinished p) ⟨hmem, hnone⟩ howner' h₁)
            (Spool.send_ops (r := .removejobOk) rfl rfl)

theorem removejob_ops (hids : s.view.Ids) (h : s.removejob e index jobid = .ok s') :
    Ops e (s.Answers e index (.removejob jobid)) s.toSpool s'.toSpool := by
  rw [removejob, Except.bind_eq_ok] at h
  obtain ⟨⟨sp, removed⟩, hsp, h⟩ := h
  have hops := sRemoveJob_ops hids hsp
  cases removed with
  | none =>
    cases h
    exact hops
  | some jobid =>
    cases h
    rw [toSpool_removeCarriersLoop]
    exact hops

theorem handleRequest_ops_of {r : Request}
    (hdelete : r.closes → (s.clientCs index).hasjob → ∀ sp, ok (.delete (s.clientCs index).jobid) sp)
    (hans : ∀ sp, s.toSpool.answer e (s.clientCs index).socket (s.clientCs index).user r = .ok sp →
      Ops e ok s.toSpool sp)
    (h : s.handleRequest e index r = .ok s') : Ops e ok s.toSpool s'.toSpool := by
  rw [handleRequest, Except.bind_eq_ok] at h
  obtain ⟨s₁, h₁, h⟩ := h
  rw [onSpoolM, Except.map_eq_ok] at h₁
  obtain ⟨sp, hsp, rfl⟩ := h₁
  split_ifs at h with hclose
  · refine (hans sp hsp).trans ((removeConnection_ops h).mono fun o sp ho => ?_)
    obtain ⟨hjob, rfl⟩ := ho
    exact hdelete hclose hjob sp
  · cases h
    exact hans sp hsp

theorem handleRequest_ops {r : Request} (hids : s.view.Ids)
    (h : s.handleRequest e index r = .ok s') :
    Ops e (s.Answers e index (.request r)) s.toSpool s'.toSpool :=
  handleRequest_ops_of (fun hclose hjob _ => .inr ⟨hclose, hjob, rfl⟩)
    (fun _ hsp => (Spool.answer_ops hids hsp).mono fun _ _ ho => .inl ho) h

/-- What `client_read` does with a message is a sequence of operations. -/
theorem handle_ops {m : Msg} (hs : s.Sound) (hindex : index < s.nconnections)
    (h : s.handle e index m = .ok s') : Ops e (s.Answers e index m) s.toSpool s'.toSpool := by
  cases m with
  | newjob m => exact newjob_ops hs.ids (hs.users index hindex) h
  | runjobOk oname pid =>
    rw [handle] at h
    split_ifs at h with hpid
    · rw [onSpoolM, Except.map_eq_ok] at h
      obtain ⟨sp, hsp, rfl⟩ := h
      exact .single (.runjobOk _ oname pid) hpid rfl hsp
    · cases h
      exact .refl
  | endjob r => exact endjob_ops h
  | reconnect jobid pid => exact reconnect_ops h
  | removejob jobid => exact removejob_ops hs.ids h
  | killAll format jobid => exact killAll_ops hindex hs.ids h
  | killServer =>
    cases h
    refine .of_eq ?_
    split_ifs <;> rfl
  | request r => exact handleRequest_ops hs.ids h
  | unknown => exact clean_ops h

/-! ### The steps -/

theorem sCheckHoldon_ops {sp : Spool} (hok : ∀ p s, ok (.freeze p) s) :
    Ops e ok sp (sp.sCheckHoldon e) :=
  Except.foldl_induction (R := fun s s' : Spool => Ops e ok s s') (fun _ => .refl)
    (fun h h' => h.trans h') sp fun {s p} _ => by
      split_ifs
      · exact .single (.freeze p) trivial (hok p _) rfl
      · exact .refl

theorem cleanup_ops {sp sp' : Spool} (hids : sp.view.Ids) (h : sp.sCleanupOrphanQueued = .ok sp') :
    Ops e (s.Performs e .cleanup) sp sp' := by
  refine (Except.foldlM_induction (R := fun sp₁ sp₂ : Spool => sp₁.activeJobs ⊆ sp.activeJobs →
    Ops e (s.Performs e .cleanup) sp₁ sp₂ ∧ sp₂.activeJobs ⊆ sp.activeJobs)
    (fun _ h => ⟨.refl, h⟩) (fun h h' hsub => ?_) (fun {sp₁ sp₂ jobid} hmem h hsub => ?_) h
    (List.Subset.refl _)).1
  · obtain ⟨hm, hsub⟩ := h hsub
    obtain ⟨hm', hsub'⟩ := h' hsub
    exact ⟨hm.trans hm', hsub'⟩
  · obtain ⟨p, hp, -⟩ := Spool.sDeleteJob_spec h
    rw [List.mem_reverse, List.mem_map] at hmem
    obtain ⟨x, hx, hxid⟩ := hmem
    rw [List.mem_filter, decide_eq_true_eq] at hx
    -- the job has not changed since it was found
    have hpx : p = x := Keyed.eq_of_key (Spool.nodup_of_ids hids) (hsub (Keyed.mem_of_lookup hp)) hx.1
      ((Spool.findjob_jobid hp).trans hxid.symm)
    subst hpx
    exact ⟨.single (.delete jobid) trivial ⟨jobid, p, rfl, hp, hx.2⟩ h,
      List.Subset.trans (sDeleteJob_subset h) hsub⟩

theorem Answers.congr {r : Server} {m : Msg} {o : Op} {sp : Spool}
    (hc : r.clientCs = s.clientCs) (hn : r.nconnections = s.nconnections)
    (h : r.Answers e index m o sp) : s.Answers e index m o sp := by
  unfold Answers at h ⊢
  rw [hc, hn] at h
  exact h

/-- **A step of the server is a sequence of operations.** -/
theorem step_ops {i : Input} (hs : s.Sound) (hen : s.Enabled i) (hi : i ≠ .restart)
    (h : s.step e i = .ok s') : Ops e (s.Performs e i) s.toSpool s'.toSpool := by
  cases i with
  | accept socket uid =>
    obtain ⟨-, rfl⟩ := accept_spec h
    rw [enter]
    cases s.findUserByUid uid with
    | none => exact Spool.send_ops rfl ⟨_, rfl⟩
    | some u => exact .refl
  | message index m =>
    rw [step, clientRead] at h
    have hlock : Ops e (s.Performs e (.message index m)) s.toSpool (s.toSpool.timeoutLock e) :=
      timeoutLock_ops fun _ _ ho => .inl ho
    refine hlock.trans ((handle_ops hs.timeoutLock hen h).mono fun o sp ho => .inr ?_)
    exact Answers.congr (r := s.onSpool fun sp => sp.timeoutLock e) rfl rfl ho
  | disconnect index => exact clean_ops h
  | health =>
    cases h
    exact Except.foldl_induction (R := fun s₁ s₂ : Spool => Ops e (s.Performs e .health) s₁ s₂)
      (fun _ => .refl) (fun h h' => h.trans h') _
      fun {sp jobid} _ => .single (.health jobid) trivial ⟨jobid, rfl⟩ rfl
  | cleanup =>
    rw [step, onSpoolM, Except.map_eq_ok] at h
    obtain ⟨sp, hsp, rfl⟩ := h
    exact cleanup_ops hs.ids hsp
  | schedule =>
    rw [step, Except.bind_eq_ok] at h
    obtain ⟨s₁, h₁, h⟩ := h
    rw [onSpoolM, Except.map_eq_ok] at h₁
    obtain ⟨sp, hsp, rfl⟩ := h₁
    cases h
    exact ((Spool.nextRunJob_ops hs.ids hsp).mono fun o _ ho => .inl ho).trans
      (sCheckHoldon_ops fun p _ => .inr ⟨p, rfl⟩)
  | restart => exact absurd rfl hi

end Server

end TaskSpooler
