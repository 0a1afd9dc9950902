import TaskSpooler.Sched.Answer

/-!
# The moves of the server loop

`Server.step_course` takes a step of the server apart: whatever happens to the queue is one of the
moves that `Server.Does` lists for the input, or a recount.  A restart is not a step of this kind.

`Server.Sound` is what every step keeps without any condition: job ids are distinct, and the
connections belong to known users.
-/

namespace TaskSpooler

/-! ### Giving up the job of a connection -/

namespace Act

/-- The moves of `clean_after_client_disappeared` for the job of a connection. -/
def ofClean (jobid : ℤ) : Act → Prop
  | finish r p _ _ => r = Server.goneResult ∧ p.jobid = jobid ∧
      (p.state = .running ∨ p.state = .pause)
  | delete p => p.jobid = jobid ∧ p.state ≠ .running ∧ p.state ≠ .pause
  | forget _ => True
  | _ => False

end Act

namespace Server

variable {e : Env} {s s' : Server} {index : ℕ} {jobid : ℤ} {K : View → Prop}

theorem cleanJob_moves {sp sp' : Spool} (h : cleanJob e sp jobid = .ok sp') :
    Moves (fun a _ => a.ofClean jobid) sp.view sp'.view := by
  rw [cleanJob] at h
  cases hp : sp.findjob jobid with
  | none =>
    simp only [hp] at h
    cases h
    exact .refl
  | some p =>
    simp only [hp] at h
    have hid := Spool.findjob_jobid hp
    split_ifs at h with hstate
    · rw [Except.bind_eq_ok] at h
      obtain ⟨sp₁, h₁, h⟩ := h
      obtain ⟨p₁, p', hp₁, -, hg, hv⟩ := Spool.jobFinished_spec h₁
      obtain rfl : p = p₁ := Option.some.inj (hp.symm.trans hp₁)
      refine Moves.trans (.single _ hg ⟨rfl, hid, hstate⟩ hv) (Spool.checkNotifyList_moves _ ?_ h)
      intro a _ ha
      cases a with
      | forget l => trivial
      | _ => exact ha.elim
    · obtain ⟨p₁, hp₁, hv⟩ := Spool.sDeleteJob_spec h
      obtain rfl : p = p₁ := Option.some.inj (hp.symm.trans hp₁)
      rw [not_or] at hstate
      exact .single (.delete p) (Spool.view_has_of_findjob hp) ⟨hid, hstate⟩ hv

/-! ### Closing connections -/

/-- **`remove_connection`**: the job of the connection is deleted, and the table closes up. -/
theorem removeConnection_spec (h : s.removeConnection index = .ok s') :
    ∃ sp, (if (s.clientCs index).hasjob then s.sDeleteJob (s.clientCs index).jobid = .ok sp
      else sp = s.toSpool) ∧ s' = { s with toSpool := sp }.shift index := by
  rw [removeConnection] at h
  split_ifs at h with hjob
  · rw [Except.bind_eq_ok] at h
    obtain ⟨s₁, h₁, h⟩ := h
    cases h
    rw [onSpoolM, Except.map_eq_ok] at h₁
    obtain ⟨sp, hsp, rfl⟩ := h₁
    exact ⟨sp, by rw [if_pos hjob]; exact hsp, rfl⟩
  · cases h
    exact ⟨s.toSpool, by rw [if_neg hjob], rfl⟩

/-- **`clean_after_client_disappeared`**: the job of the connection is finished or deleted, and the
table closes up. -/
theorem clean_spec {socket : ℤ} (h : s.cleanAfterClientDisappeared e socket index = .ok s') :
    ∃ sp, (if (s.clientCs index).hasjob then
        cleanJob e s.toSpool (s.clientCs index).jobid = .ok sp
      else sp = s.toSpool.sRemoveNotification socket) ∧
      s' = ({ s with toSpool := sp }.modConn index fun c => { c with hasjob := false }).shift
        index := by
  have hclosed : ∀ {s s' : Server}, (s.clientCs index).hasjob = false →
      s.removeConnection index = .ok s' → s' = s.shift index := by
    intro s s' hjob h
    obtain ⟨sp, hsp, rfl⟩ := removeConnection_spec h
    rw [hjob, if_neg (by simp)] at hsp
    rw [hsp]
  rw [cleanAfterClientDisappeared] at h
  by_cases hjob : (s.clientCs index).hasjob
  · rw [if_pos hjob] at h
    simp only [Except.bind_eq_ok] at h
    obtain ⟨s₁, h₁, s₂, h₂, h⟩ := h
    cases h₂
    rw [onSpoolM, Except.map_eq_ok] at h₁
    obtain ⟨sp, hsp, rfl⟩ := h₁
    refine ⟨sp, by rw [if_pos hjob]; exact hsp, hclosed ?_ h⟩
    simp [modConn]
  · rw [if_neg hjob] at h
    rw [Bool.not_eq_true] at hjob
    have hself : { s.clientCs index with hasjob := false } = s.clientCs index := by
      rw [← hjob]
    refine ⟨s.toSpool.sRemoveNotification socket, by simp [hjob], ?_⟩
    rw [hclosed (s := s.onSpool fun sp => sp.sRemoveNotification socket) hjob h, modConn]
    simp only [hself, Function.update_eq_self]
    rfl

theorem removeConnection_moves (h : s.removeConnection index = .ok s') :
    Moves (fun a _ => ∃ p, a = .delete p ∧ (s.clientCs index).hasjob ∧
      p.jobid = (s.clientCs index).jobid) s.view s'.view := by
  obtain ⟨sp, hsp, rfl⟩ := removeConnection_spec h
  split_ifs at hsp with hjob
  · obtain ⟨p, hp, hv⟩ := Spool.sDeleteJob_spec hsp
    exact .single (.delete p) (Spool.view_has_of_findjob hp)
      ⟨p, rfl, hjob, Spool.findjob_jobid hp⟩ hv
  · rw [hsp]
    exact .refl

theorem clean_moves {socket : ℤ} (h : s.cleanAfterClientDisappeared e socket index = .ok s') :
    Moves (fun a _ => (s.clientCs index).hasjob ∧ a.ofClean (s.clientCs index).jobid) s.view
      s'.view := by
  obtain ⟨sp, hsp, rfl⟩ := clean_spec h
  split_ifs at hsp with hjob
  · exact (cleanJob_moves hsp).mono fun _ _ ha => ⟨hjob, ha⟩
  · rw [hsp]
    exact .refl

theorem noLater_clean {socket : ℤ} (h : s.cleanAfterClientDisappeared e socket index = .ok s') :
    Spool.NoLater e s.toSpool s'.toSpool := by
  obtain ⟨sp, hsp, rfl⟩ := clean_spec h
  show Spool.NoLater e s.toSpool sp
  split_ifs at hsp
  · rw [cleanJob] at hsp
    split at hsp
    · cases hsp
      exact .refl
    · split_ifs at hsp
      · rw [Except.bind_eq_ok] at hsp
        obtain ⟨sp₁, h₁, hsp⟩ := hsp
        exact (Spool.noLater_jobFinished h₁).trans (Spool.noLater_checkNotifyList hsp)
      · exact Spool.noLater_sDeleteJob hsp
  · rw [hsp]
    exact .of_eq rfl

/-! ### The loop of `KILL_ALL` -/

/-- The entries of the table come from entries of an earlier one, at the same place or behind it,
and may have lost their job. -/
def Derived (s₀ s : Server) : Prop :=
  s.nconnections ≤ s₀.nconnections ∧
  ∀ j : ℕ, (j : ℤ) < s₀.nconnections → ∃ k : ℕ, j ≤ k ∧ (k : ℤ) < s₀.nconnections ∧
    (s.clientCs j).jobid = (s₀.clientCs k).jobid ∧ (s.clientCs j).user = (s₀.clientCs k).user ∧
    ((s.clientCs j).hasjob → (s₀.clientCs k).hasjob)

theorem Derived.refl : Derived s s := ⟨le_refl _, fun j hj => ⟨j, le_refl _, hj, rfl, rfl, id⟩⟩

theorem Derived.modConn {s₀ : Server} (h : Derived s₀ s) :
    Derived s₀ (s.modConn index fun c => { c with hasjob := false }) := by
  refine ⟨h.1, fun j hj => ?_⟩
  obtain ⟨k, hjk, hk, hid, huser, hjob⟩ := h.2 j hj
  refine ⟨k, hjk, hk, ?_⟩
  by_cases hji : j = index
  · subst hji
    simp only [Server.modConn, Function.update_self]
    exact ⟨hid, huser, by simp⟩
  · simp only [Server.modConn, Function.update_of_ne hji]
    exact ⟨hid, huser, hjob⟩

theorem Derived.shift {s₀ : Server} (h : Derived s₀ s) : Derived s₀ (s.shift index) := by
  refine ⟨(sub_le_self _ zero_le_one).trans h.1, fun j hj => ?_⟩
  simp only [Server.shift]
  split_ifs with hcase
  · have hle := h.1
    obtain ⟨k, hjk, hk⟩ := h.2 (j + 1) (by push_cast; omega)
    exact ⟨k, by omega, hk⟩
  · exact h.2 j hj

theorem Derived.onSpool {s₀ : Server} (h : Derived s₀ s) (sp : Spool) :
    Derived s₀ { s with toSpool := sp } := h

theorem removeQueuesLoop_moves {s₀ : Server} {user fuel i : ℕ} (hder : Derived s₀ s)
    (h : removeQueuesLoop e user fuel i s = .ok s') :
    Moves (fun a _ => ∃ k : ℕ, (k : ℤ) < s₀.nconnections ∧ (s₀.clientCs k).hasjob ∧
      a.ofClean (s₀.clientCs k).jobid) s.view s'.view ∧ Derived s₀ s' ∧
      Spool.NoLater e s.toSpool s'.toSpool := by
  induction fuel generalizing i s with
  | zero =>
    cases h
    exact ⟨.refl, hder, .refl⟩
  | succ fuel ih =>
    rw [removeQueuesLoop] at h
    split_ifs at h with hi hrem
    · rw [Except.bind_eq_ok] at h
      obtain ⟨s₁, h₁, h⟩ := h
      have hmoves := clean_moves h₁
      have hlate := noLater_clean h₁
      obtain ⟨sp, hsp, rfl⟩ := clean_spec h₁
      obtain ⟨hrest, hder', hlate'⟩ := ih (hder.onSpool sp).modConn.shift h
      obtain ⟨k, -, hk, hid, -, hjob⟩ := hder.2 i (hi.trans_le hder.1)
      refine ⟨(hmoves.mono fun a _ ha => ⟨k, hk, hjob ha.1, ?_⟩).trans hrest, hder',
        hlate.trans hlate'⟩
      exact hid ▸ ha.2
    · exact ih hder h
    · cases h
      exact ⟨.refl, hder, .refl⟩

/-! ### The moves of a step -/

/-- The moves of a step, apart from the recounts. -/
def Does (K : View → Prop) (e : Env) (s : Server) (i : Input) (a : Act) (v : View) : Prop :=
  match i with
  | .message index m =>
    let c := s.clientCs index
    match m with
    | .newjob m => (∃ next id, a.ofNewjob c.socket m c.user next id) ∨
        ∃ p, a = .delete p ∧ p.state = .holdingClient ∧ (m.jobid = 0 → v.jobids = p.jobid + 1)
    | .runjobOk _ pid => ∃ p, a = .pid p pid ∧ p.jobid = c.jobid
    | .endjob r => (∃ p p' max, a = .finish r p p' max ∧ p.jobid = c.jobid) ∨ ∃ l, a = .forget l
    | .reconnect jobid _ => ∃ p st, a = .reconnect p st c.socket ∧ p.jobid = jobid ∧
        p.user = some c.user
    | .removejob jobid => ∃ p, s.namedJob jobid = some p ∧ a.ofRemove p
    | .killAll _ _ =>
      (∃ k : ℕ, (k : ℤ) < s.nconnections ∧ (s.clientCs k).hasjob ∧ a.ofClean (s.clientCs k).jobid) ∨
        ∃ p, a = .delete p ∧ ∃ k : ℕ, index ≤ k ∧ (k : ℤ) < s.nconnections ∧
          (s.clientCs k).hasjob ∧ p.jobid = (s.clientCs k).jobid
    | .killServer => False
    | .request r => a.ofAnswer K e s.toSpool c.user r v ∨
        r.closes ∧ ∃ p, a = .delete p ∧ c.hasjob ∧ p.jobid = c.jobid
    | .unknown => c.hasjob ∧ a.ofClean c.jobid
  | .disconnect index => (s.clientCs index).hasjob ∧ a.ofClean (s.clientCs index).jobid
  | .health => ∃ p, a = .abnormal p
  | .cleanup => ∃ p, a = .delete p ∧ p.state = .queued ∧ p.clientSocket ≤ 0
  | .schedule => a.ofSchedule e
  | .accept _ _ | .restart => False

/-- The jobs that a step may relegate because they ran too long. -/
def StepLate (e : Env) (s : Server) : Input → Job → Prop
  | .message _ (.request r) => s.AnswerLate e r
  | .message _ (.newjob _) => s.Late e
  | .message _ (.killAll _ _) => s.LaterOn e
  | _ => fun _ => False

/-! ### The cases of `client_read` -/

theorem cleanJob_holding {sp sp' : Spool} {p : Job} (hp : sp.findjob jobid = some p)
    (hstate : p.state = .holdingClient) (h : cleanJob e sp jobid = .ok sp') :
    sp'.view = (Act.delete p).apply sp.view := by
  rw [cleanJob] at h
  simp only [hp, hstate, reduceCtorEq, or_self, if_false] at h
  obtain ⟨p₁, hp₁, hv⟩ := Spool.sDeleteJob_spec h
  obtain rfl : p = p₁ := Option.some.inj (hp.symm.trans hp₁)
  exact hv

/-- The entry of a connection after `NEWJOB`. -/
def setJob (s : Server) (sp : Spool) (index : ℕ) (jobid : ℤ) (hasjob : Bool) : Server :=
  { s with toSpool := sp }.modConn index fun c => { c with jobid := jobid, hasjob := hasjob }

/-- The case `NEWJOB`: it is refused, or the connection gets a job or is closed. -/
theorem newjob_cases {m : NewJob} (h : s.newjob e index m = .ok s') :
    ∃ sp, (∃ locker, sp = { s.toSpool with userLocker := locker }) ∧
      (s' = { s with toSpool := sp } ∨
       ∃ sp₁ jobid, sp.sNewjob e (s.clientCs index).socket m (s.clientCs index).user =
           .ok (sp₁, jobid) ∧ ∃ sp₂,
        (sp₂.view = sp₁.view ∧ jobid = -1 ∧ s' = (s.setJob sp₂ index jobid false).shift index ∨
         (∃ p, sp₁.findjob jobid = some p ∧ p.state = .holdingClient ∧
           sp₂.view = (Act.delete p).apply sp₁.view) ∧ jobid ≠ -1 ∧
           s' = (s.setJob sp₂ index jobid false).shift index ∨
         sp₂.view = sp₁.view ∧ jobid ≠ -1 ∧ s' = s.setJob sp₂ index jobid true)) := by
  rw [newjob] at h
  have hlock : ∃ locker, (s.toSpool.sCheckLocker e (s.clientCs index).user).1 =
      { s.toSpool with userLocker := locker } := by
    rw [Spool.sCheckLocker]
    dsimp only
    split_ifs
    · exact ⟨none, rfl⟩
    · exact ⟨s.userLocker, rfl⟩
  revert h hlock
  generalize s.toSpool.sCheckLocker e (s.clientCs index).user = lock
  obtain ⟨sp, locked⟩ := lock
  intro h hlock
  refine ⟨sp, hlock, ?_⟩
  dsimp only at h
  by_cases hl : locked
  · rw [if_pos hl] at h
    cases h
    exact .inl rfl
  · rw [if_neg hl, Except.bind_eq_ok] at h
    obtain ⟨⟨sp₁, jobid⟩, h₁, h⟩ := h
    refine .inr ⟨sp₁, jobid, h₁, ?_⟩
    dsimp only at h
    by_cases hid : jobid = -1
    · rw [if_pos hid] at h
      obtain ⟨sp₂, hsp, rfl⟩ := clean_spec h
      rw [if_neg (by simp [modConn])] at hsp
      refine ⟨sp₂, .inl ⟨by rw [hsp]; rfl, hid, ?_⟩⟩
      simp only [setJob, modConn, onSpool, Function.update_self, Function.update_idem]
    · rw [if_neg hid] at h
      -- without `wait_enqueuing` the client of a held job is refused and the job deleted
      by_cases hhold : sp₁.findjob jobid |>.any fun p => p.state = .holdingClient
      · have hjob : ({ s with toSpool := sp₁ }.modConn index fun c =>
            { c with jobid := jobid, hasjob := true }).findjob jobid = sp₁.findjob jobid := rfl
        rw [hjob, if_pos hhold] at h
        split_ifs at h with hwait
        · cases h
          exact ⟨sp₁, .inr (.inr ⟨rfl, hid, rfl⟩)⟩
        · obtain ⟨sp₂, hsp, rfl⟩ := clean_spec h
          rw [if_pos (by simp [modConn, onSpool])] at hsp
          rw [Option.any_eq_true] at hhold
          obtain ⟨p, hp, hstate⟩ := hhold
          have hstate' : p.state = .holdingClient := by simpa using hstate
          simp only [modConn, onSpool, Function.update_self] at hsp
          have hp' : (sp₁.send (s.clientCs index).socket .newjobNok).findjob jobid = some p := hp
          have hv := cleanJob_holding hp' hstate' hsp
          refine ⟨sp₂, .inr (.inl ⟨⟨p, hp, hstate', hv⟩, hid, ?_⟩)⟩
          simp only [setJob, modConn, onSpool, Function.update_self, Function.update_idem]
      · have hjob : ({ s with toSpool := sp₁ }.modConn index fun c =>
            { c with jobid := jobid, hasjob := true }).findjob jobid = sp₁.findjob jobid := rfl
        rw [hjob, if_neg hhold] at h
        cases h
        exact ⟨_, .inr (.inr ⟨Spool.view_send _ _, hid, rfl⟩)⟩

/-- A job that has just been given its id has the last one. -/
theorem newjob_jobids {socket id : ℤ} {m : NewJob} {user : ℕ} {sp sp₁ : Spool}
    (hm : m.jobid = 0) (hid : id ≠ -1)
    (h : id = -1 ∧ sp₁.view = sp.view ∨ ∃ a : Act, a.Guard sp.view ∧
      a.ofNewjob socket m user sp.jobids id ∧ sp₁.view = a.apply sp.view) :
    sp₁.view.jobids = id + 1 := by
  obtain ⟨h, -⟩ | ⟨a, -, hof, hv⟩ := h
  · exact absurd h hid
  · have hjobids : sp₁.view.jobids = _ :=
      (congrArg (fun v : View => v.jobids) hv).trans (congrArg (fun l => l.2.2) Act.limits_apply)
    rw [hjobids]
    cases a with
    | submit p ds n m' q =>
      obtain ⟨-, rfl, -, -, hnext⟩ := hof
      obtain ⟨h₁, h₂⟩ := hnext hm
      exact h₂.trans (by rw [h₁])
    | jobids n => exact absurd hof hid
    | reuse old p ds m' q => exact absurd hm hof.2.2.2.2.1
    | drop p shelf => exact absurd hof.1 hid
    | _ => exact hof.elim

/-- The case `NEWJOB`: a recount, and then the request itself. -/
theorem newjob_phases {m : NewJob} (hids : s.view.Ids) (huser : (s.clientCs index).user < s.nusers)
    (h : s.newjob e index m = .ok s') :
    ∃ v, (v = s.view ∨ Usage e (s.Late e) s.view v) ∧
      Moves (s.Does K e (.message index (.newjob m))) v s'.view := by
  obtain ⟨sp, ⟨locker, hsp⟩, hcases⟩ := newjob_cases h
  have hlock : sp.view = s.view := by rw [hsp]; rfl
  have hact : sp.activeJobs = s.activeJobs := by rw [hsp]
  obtain rfl | ⟨sp₁, jobid, h₁, sp₂, hrest⟩ := hcases
  · exact ⟨s.view, .inl rfl, .of_eq hlock⟩
  · have huser' : (s.clientCs index).user < sp.nusers := by
      have : sp.nusers = s.nusers := congrArg (fun v : View => v.nusers) hlock
      omega
    obtain ⟨sp₃, -, husage, hact₃⟩ := Spool.sNewjob_spec (hlock ▸ hids) huser' h₁
    rw [hlock] at husage
    refine ⟨sp₃.view, .inr (husage.mono fun p hp => ⟨hact ▸ hp.1, hp.2⟩), ?_⟩
    have hnew : Moves (s.Does K e (.message index (.newjob m))) sp₃.view sp₁.view := by
      obtain ⟨-, hv⟩ | ⟨a, hg, hof, hv⟩ := hact₃
      · exact .of_eq hv
      · exact .single a hg (.inl ⟨_, _, hof⟩) hv
    refine hnew.trans ?_
    obtain ⟨hv, -, rfl⟩ | ⟨⟨p, hp, hstate, hv⟩, hid, rfl⟩ | ⟨hv, -, rfl⟩ := hrest
    · exact .of_eq hv
    · refine .single (.delete p) (Spool.view_has_of_findjob hp) (.inr ⟨p, rfl, hstate, fun hm => ?_⟩) hv
      rw [newjob_jobids hm hid hact₃, Spool.findjob_jobid hp]
    · exact .of_eq hv

theorem newjob_course {m : NewJob} (hids : s.view.Ids) (huser : (s.clientCs index).user < s.nusers)
    (h : s.newjob e index m = .ok s') :
    Course e (s.Late e) (s.Does K e (.message index (.newjob m))) s.view s'.view := by
  obtain ⟨v, rfl | husage, hmoves⟩ := newjob_phases (K := K) hids huser h
  · exact .moves hmoves
  · exact (Course.usage husage).trans (.moves hmoves)

theorem endjob_moves {r : Result} (h : s.endjob e index r = .ok s') :
    Moves (s.Does K e (.message index (.endjob r))) s.view s'.view := by
  simp only [endjob, Except.bind_eq_ok] at h
  obtain ⟨s₁, h₁, s₂, h₂, h⟩ := h
  cases h
  rw [onSpoolM, Except.map_eq_ok] at h₁ h₂
  obtain ⟨sp₁, hsp₁, rfl⟩ := h₁
  obtain ⟨sp₂, hsp₂, rfl⟩ := h₂
  obtain ⟨p, p', hp, -, hg, hv⟩ := Spool.jobFinished_spec hsp₁
  refine Moves.trans (.single _ hg (.inl ⟨p, p', _, rfl, Spool.findjob_jobid hp⟩) hv) ?_
  have hnotify : Moves (s.Does K e (.message index (.endjob r))) sp₁.view sp₂.view := by
    refine Spool.checkNotifyList_moves _ (fun a v ha => ?_) hsp₂
    cases a with
    | forget l => exact .inr ⟨l, rfl⟩
    | _ => exact ha.elim
  exact hnotify

/-- The case `RECONNECT`: it is refused, or the connection takes the job over. -/
theorem reconnect_cases {pid : ℤ} (h : s.reconnect index jobid pid = .ok s') :
    (∃ sp, sp.view = s.view ∧ s' = { s with toSpool := sp }) ∨
    ∃ p st sp, p.jobid = jobid ∧ p.user = some (s.clientCs index).user ∧
      (Act.reconnect p st (s.clientCs index).socket).Guard s.view ∧
      sp.view = (Act.reconnect p st (s.clientCs index).socket).apply s.view ∧
      s' = { s.clearCarriers index jobid with toSpool := sp }.modConn index fun c =>
        { c with hasjob := true, jobid := jobid } := by
  rw [reconnect] at h
  dsimp only at h
  cases hp : s.getJob jobid with
  | none =>
    simp only [hp] at h
    cases h
    exact .inl ⟨_, Spool.view_send _ _, rfl⟩
  | some p =>
    simp only [hp] at h
    have hid : p.jobid = jobid := by
      rw [Queue.getJob, Option.or_eq_some_iff] at hp
      obtain hp | ⟨-, hp⟩ := hp
      · exact Keyed.key_of_lookup hp
      · exact Keyed.key_of_lookup hp
    subst hid
    by_cases hfin : p.state = .finished ∨ p.state = .skipped
    · rw [if_pos hfin] at h
      cases h
      exact .inl ⟨_, Spool.view_send _ _, rfl⟩
    rw [if_neg hfin] at h
    by_cases hmay : mayReconnect p ∧ p.user = some (s.clientCs index).user
    · rw [if_pos hmay] at h
      -- the pid that the client gives must not contradict the one in the record
      by_cases hpid : p.pid ≠ 0 ∧ p.pid ≠ pid ∧ pid ≠ 0
      · rw [if_pos hpid] at h
        cases h
        exact .inl ⟨_, Spool.view_send _ _, rfl⟩
      · rw [if_neg hpid] at h
        have hview : ∀ st, (s.onQueue fun q =>
            q.modAnyJob p.jobid (Job.reconnected st (s.clientCs index).socket)).view =
              (Act.reconnect p st (s.clientCs index).socket).apply s.view :=
          fun st => Spool.view_onQueue (fun q => q.modAnyJob p.jobid
            (Job.reconnected st (s.clientCs index).socket)) (Queue.strip_modAnyJob fun _ => rfl)
        refine .inr ⟨p, if p.state = .delink then .running else p.state, ?_⟩
        have hguard : (Act.reconnect p (if p.state = .delink then .running else p.state)
            (s.clientCs index).socket).Guard s.view :=
          ⟨by rw [Spool.view_getJob, hp, Option.map_some], hmay.1, rfl⟩
        revert h hguard
        generalize (if p.state = .delink then Jobstate.running else p.state) = st
        intro h hguard
        split_ifs at h with hrun
        · rw [onSpoolM, Except.map_eq_ok] at h
          obtain ⟨sp, hsp, rfl⟩ := h
          exact ⟨sp, rfl, hmay.2, hguard, (Spool.sSendRunjob_view hsp).trans (hview _), rfl⟩
        · cases h
          exact ⟨_, rfl, hmay.2, hguard, (Spool.view_send _ _).trans (hview _), rfl⟩
    · rw [if_neg hmay] at h
      cases h
      exact .inl ⟨_, Spool.view_send _ _, rfl⟩

theorem reconnect_moves {pid : ℤ} (h : s.reconnect index jobid pid = .ok s') :
    Moves (s.Does K e (.message index (.reconnect jobid pid))) s.view s'.view := by
  obtain ⟨sp, hv, rfl⟩ | ⟨p, st, sp, hid, huser, hg, hv, rfl⟩ := reconnect_cases h
  · exact .of_eq hv
  · exact .single _ hg ⟨p, st, rfl, hid, huser⟩ hv

theorem removeCarriersLoop_toSpool {fuel i : ℕ} :
    (removeCarriersLoop jobid fuel i s).toSpool = s.toSpool := by
  induction fuel generalizing i s with
  | zero => rfl
  | succ fuel ih =>
    rw [removeCarriersLoop]
    split_ifs
    · rw [ih]
      rfl
    · exact ih
    · rfl

theorem removejob_moves (hids : s.view.Ids) (h : s.removejob e index jobid = .ok s') :
    Moves (s.Does K e (.message index (.removejob jobid))) s.view s'.view := by
  rw [removejob, Except.bind_eq_ok] at h
  obtain ⟨⟨sp, removed⟩, h₁, h⟩ := h
  obtain ⟨rfl, hv⟩ | ⟨p, hp, rfl, hmoves⟩ := Spool.sRemoveJob_spec hids h₁
  · cases h
    exact .of_eq hv
  · cases h
    rw [removeCarriersLoop_toSpool]
    exact hmoves.mono fun a _ ha => ⟨p, hp, ha⟩

theorem view_sKillAllJobs {sp : Spool} {socket : ℤ} {user : ℕ} :
    (sp.sKillAllJobs socket user).view = sp.view := by
  rw [Spool.sKillAllJobs, Spool.view_foldl]
  · rfl
  · exact fun _ _ => rfl

theorem killAll_course {format : ListFormat} (hindex : index < s.nconnections) (hids : s.view.Ids)
    (h : s.killAll e index format jobid = .ok s') :
    Course e (s.LaterOn e) (s.Does K e (.message index (.killAll format jobid))) s.view s'.view := by
  simp only [killAll, Except.bind_eq_ok] at h
  obtain ⟨s₁, h₁, s₂, h₂, h⟩ := h
  have hder₀ : Derived s (s.onSpool fun sp =>
    sp.sKillAllJobs (s.clientCs index).socket (s.clientCs index).user) := Derived.refl
  obtain ⟨hmoves, hder, hlate⟩ := removeQueuesLoop_moves hder₀ h₁
  have hclean : Moves (s.Does K e (.message index (.killAll format jobid))) s.view s₁.view := by
    have hstart : (s.sKillAllJobs (s.clientCs index).socket (s.clientCs index).user).view = s.view :=
      view_sKillAllJobs
    exact Moves.trans (.of_eq hstart) (hmoves.mono fun a _ ha => .inl ha)
  have hlate₀ : Spool.NoLater e s.toSpool s₁.toSpool := by
    refine Spool.NoLater.trans (.of_eq ?_) hlate
    exact Except.foldl_induction (R := fun s s' : Spool => s'.activeJobs = s.activeJobs)
      (fun _ => rfl) (fun h h' => h'.trans h) _ fun _ => rfl
  rw [onSpoolM, Except.map_eq_ok] at h₂
  obtain ⟨sp, hsp, rfl⟩ := h₂
  have husage := Spool.sList_usage (hclean.ids hids) hsp
  refine (Course.moves hclean).trans ((Course.usage (husage.mono fun p hp =>
    ⟨hp.2, hlate₀ ⟨p, hp⟩⟩)).trans (.moves ((removeConnection_moves h).mono fun a _ ha => ?_)))
  obtain ⟨p, rfl, hjob, hid⟩ := ha
  obtain ⟨k, hik, hk, hid', -, hjob'⟩ := hder.2 index hindex
  exact .inr ⟨p, rfl, k, hik, hk, hjob' hjob, hid.trans hid'⟩

theorem handleRequest_course {r : Request} (hids : s.view.Ids)
    (hK : ∀ v, Usage e (s.Late e) s.view v → K v) (h : s.handleRequest e index r = .ok s') :
    Course e (s.AnswerLate e r) (s.Does K e (.message index (.request r))) s.view s'.view := by
  rw [handleRequest, Except.bind_eq_ok] at h
  obtain ⟨s₁, h₁, h⟩ := h
  rw [onSpoolM, Except.map_eq_ok] at h₁
  obtain ⟨sp, hsp, rfl⟩ := h₁
  have hcourse : Course e (s.AnswerLate e r) (s.Does K e (.message index (.request r))) s.view
      sp.view := (Spool.answer_course hids hK hsp).mono fun a v ha => .inl ha
  split_ifs at h with hclose
  · exact hcourse.trans (.moves ((removeConnection_moves h).mono fun a _ ha => .inr ⟨hclose, ha⟩))
  · cases h
    exact hcourse

/-! ### Periodic work -/

theorem freeCores_setState {q : Queue} {p : Job} {st : Jobstate} :
    (q.modJob p.jobid (Job.setState st)).freeCores p =
      (q.freeCores p).modJob p.jobid (Job.setState st) := by
  rw [Queue.freeCores, Queue.freeCores]
  split_ifs
  · rfl
  · have hcomm : Keyed.modify Job.jobid p.jobid Job.freed
        (Keyed.modify Job.jobid p.jobid (Job.setState st) q.activeJobs) =
        Keyed.modify Job.jobid p.jobid (Job.setState st)
          (Keyed.modify Job.jobid p.jobid Job.freed q.activeJobs) := by
      rw [Keyed.modify_modify (c := Job.jobid) (f := Job.freed) (g := Job.setState st)
        fun _ h => h, Keyed.modify_modify (c := Job.jobid) (f := Job.setState st)
        (g := Job.freed) fun _ h => h]
      rfl
    cases p.user <;> simp only [Queue.modUser, Queue.modJob, hcomm]

theorem checkHealth_moves {sp : Spool} {ok : Act → View → Prop}
    (hok : ∀ p v, p.jobid = jobid → ok (.abnormal p) v) :
    Moves ok sp.view (sp.checkHealth e jobid).view := by
  rw [Spool.checkHealth]
  cases hp : sp.findjob jobid with
  | none => exact .refl
  | some p =>
    obtain rfl := Spool.findjob_jobid hp
    dsimp only
    split_ifs with hdue hdead
    · simp only [Spool.healthDue, decide_eq_true_eq] at hdue
      refine .single (.abnormal p) ⟨Spool.view_has hp, hdue.1, hdue.2.2.1⟩ (hok p _ rfl) ?_
      rw [Spool.view_defrag, Spool.view_freeBind, Spool.view_freeCores,
        Spool.view_modJob (g := Job.setState .abnormal) fun _ => rfl]
      simp only [View.onQueue_onQueue, freeCores_setState]
      rfl
    · exact .of_eq (Spool.view_modJob_quiet fun _ => rfl)
    · exact .refl

theorem health_moves {sp : Spool} :
    Moves (s.Does K e .health) sp.view (sp.sCheckRunningHealth e).view :=
  Except.foldl_induction (R := fun sp sp' : Spool => Moves _ sp.view sp'.view) (fun _ => .refl)
    (fun h h' => h.trans h') sp fun _ => checkHealth_moves fun p _ _ => ⟨p, rfl⟩

theorem sDeleteJob_subset {sp sp' : Spool} (h : sp.sDeleteJob jobid = .ok sp') :
    sp'.activeJobs ⊆ sp.activeJobs := by
  rw [Spool.sDeleteJob] at h
  split at h
  · cases h
  · cases h
    exact Keyed.remove_subset

theorem cleanup_moves {sp sp' : Spool} (hids : sp.view.Ids) (h : sp.sCleanupOrphanQueued = .ok sp') :
    Moves (s.Does K e .cleanup) sp.view sp'.view := by
  refine (Except.foldlM_induction (R := fun sp₁ sp₂ : Spool => sp₁.activeJobs ⊆ sp.activeJobs →
    Moves (s.Does K e .cleanup) sp₁.view sp₂.view ∧ sp₂.activeJobs ⊆ sp.activeJobs)
    (fun _ h => ⟨.refl, h⟩) (fun h h' hsub => ?_) (fun {sp₁ sp₂ jobid} hmem h hsub => ?_) h
    (List.Subset.refl _)).1
  · obtain ⟨hm, hsub⟩ := h hsub
    obtain ⟨hm', hsub'⟩ := h' hsub
    exact ⟨hm.trans hm', hsub'⟩
  · obtain ⟨p, hp, hv⟩ := Spool.sDeleteJob_spec h
    rw [List.mem_reverse, List.mem_map] at hmem
    obtain ⟨x, hx, hxid⟩ := hmem
    rw [List.mem_filter, decide_eq_true_eq] at hx
    -- the job has not changed since it was found
    have hpx : p = x := Keyed.eq_of_key (Spool.nodup_of_ids hids) (hsub (Keyed.mem_of_lookup hp)) hx.1
      ((Spool.findjob_jobid hp).trans hxid.symm)
    subst hpx
    exact ⟨.single (.delete p) (Spool.view_has_of_findjob hp) ⟨p, rfl, hx.2⟩ hv,
      List.Subset.trans (sDeleteJob_subset h) hsub⟩

/-! ### A step -/

theorem toQueue_timeoutLock {sp : Spool} : (sp.timeoutLock e).toQueue = sp.toQueue := by
  unfold Spool.timeoutLock
  cases sp.userLocker with
  | none => rfl
  | some u =>
    dsimp only
    split_ifs <;> rfl

theorem Does.congr {r : Server} {i : Input} {a : Act} {v : View} (hq : r.toQueue = s.toQueue)
    (hc : r.clientCs = s.clientCs) (hn : r.nconnections = s.nconnections)
    (h : r.Does K e i a v) : s.Does K e i a v := by
  unfold Does at h ⊢
  rw [hc, hn] at h
  cases i with
  | message index m =>
    cases m with
    | request r => exact h.imp_left fun h => Act.ofAnswer_congr hq ▸ h
    | removejob jobid =>
      obtain ⟨p, hp, ha⟩ := h
      simp only [Spool.namedJob, hq] at hp
      exact ⟨p, hp, ha⟩
    | _ => exact h
  | _ => exact h

theorem StepLate.congr {s₀ : Server} {i : Input} {p : Job} (hq : s₀.toQueue = s.toQueue)
    (h : s₀.StepLate e i p) : s.StepLate e i p := by
  unfold StepLate Spool.AnswerLate Spool.LaterOn Spool.Late at *
  rw [hq] at h
  exact h

/-- What every step keeps: job ids are distinct, and the connections belong to users. -/
structure Sound (s : Server) : Prop where
  ids : s.view.Ids
  users : ∀ i : ℕ, (i : ℤ) < s.nconnections → (s.clientCs i).user < s.nusers

/-- What `client_read` does with a message. -/
theorem handle_course {m : Msg} (hs : s.Sound) (hindex : index < s.nconnections)
    (hK : ∀ v, Usage e (s.Late e) s.view v → K v) (h : s.handle e index m = .ok s') :
    Course e (s.StepLate e (.message index m)) (s.Does K e (.message index m)) s.view s'.view := by
  cases m with
  | newjob m => exact newjob_course hs.ids (hs.users index hindex) h
  | runjobOk ofilename pid =>
    rw [handle] at h
    split_ifs at h with hpid
    · rw [onSpoolM, Except.map_eq_ok] at h
      obtain ⟨sp, hsp, rfl⟩ := h
      obtain ⟨p, hp, ⟨-, hv⟩ | ⟨hg, hv⟩⟩ := Spool.sProcessRunjobOk_spec hpid hsp
      · exact .of_eq hv
      · exact .single (.pid p pid) hg ⟨p, rfl, Spool.findjob_jobid hp⟩ hv
    · cases h
      exact .of_eq rfl
  | endjob r => exact .moves (endjob_moves h)
  | reconnect jobid pid => exact .moves (reconnect_moves h)
  | removejob jobid => exact .moves (removejob_moves hs.ids h)
  | killAll format jobid => exact killAll_course hindex hs.ids h
  | killServer =>
    cases h
    refine .of_eq ?_
    split_ifs <;> rfl
  | request r => exact handleRequest_course hs.ids hK h
  | unknown => exact .moves (clean_moves h)

theorem late_timeoutLock {p : Job} : (s.toSpool.timeoutLock e).Late e p ↔ s.Late e p := by
  rw [Spool.Late, Spool.Late, toQueue_timeoutLock]

theorem Sound.timeoutLock (hs : s.Sound) : (s.onSpool fun sp => sp.timeoutLock e).Sound := by
  have hq : (s.toSpool.timeoutLock e).toQueue = s.toQueue := toQueue_timeoutLock
  have hv : (s.toSpool.timeoutLock e).view = s.view := Spool.view_timeoutLock e
  exact ⟨hv ▸ hs.ids, fun i hi => hq ▸ hs.users i hi⟩

/-- `NEWJOB` and `CONT` recount first, and never again. -/
def RecountsFirst : Input → Prop
  | .message _ (.newjob _) | .message _ (.request (.contJob _)) => True
  | _ => False

/-- **The two phases of a step that recounts first.** -/
theorem step_phases {i : Input} (hs : s.Sound) (hen : s.Enabled i) (hi : RecountsFirst i)
    (hK : ∀ v, Usage e (s.Late e) s.view v → K v) (h : s.step e i = .ok s') :
    ∃ v, (v = s.view ∨ Usage e (s.Late e) s.view v) ∧ Moves (s.Does K e i) v s'.view := by
  have hq : (s.toSpool.timeoutLock e).toQueue = s.toQueue := toQueue_timeoutLock
  have hv : (s.toSpool.timeoutLock e).view = s.view := Spool.view_timeoutLock e
  have hs₀ := hs.timeoutLock (e := e)
  cases i with
  | message index m =>
    rw [step, clientRead] at h
    have hdoes : ∀ a v, (s.onSpool fun sp => sp.timeoutLock e).Does K e (.message index m) a v →
        s.Does K e (.message index m) a v := fun a v ha =>
      Does.congr (r := s.onSpool fun sp => sp.timeoutLock e) hq rfl rfl ha
    cases m with
    | newjob m =>
      obtain ⟨v, hv₁, hmoves⟩ := newjob_phases (K := K) hs₀.ids (hs₀.users index hen) h
      refine ⟨v, hv₁.imp (fun h => h.trans hv) fun husage => ?_, hmoves.mono hdoes⟩
      exact hv ▸ husage.mono fun p => late_timeoutLock.1
    | request r =>
      cases r with
      | contJob jobid =>
        rw [handle, handleRequest, Except.bind_eq_ok] at h
        obtain ⟨s₁, h₁, h⟩ := h
        rw [onSpoolM, Except.map_eq_ok] at h₁
        obtain ⟨sp, hsp, rfl⟩ := h₁
        obtain ⟨v, husage, hmoves⟩ := Spool.sContJob_phases hs₀.ids
          (fun v husage => hK v (hv ▸ husage.mono fun p => late_timeoutLock.1)) hsp
        refine ⟨v, .inr (hv ▸ husage.mono fun p => late_timeoutLock.1), ?_⟩
        refine Moves.trans (hmoves.mono fun a v ha => hdoes a v (.inl ha)) ?_
        have hclose : (Request.contJob jobid).closes = true := rfl
        rw [if_pos hclose] at h
        exact (removeConnection_moves h).mono fun a v ha => hdoes a v (.inr ⟨rfl, ha⟩)
      | _ => exact hi.elim
    | _ => exact hi.elim
  | _ => exact hi.elim

/-- **A step of the server is a sequence of the moves of its input and of recounts.** -/
theorem step_course {i : Input} (hs : s.Sound) (hen : s.Enabled i) (hi : i ≠ .restart)
    (hK : ∀ v, Usage e (s.Late e) s.view v → K v) (h : s.step e i = .ok s') :
    Course e (s.StepLate e i) (s.Does K e i) s.view s'.view := by
  cases i with
  | accept socket uid =>
    obtain ⟨-, rfl⟩ := accept_spec h
    refine .of_eq ?_
    rw [enter]
    cases hu : s.findUserByUid uid <;> rfl
  | message index m =>
    have hq : (s.toSpool.timeoutLock e).toQueue = s.toQueue := toQueue_timeoutLock
    have hv : (s.toSpool.timeoutLock e).view = s.view := Spool.view_timeoutLock e
    rw [step, clientRead] at h
    -- dropping an old lock of the server changes nothing that matters
    have hcourse := handle_course (K := K) hs.timeoutLock hen
      (fun v husage => hK v (hv ▸ husage.mono fun p => late_timeoutLock.1)) h
    rw [← hv]
    refine (hcourse.mono fun a v ha => ?_).mono_late fun p hp => StepLate.congr hq hp
    exact Does.congr (r := s.onSpool fun sp => sp.timeoutLock e) hq rfl rfl ha
  | disconnect index => exact .moves (clean_moves h)
  | health =>
    cases h
    exact .moves health_moves
  | cleanup =>
    rw [step, onSpoolM, Except.map_eq_ok] at h
    obtain ⟨sp, hsp, rfl⟩ := h
    exact .moves (cleanup_moves hs.ids hsp)
  | schedule =>
    rw [step, Except.bind_eq_ok] at h
    obtain ⟨s₁, h₁, h⟩ := h
    rw [onSpoolM, Except.map_eq_ok] at h₁
    obtain ⟨sp, hsp, rfl⟩ := h₁
    cases h
    exact .moves ((Spool.nextRunJob_moves hs.ids hsp).trans (.of_eq (Spool.view_sCheckHoldon e)))
  | restart => exact absurd rfl hi

end Server

end TaskSpooler
