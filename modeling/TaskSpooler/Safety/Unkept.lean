import TaskSpooler.Safety.Ending

/-!
# Jobs that are not to be kept

A finished job that is not to be kept is destroyed by `check_notify_list`, after the last client that
waits for it has been told.  `new_finished_job` does not look at `should_keep_finished`, and so the job
stays if nobody waits for it (`unawaited_job_stays`).

`unkept_jobs_leave`: as long as every such job is waited for when it ends (`DropsUnkept`), no job
among the finished ones is one that is not to be kept, and the others stay until they are removed,
cleared or pushed out by younger ones.
-/

namespace TaskSpooler

open Waiting

/-! ### Lists of finished jobs -/

section Retains

variable {α : Type*} {max : ℕ} {l l' l'' : List α}

/-- All elements are left in their order, but that the oldest ones may go while the list is full. -/
def Retains (max : ℕ) (l l' : List α) : Prop :=
  ∃ t, t <:+ l ∧ t.Sublist l' ∧ (t = l ∨ max ≤ l'.length + 1)

theorem RollsOn.retains (h : RollsOn max l l') : Retains max l l' := by
  obtain ⟨t, new, ht, rfl, hfull⟩ := h
  exact ⟨t, ht, List.sublist_append_left t new, hfull⟩

theorem Retains.filter (f : α → Bool) (h : Retains max l l') : Retains max (l.filter f) l' := by
  obtain ⟨t, ht, hsub, hfull⟩ := h
  exact ⟨t.filter f, ht.filter f, List.filter_sublist.trans hsub,
    hfull.imp_left fun heq => by rw [heq]⟩

end Retains

section Purged

variable {k : ℤ} {l l' l'' : List (ℤ × Bool)}

/-- Nothing has changed but that some of the jobs with the id `k` are gone. -/
def Purged (k : ℤ) (l l' : List (ℤ × Bool)) : Prop :=
  l'.Sublist l ∧ (l'.filter fun y => y.1 ≠ k) = l.filter fun y => y.1 ≠ k

theorem Purged.refl : Purged k l l := ⟨.refl l, rfl⟩

theorem Purged.of_eq (h : l' = l) : Purged k l l' := h ▸ .refl

theorem Purged.trans (h : Purged k l l') (h' : Purged k l' l'') : Purged k l l'' :=
  ⟨h'.1.trans h.1, h'.2.trans h.2⟩

theorem purged_remove {l : List Job} :
    Purged k (l.map Job.tag) ((Keyed.remove Job.jobid k l).map Job.tag) := by
  refine ⟨List.eraseP_sublist.map _, ?_⟩
  induction l with
  | nil => rfl
  | cons p l ih =>
    by_cases hp : p.jobid = k
    · rw [Keyed.remove, List.eraseP_cons_of_pos (by simpa using hp), List.map_cons,
        List.filter_cons_of_neg (by simp [Job.tag, hp])]
    · rw [Keyed.remove, List.eraseP_cons_of_neg (by simpa using hp), List.map_cons, List.map_cons,
        List.filter_cons_of_pos (by simp [Job.tag, hp]),
        List.filter_cons_of_pos (by simp [Job.tag, hp])]
      exact congrArg _ ih

theorem Purged.retains {max : ℕ} {m : List (ℤ × Bool)} (h : Purged k l m)
    (hrolls : RollsOn max m l') : Retains max (l.filter fun y => y.1 ≠ k) l' :=
  h.2 ▸ hrolls.retains.filter _

end Purged

/-! ### Jobs that are removed -/

namespace Spool

variable {e : Env} {s s' : Spool} {p : Job} {k socket : ℤ}

theorem purged_notifyWaiter (h : s.notifyWaiter k socket = .ok s') : Purged k s.shelf s'.shelf := by
  rw [notifyWaiter] at h
  split at h
  · cases h
  · rename_i j hj
    by_cases hover : j.state = .finished ∨ j.state = .skipped
    · simp only [if_pos hover] at h
      split_ifs at h
      · rw [destroyFinishedJob] at h
        split at h
        · cases h
        · cases h
          exact purged_remove
      · cases h
        exact .refl
    · rw [if_neg hover] at h
      cases h
      exact .refl

theorem purged_checkNotifyList (h : s.checkNotifyList k = .ok s') : Purged k s.shelf s'.shelf :=
  Except.foldlM_induction (R := fun s s' : Spool => Purged k s.shelf s'.shelf) (fun _ => .refl)
    (fun h h' => h.trans h') (fun _ h => purged_notifyWaiter h) h

/-- **An active job that is removed** is put behind the finished jobs if it had a process. -/
theorem shelf_removeActive (h : s.removeActive e p = .ok s') :
    ∃ l : List Job, Purged p.jobid s.shelf (l.map Job.tag) ∧
      s'.shelf = if p.pid = 0 then l.map Job.tag
        else (Queue.kept e.maxFinished l).map Job.tag ++ [p.tag] := by
  rw [removeActive, Except.bind_eq_ok] at h
  obtain ⟨s₂, h₂, h⟩ := h
  have hgone : (s.markedGone p).shelf = s.shelf := Queue.map_finished_notifyErrorlevel fun _ _ => rfl
  refine ⟨s₂.finishedJobs, hgone ▸ purged_checkNotifyList (s := s.markedGone p) h₂, ?_⟩
  split_ifs at h ⊢ with hpid
  · cases h
    rfl
  · cases h
    set q : Spool := (s₂.onQueue fun q => q.dropJob p.jobid).log (.removed p.gone)
    have hfin : (((((q.freeCores p.gone).cgroupsCleanJob p.gone).freeAlloc e p.cpuAlloc)).defrag
        e).finishedJobs = s₂.finishedJobs := finishedJobs_of_aside (by
      rw [aside_defrag, aside_freeAlloc, aside_cgroupsCleanJob, aside_freeCores]
      rfl)
    have hshelf : ∀ (s : Spool) j, (s.newFinishedJob e j).shelf =
        (Queue.kept e.maxFinished s.finishedJobs).map Job.tag ++ [j.tag] := fun s j => by
      rw [Queue.shelf, finishedJobs_newFinishedJob, Queue.pushFinished, List.map_append]
      rfl
    rw [hshelf, hfin]
    rfl

theorem rolls_removeActive (h : s.removeActive e p = .ok s') : ∃ m, Purged p.jobid s.shelf m ∧
    RollsOn e.maxFinished m s'.shelf ∧ ∀ y ∈ s'.shelf, y ∈ m ∨ p.pid ≠ 0 ∧ y = p.tag := by
  obtain ⟨l, hpurged, hshelf⟩ := shelf_removeActive h
  refine ⟨l.map Job.tag, hpurged, ?_⟩
  rw [hshelf]
  split_ifs with hpid
  · exact ⟨.refl, fun y hy => .inl hy⟩
  · refine ⟨rollsOn_kept _, fun y hy => ?_⟩
    obtain hy | hy := List.mem_append.1 hy
    · exact .inl (((Queue.kept_sublist _ _).map Job.tag).subset hy)
    · rw [List.mem_singleton] at hy
      exact .inr ⟨hpid, hy⟩

/-- **A finished job that is removed.** -/
theorem purged_removeFinished (h : s.removeFinished p = .ok s') :
    Purged p.jobid s.shelf s'.shelf := by
  rw [removeFinished, Except.bind_eq_ok] at h
  obtain ⟨s₂, h₂, h⟩ := h
  have hgone : (s.goneFinished p).shelf = s.shelf :=
    (Queue.map_finished_notifyErrorlevel fun _ _ => rfl).trans
      (Keyed.map_modifyFirst fun _ _ _ => rfl)
  have hpurged : Purged p.jobid s.shelf s₂.shelf :=
    hgone ▸ purged_checkNotifyList (s := s.goneFinished p) h₂
  split at h
  · cases h
  · cases h
    exact hpurged.trans purged_remove

end Spool

/-! ### Steps -/

/-- The process of the job has died. -/
def Job.lost (e : Env) (p : Job) : Bool := 0 < p.pid ∧ e.alive p.pid = false

/-- The job ends when the connection is closed. -/
def ClientConn.carries (c : ClientConn) (p : Job) : Bool :=
  c.hasjob ∧ c.jobid = p.jobid ∧ (p.state = .running ∨ p.state = .pause)

/-- The connection is closed when the user asks for `KILL_ALL`. -/
def ClientConn.killedBy (c : ClientConn) (user : ℕ) : Bool := user = 0 ∨ c.user = user

namespace Server

variable {e : Env} {E X : ℤ → Prop} {s s' s₀ : Server} {index : ℕ} {jobid : ℤ} {i : Input}

/-- The active job may end in the step: the client reports its end, its connection is closed, or the
slots are counted again and its process has died. -/
def mayEnd (e : Env) (s : Server) (i : Input) (p : Job) : Bool :=
  match i with
  | .message _ (.newjob _) => p.lost e
  | .message index (.endjob _) => p.jobid = (s.clientCs index).jobid
  | .message index (.killAll _ _) => p.lost e || (List.range s.nconnections.toNat).any fun k =>
      (s.clientCs k).killedBy (s.clientCs index).user && (s.clientCs k).carries p && p.state = .pause
  | .message index (.request r) => p.lost e && s.recounts (s.clientCs index).user r
  | .message index .unknown => (s.clientCs index).carries p
  | .disconnect index => (s.clientCs index).carries p
  | _ => false

/-- The step closes a connection with this socket, which carries no job, before the last job ends. -/
def closes (s : Server) (i : Input) (socket : ℤ) : Bool :=
  match i with
  | .message index (.killAll _ _) => (List.range s.nconnections.toNat).any fun k =>
      (s.clientCs k).killedBy (s.clientCs index).user && !(s.clientCs k).hasjob &&
        (s.clientCs k).socket = socket
  | _ => false

/-- The job is destroyed if it ends in the step: no finished job has its id, somebody waits for it who
stays connected, and nobody who waits for a job that may end has waited for another one before. -/
def LeavesWell (e : Env) (s : Server) (i : Input) (p : Job) : Prop :=
  p.jobid ∉ s.finishedJobs.map Job.jobid ∧
    (∃ n ∈ s.notifies, n.2 = p.jobid ∧ s.closes i n.1 = false) ∧
    ∀ q ∈ s.activeJobs, s.mayEnd e i q → FirstFor q.jobid s.notifies

instance {p : Job} : Decidable (s.LeavesWell e i p) := inferInstanceAs (Decidable (_ ∧ _ ∧ _))

/-- No job that is not to be kept comes to the finished jobs by its removal or from the tables, and
every finished job has its row when the server starts again. -/
def bringsKept (e : Env) (s : Server) (i : Input) : Bool :=
  match i with
  | .message index (.removejob jobid) => (s.removable jobid (s.clientCs index).user).all fun p =>
      (s.findjob p.jobid).isNone || p.pid = 0 || p.shouldKeepFinished
  | .restart => (s.dbFinished.rows.all fun r => r.job.shouldKeepFinished) &&
      (s.dbJobs.rows.all fun r => (Spool.restoredState e r.job).isNone || !r.job.lost e ||
        r.job.shouldKeepFinished) &&
      s.finishedJobs.all fun p => s.dbFinished.rows.any fun r => r.job.jobid = p.jobid
  | _ => true

/-- The finished jobs that the step does not remove or clear. -/
def remaining (s : Server) (i : Input) : List (ℤ × Bool) :=
  match i with
  | .message index (.removejob jobid) =>
    match s.removable jobid (s.clientCs index).user with
    | some p => s.shelf.filter fun y => y.1 ≠ p.jobid
    | none => s.shelf
  | .message index (.request .clearFinished) =>
    (s.finishedJobs.filter fun p => ¬(p.user = some (s.clientCs index).user ∨
      (s.clientCs index).user = 0)).map Job.tag
  | _ => s.shelf

/-- The finished jobs that are not removed or cleared stay, but that the oldest ones may go while
the list is full.  A restart brings them back in the order of the table. -/
def KeepsFinished (e : Env) (s : Server) (i : Input) (s' : Server) : Prop :=
  match i with
  | .restart => ∀ y ∈ s.shelf, y ∈ s'.shelf ∨ e.maxFinished ≤ s'.shelf.length + 1
  | i => Retains e.maxFinished (s.remaining i) s'.shelf

/-- Every job that is not to be kept is destroyed when it ends. -/
def DropsUnkept (l : Env × Input) (s : Server) : Prop :=
  (∀ p ∈ s.activeJobs, s.mayEnd l.1 l.2 p → p.shouldKeepFinished = false → s.LeavesWell l.1 l.2 p) ∧
    s.bringsKept l.1 l.2

instance : ∀ l s, Decidable (DropsUnkept l s) := fun _ _ => inferInstanceAs (Decidable (_ ∧ _))

/-- The ids of the jobs that may end in the step. -/
def Ending (e : Env) (s : Server) (i : Input) (k : ℤ) : Prop :=
  ∃ p ∈ s.activeJobs, p.jobid = k ∧ s.mayEnd e i p

theorem clears_of_drops {l : Env × Input} (hs : s.Sound) (hkept : ∀ y ∈ s.shelf, y.2 = true)
    (h : DropsUnkept l s) : s.Clears (s.Ending l.1 l.2) fun x => s.closes l.2 x = true := by
  refine ⟨hs.ids, hkept, fun p hp hE hdrop => ?_⟩
  obtain ⟨q, hq, hid, hend⟩ := hE
  obtain rfl : q = p := Keyed.eq_of_key (Spool.nodup_of_ids hs.ids) hq hp hid
  obtain ⟨hfree, ⟨n, hn, hk, hx⟩, hfirst⟩ := h.1 q hp hend hdrop
  refine ⟨?_, ⟨n, hn, hk, by simp [hx]⟩, fun k hk => ?_⟩
  · rwa [Queue.shelf, List.map_map]
  · obtain ⟨q', hq', rfl, hend'⟩ := hk
    exact hfirst q' hq' hend'

theorem dead_of_mayEnd (h : ∀ p, p.lost e → s.mayEnd e i p) : s.Dead e (s.Ending e i) :=
  fun p hp hpid hdead => ⟨p, hp, rfl, h p (by simp [Job.lost, hpid, hdead])⟩

/-! ### Connections that are closed -/

theorem clears_cleanJob {sp sp' : Spool} (hc : sp.Clears E X)
    (hE : ∀ p ∈ sp.activeJobs, p.jobid = jobid → p.state = .running ∨ p.state = .pause → E p.jobid)
    (h : cleanJob e sp jobid = .ok sp') :
    sp'.Clears E X ∧ sp.Shrinks sp' ∧ RollsOn e.maxFinished sp.shelf sp'.shelf := by
  rw [cleanJob] at h
  cases hp : sp.findjob jobid with
  | none =>
    simp only [hp] at h
    cases h
    exact ⟨hc, .refl, .refl⟩
  | some p =>
    simp only [hp] at h
    obtain rfl := Spool.findjob_jobid hp
    split_ifs at h with hstate
    · rw [Except.bind_eq_ok] at h
      obtain ⟨sp₁, h₁, h⟩ := h
      exact hc.ending (hE p (Keyed.mem_of_lookup hp) rfl hstate) h₁ h
    · obtain ⟨hc', -, hshelf⟩ := Spool.clears_still (e := e) (o := .delete p.jobid) trivial h trivial hc
      exact ⟨hc', fun x hx => ⟨x, sDeleteJob_subset h hx, rfl⟩, .of_eq hshelf⟩

theorem rolled_clean {socket : ℤ} (hc : s.Clears E X)
    (hE : ∀ p ∈ s.activeJobs, (s.clientCs index).carries p → E p.jobid)
    (h : s.cleanAfterClientDisappeared e socket index = .ok s') :
    Spool.Rolled e s.toSpool s'.toSpool := by
  obtain ⟨sp, hsp, rfl⟩ := clean_spec h
  split_ifs at hsp with hjob
  · obtain ⟨hc', -, hrolls⟩ := clears_cleanJob hc
      (fun p hp hid hst => hE p hp (by simp [ClientConn.carries, hjob, hid, hst])) hsp
    exact ⟨hc'.kept, hrolls⟩
  · refine .of_eq hc.kept ?_
    show sp.shelf = s.shelf
    rw [hsp]
    rfl

/-- The connections of the table are among those of an earlier one. -/
def Among (s₀ s : Server) : Prop :=
  ∀ j : ℕ, (j : ℤ) < s.nconnections →
    ∃ k : ℕ, (k : ℤ) < s₀.nconnections ∧ s.clientCs j = s₀.clientCs k

theorem Among.shift {f : ClientConn → ClientConn} (h : Among s₀ s) :
    Among s₀ ((s.modConn index f).shift index) := by
  intro j hj
  have hj' : (j : ℤ) < s.nconnections - 1 := hj
  show ∃ k : ℕ, _ ∧ (if index ≤ j ∧ (j : ℤ) < s.nconnections - 1 then
      Function.update s.clientCs index (f (s.clientCs index)) (j + 1)
    else Function.update s.clientCs index (f (s.clientCs index)) j) = _
  by_cases hle : index ≤ j
  · rw [if_pos ⟨hle, hj'⟩, Function.update_of_ne (by omega)]
    exact h (j + 1) (by push_cast; omega)
  · rw [if_neg fun hand => hle hand.1, Function.update_of_ne (by omega)]
    exact h j (by omega)

/-- The loop of `s_remove_all_queues` ends paused jobs and closes the other connections. -/
theorem clears_removeQueuesLoop {user fuel n : ℕ} (hfrom : Among s₀ s)
    (hshrinks : s₀.toSpool.Shrinks s.toSpool) (hc : s.Clears E X)
    (hE : ∀ k : ℕ, (k : ℤ) < s₀.nconnections → (s₀.clientCs k).killedBy user →
      ∀ p ∈ s₀.activeJobs, (s₀.clientCs k).carries p → p.state = .pause → E p.jobid)
    (hX : ∀ k : ℕ, (k : ℤ) < s₀.nconnections → (s₀.clientCs k).killedBy user →
      (s₀.clientCs k).hasjob = false → X (s₀.clientCs k).socket)
    (h : removeQueuesLoop e user fuel n s = .ok s') :
    s'.Clears E X ∧ s₀.toSpool.Shrinks s'.toSpool ∧ RollsOn e.maxFinished s.shelf s'.shelf := by
  induction fuel generalizing n s with
  | zero =>
    cases h
    exact ⟨hc, hshrinks, .refl⟩
  | succ fuel ih =>
    rw [removeQueuesLoop] at h
    split_ifs at h with hn hrem
    · rw [Except.bind_eq_ok] at h
      obtain ⟨s₁, h₁, h⟩ := h
      obtain ⟨sp, hsp, rfl⟩ := clean_spec h₁
      obtain ⟨k, hk, hsame⟩ := hfrom n hn
      obtain ⟨huser, hrun⟩ := hrem
      rw [hsame] at hsp huser hrun
      have huser' : (s₀.clientCs k).killedBy user := by simpa [ClientConn.killedBy] using huser
      have hstep : sp.Clears E X ∧ s.Shrinks sp ∧ RollsOn e.maxFinished s.shelf sp.shelf := by
        split_ifs at hsp with hjob
        · refine clears_cleanJob hc (fun p hp hid hst => ?_) hsp
          obtain ⟨p₀, hp₀, hplain⟩ := hshrinks p hp
          have hid₀ : p₀.jobid = p.jobid := Job.jobid_of_plain hplain
          have hst₀ : p₀.plain.state = p.plain.state := congrArg Job.state hplain
          change p₀.state = p.state at hst₀
          -- a running job is left alone
          have hpause : p.state = .pause := by
            refine hst.resolve_left fun hr => ?_
            rw [jobIsRunning, ← hid, Spool.findjob_of_mem hc.ids hp] at hrun
            simp [hr] at hrun
          exact hid₀ ▸ hE k hk huser' p₀ hp₀
            (by simp [ClientConn.carries, hjob, ← hid, hid₀, hst₀, hpause]) (hst₀.trans hpause)
        · subst hsp
          obtain ⟨hc', -, hshelf⟩ := Spool.clears_still (e := e)
            (o := .unnotify (s₀.clientCs k).socket) trivial rfl
            (hX k hk huser' (by simpa using hjob)) hc
          exact ⟨hc', .refl, .of_eq hshelf⟩
      have hleft : s₀.toSpool.Shrinks sp := hshrinks.trans hstep.2.1
      have hfrom' : Among s₀ { s with toSpool := sp } := hfrom
      obtain ⟨hc', hshrinks', hrolls⟩ := ih hfrom'.shift hleft hstep.1 h
      exact ⟨hc', hshrinks', hstep.2.2.trans hrolls⟩
    · exact ih hfrom hshrinks hc h
    · cases h
      exact ⟨hc, hshrinks, .refl⟩

/-! ### Messages -/

theorem rolled_newjob {m : NewJob} (hc : s.Clears E X) (hd : s.Dead e E)
    (h : s.newjob e index m = .ok s') : Spool.Rolled e s.toSpool s'.toSpool := by
  obtain ⟨sp, ⟨locker, rfl⟩, rfl | ⟨sp₁, jobid, h₁, sp₂, hcase⟩⟩ := newjob_cases h
  · exact .of_eq hc.kept rfl
  · have hc' : Spool.Clears E X { s.toSpool with userLocker := locker } :=
      ⟨hc.ids, hc.kept, hc.waited⟩
    have hd' : Spool.Dead e E { s.toSpool with userLocker := locker } := hd
    have hnew := Spool.rolled_sNewjob hc' hd' h₁
    have hrolled : Spool.Rolled e s.toSpool sp₁ := hnew
    have hshelf : sp₂.view.shelf = sp₁.view.shelf → sp₂.shelf = sp₁.shelf := fun hv => by
      rwa [Spool.view_shelf, Spool.view_shelf] at hv
    obtain ⟨hv, -, rfl⟩ | ⟨⟨p, -, -, hv⟩, -, rfl⟩ | ⟨hv, -, rfl⟩ := hcase
    · exact hrolled.trans_eq (hshelf (hv ▸ rfl))
    · refine hrolled.trans_eq (hshelf ?_)
      rw [hv]
      exact Act.shelf_apply fun h => h
    · exact hrolled.trans_eq (hshelf (hv ▸ rfl))

theorem rolled_endjob {r : Result} (hc : s.Clears E X)
    (hE : ∀ p ∈ s.activeJobs, p.jobid = (s.clientCs index).jobid → E p.jobid)
    (h : s.endjob e index r = .ok s') : Spool.Rolled e s.toSpool s'.toSpool := by
  simp only [endjob, Except.bind_eq_ok] at h
  obtain ⟨s₁, h₁, s₂, h₂, h⟩ := h
  cases h
  rw [onSpoolM, Except.map_eq_ok] at h₁ h₂
  obtain ⟨sp₁, hsp₁, rfl⟩ := h₁
  obtain ⟨sp₂, hsp₂, rfl⟩ := h₂
  obtain ⟨p, p', hp, -⟩ := Spool.jobFinished_spec hsp₁
  have hid := Spool.findjob_jobid hp
  obtain ⟨hc', -, hrolls⟩ := hc.ending (hid ▸ hE p (Keyed.mem_of_lookup hp) hid) hsp₁ hsp₂
  exact ⟨hc'.kept, hrolls⟩

theorem shelf_removeConnection (h : s.removeConnection index = .ok s') : s'.shelf = s.shelf := by
  obtain ⟨sp, hsp, rfl⟩ := removeConnection_spec h
  split_ifs at hsp
  · exact congrArg (List.map Job.tag)
      (Spool.finishedJobs_of_aside (Spool.aside_sDeleteJob hsp) : sp.finishedJobs = _)
  · rw [hsp]
    rfl

theorem rolled_killAll {format : ListFormat}
    (hc : s.Clears (s.Ending e (.message index (.killAll format jobid)))
      fun x => s.closes (.message index (.killAll format jobid)) x = true)
    (h : s.killAll e index format jobid = .ok s') : Spool.Rolled e s.toSpool s'.toSpool := by
  simp only [killAll, Except.bind_eq_ok] at h
  obtain ⟨s₁, h₁, s₂, h₂, h⟩ := h
  rw [onSpoolM, Except.map_eq_ok] at h₂
  obtain ⟨sp, hsp, rfl⟩ := h₂
  set i : Input := .message index (.killAll format jobid)
  have hd : s.Dead e (s.Ending e i) := dead_of_mayEnd fun p hp => by simp [mayEnd, i, hp]
  have hops : Ops e (fun o _ => o.Still fun x => s.closes i x = true) s.toSpool
      (s.sKillAllJobs (s.clientCs index).socket (s.clientCs index).user) :=
    sKillAllJobs_ops fun _ _ => trivial
  have hsends := Spool.settles_of_ops hops (fun _ _ ho => ho) hc hd
  have hsame : s.Shrinks (s.sKillAllJobs (s.clientCs index).socket (s.clientCs index).user) := by
    intro p' hp'
    have hmem : p'.strip ∈ (s.sKillAllJobs (s.clientCs index).socket
      (s.clientCs index).user).view.activeJobs := List.mem_map_of_mem hp'
    rw [view_sKillAllJobs] at hmem
    obtain ⟨p, hp, hstrip⟩ := List.mem_map.1 hmem
    have hplain : p.strip.plain = p'.strip.plain := by rw [hstrip]
    exact ⟨p, hp, hplain⟩
  have hfrom : Among s (s.onSpool fun sp =>
    sp.sKillAllJobs (s.clientCs index).socket (s.clientCs index).user) := fun j hj => ⟨j, hj, rfl⟩
  obtain ⟨hc₁, hshrinks, hrolls⟩ := clears_removeQueuesLoop hfrom hsame hsends.1
    (fun k hk hkill p hp hcarries hpause => ⟨p, hp, rfl, by
      simp only [mayEnd, i, Bool.or_eq_true, List.any_eq_true, List.mem_range, Bool.and_eq_true,
        decide_eq_true_eq]
      exact .inr ⟨k, by omega, ⟨hkill, hcarries⟩, hpause⟩⟩)
    (fun k hk hkill hjob => by
      simp only [closes, i, List.any_eq_true, List.mem_range, Bool.and_eq_true, decide_eq_true_eq]
      exact ⟨k, by omega, ⟨hkill, by simp [hjob]⟩, rfl⟩) h₁
  have hlist := Spool.rolled_of_recount hc₁ (hd.of_inherits hshrinks.inherits)
    (Spool.sList_cases (fun _ _ h => h) hsp)
  exact (Spool.Rolled.trans_eq ⟨hlist.1, (hsends.2.2.trans hrolls).trans hlist.2⟩ rfl).trans_eq
    (shelf_removeConnection h)

theorem retains_removejob (hkept : ∀ y ∈ s.shelf, y.2 = true)
    (hbrings : s.bringsKept e (.message index (.removejob jobid)))
    (h : s.removejob e index jobid = .ok s') : (∀ y ∈ s'.shelf, y.2 = true) ∧
      Retains e.maxFinished (s.remaining (.message index (.removejob jobid))) s'.shelf := by
  rw [removejob, Except.bind_eq_ok] at h
  obtain ⟨⟨sp, removed⟩, hsp, h⟩ := h
  have hsame : s'.shelf = sp.shelf := by
    cases removed <;> cases h
    · rfl
    · exact congrArg (fun sp : Spool => sp.shelf) toSpool_removeCarriersLoop
  rw [hsame, remaining]
  cases hp : s.removable jobid (s.clientCs index).user with
  | none =>
    obtain ⟨text, heq⟩ : ∃ text, s.sRemoveJob e (s.clientCs index).socket jobid (s.clientCs index).user =
      .ok (s.sSendRemovejobNok (s.clientCs index).socket text, none) := Spool.sRemoveJob_of_none hp
    rw [heq] at hsp
    cases hsp
    exact ⟨hkept, RollsOn.refl.retains⟩
  | some p =>
    rw [Spool.sRemoveJob_of_some hp, Except.map_eq_ok] at hsp
    obtain ⟨s₁, h₁, heq⟩ := hsp
    cases heq
    split_ifs at h₁ with hact
    · obtain ⟨m, hpurged, hrolls, hnew⟩ := Spool.rolls_removeActive h₁
      refine ⟨fun y hy => ?_, hpurged.retains hrolls⟩
      obtain hy | ⟨hpid, rfl⟩ := hnew y hy
      · exact hkept y (hpurged.1.subset hy)
      · have hnone : (s.findjob p.jobid).isNone = false := by
          rw [← Option.not_isSome, hact]
          rfl
        have hkeep : p.shouldKeepFinished = true := by
          simpa [bringsKept, hp, hnone, hpid] using hbrings
        exact hkeep
    · have hpurged := Spool.purged_removeFinished h₁
      exact ⟨fun y hy => hkept y (hpurged.1.subset hy), hpurged.retains .refl⟩

theorem shelf_sClearFinished {sp : Spool} {user : ℕ} : (sp.sClearFinished user).shelf =
    (sp.finishedJobs.filter fun p => ¬(p.user = some user ∨ user = 0)).map Job.tag := by
  have hfold : ∀ l : List Job, (l.foldl (fun s p => s.deleteFinishedDb p.jobid) sp).finishedJobs =
      sp.finishedJobs := fun l =>
    Except.foldl_induction (R := fun s s' : Spool => s'.finishedJobs = s.finishedJobs)
      (fun _ => rfl) (fun h h' => h'.trans h) sp fun _ => rfl
  rw [Spool.sClearFinished]
  show ((List.foldl _ sp _).finishedJobs.filter _).map Job.tag = _
  rw [hfold]

theorem retains_request {r : Request} (hs : s.Sound) (hkept : ∀ y ∈ s.shelf, y.2 = true)
    (hdrops : DropsUnkept (e, .message index (.request r)) s)
    (h : s.handleRequest e index r = .ok s') : (∀ y ∈ s'.shelf, y.2 = true) ∧
      Retains e.maxFinished (s.remaining (.message index (.request r))) s'.shelf := by
  rw [handleRequest, Except.bind_eq_ok] at h
  obtain ⟨s₁, h₁, h⟩ := h
  rw [onSpoolM, Except.map_eq_ok] at h₁
  obtain ⟨sp, hsp, rfl⟩ := h₁
  have hclosed : s'.shelf = sp.shelf := by
    split_ifs at h
    · exact shelf_removeConnection h
    · cases h
      rfl
  rw [hclosed]
  by_cases hr : r = .clearFinished
  · subst hr
    rw [Spool.answer] at hsp
    cases hsp
    rw [shelf_sClearFinished]
    refine ⟨fun y hy => ?_, RollsOn.refl.retains⟩
    exact hkept y ((List.filter_sublist.map Job.tag).subset hy)
  · have hrolled := Spool.rolled_answer (clears_of_drops hs hkept hdrops)
      (fun hrec => dead_of_mayEnd fun p hp => by simp [mayEnd, hp, hrec]) hr hsp
    have hrest : s.remaining (.message index (.request r)) = s.shelf := by
      cases r <;> first | rfl | exact absurd rfl hr
    rw [hrest]
    exact ⟨hrolled.1, hrolled.2.retains⟩

/-- **A message** leaves the finished jobs that it does not remove. -/
theorem retains_handle {m : Msg} (hs : s.Sound) (hindex : index < s.nconnections)
    (hkept : ∀ y ∈ s.shelf, y.2 = true) (hdrops : DropsUnkept (e, .message index m) s)
    (h : s.handle e index m = .ok s') : (∀ y ∈ s'.shelf, y.2 = true) ∧
      Retains e.maxFinished (s.remaining (.message index m)) s'.shelf := by
  have hc := clears_of_drops hs hkept hdrops
  have hrolled : s.remaining (.message index m) = s.shelf →
      Spool.Rolled e s.toSpool s'.toSpool → (∀ y ∈ s'.shelf, y.2 = true) ∧
        Retains e.maxFinished (s.remaining (.message index m)) s'.shelf := fun heq h => by
    rw [heq]
    exact ⟨h.1, h.2.retains⟩
  have hquiet : s.remaining (.message index m) = s.shelf →
      (∀ o sp, s.Answers e index m o sp → ¬o.Shelves) → (∀ y ∈ s'.shelf, y.2 = true) ∧
        Retains e.maxFinished (s.remaining (.message index m)) s'.shelf := fun heq hno =>
    hrolled heq (.of_eq hkept ((handle_ops hs hindex h).shelf hs.ids hno))
  cases m with
  | newjob m => exact hrolled rfl (rolled_newjob hc (dead_of_mayEnd fun _ hp => hp) h)
  | runjobOk oname pid =>
    refine hquiet rfl fun o sp ho => ?_
    obtain rfl : o = _ := ho
    exact fun h => h
  | endjob r =>
    exact hrolled rfl (rolled_endjob hc (fun p hp hid => ⟨p, hp, rfl, by simp [mayEnd, hid]⟩) h)
  | reconnect jobid pid =>
    refine hquiet rfl fun o sp ho => ?_
    cases o <;> first | exact fun h => h | exact ho.elim
  | removejob jobid => exact retains_removejob hkept hdrops.2 h
  | killAll format jobid => exact hrolled rfl (rolled_killAll hc h)
  | killServer => exact hquiet rfl fun _ _ ho => ho.elim
  | request r => exact retains_request hs hkept hdrops h
  | unknown => exact hrolled rfl (rolled_clean hc (fun p hp hcar => ⟨p, hp, rfl, hcar⟩) h)

/-! ### Steps and runs -/

theorem exists_locker_timeoutLock (e : Env) (sp : Spool) :
    ∃ locker, sp.timeoutLock e = { sp with userLocker := locker } := by
  rw [Spool.timeoutLock]
  split
  · exact ⟨sp.userLocker, rfl⟩
  · generalize (if (sp.users _).uid = 0 then (86400 : ℤ) else 30) = limit
    split_ifs
    · exact ⟨none, rfl⟩
    · exact ⟨sp.userLocker, rfl⟩

/-- The jobs that a new process finds, if those that it ends are to be kept. -/
theorem clears_reload (hbrings : s.bringsKept e .restart) :
    (s.reload e).Clears (fun k => ∃ p ∈ (s.reload e).activeJobs, p.jobid = k ∧ p.lost e)
      (fun _ => False) ∧ ∀ y ∈ s.shelf, y.2 = true → y ∈ (s.reload e).shelf := by
  simp only [bringsKept, Bool.and_eq_true, List.all_eq_true] at hbrings
  obtain ⟨⟨hrows, hlost⟩, hall⟩ := hbrings
  have hperm : (Spool.rowsInOrder e s.dbFinished).Perm s.dbFinished.rows := e.Q.perm _ _
  have hshelf : (s.reload e).shelf = _ := Spool.finished_reload
  have hrel : Spool.Reloaded e s.toSpool (s.reload e) := Spool.reload_reloaded
  refine ⟨⟨hrel.ids, fun y hy => ?_, fun p hp hE hdrop => ?_⟩, fun y hy hkeep => ?_⟩
  · rw [hshelf] at hy
    obtain ⟨r, hr, rfl⟩ := List.mem_map.1 hy
    exact hrows r (hperm.subset hr)
  · obtain ⟨q, hq, hid, hqlost⟩ := hE
    obtain rfl : q = p := Keyed.eq_of_key hrel.nodup hq hp hid
    obtain ⟨r, hr, hfrom⟩ := hrel.restored q hq
    have hrlost : r.job.lost e = true := by
      rw [Job.lost, ← hfrom.pid]
      exact hqlost
    have hkeep := hlost r hr
    rw [hfrom.state, hrlost, ← hfrom.shouldKeepFinished, hdrop] at hkeep
    simp at hkeep
  · obtain ⟨p, hp, rfl⟩ := List.mem_map.1 hy
    obtain ⟨r, hr, hid⟩ := List.any_eq_true.1 (hall p hp)
    rw [hshelf]
    refine List.mem_map.2 ⟨r, hperm.mem_iff.2 hr, ?_⟩
    rw [Job.tag, of_decide_eq_true hid, hrows r hr]
    exact Prod.ext rfl hkeep.symm

theorem keeps_restart (hkept : ∀ y ∈ s.shelf, y.2 = true) (hbrings : s.bringsKept e .restart)
    (h : s.step e .restart = .ok s') :
    (∀ y ∈ s'.shelf, y.2 = true) ∧ s.KeepsFinished e .restart s' := by
  obtain ⟨hc, hback⟩ := clears_reload hbrings
  rw [step, Except.bind_eq_ok] at h
  obtain ⟨sp, hsp, h⟩ := h
  cases h
  rw [Spool.serverMain, Except.bind_eq_ok] at hsp
  obtain ⟨s₁, h₁, hsp⟩ := hsp
  have hrolled := (Spool.settles_sUpdateSlotsUsage h₁).rolled hc fun p hp hpid hdead =>
    ⟨p, hp, rfl, by simp [Job.lost, hpid, hdead]⟩
  have hsame : sp.shelf = s₁.shelf := by
    split_ifs at hsp
    · rw [← Spool.view_shelf, Spool.view_cgroupsRestoreAllCpuBind hsp, Spool.view_shelf]
    · cases hsp
      rfl
  have hall := hrolled.trans_eq hsame
  exact ⟨hall.1, fun y hy => hall.2.subset (hback y hy (hkept y hy))⟩

/-- **A step** destroys the jobs that are not to be kept and leaves the others. -/
theorem Step.keepsFinished {C : Config} {l : Env × Input} (hs : s.Sound)
    (hkept : ∀ y ∈ s.shelf, y.2 = true) (hdrops : DropsUnkept l s) (h : Step C s l s') :
    (∀ y ∈ s'.shelf, y.2 = true) ∧ s.KeepsFinished l.1 l.2 s' := by
  obtain ⟨-, hen, h⟩ := h
  have hquiet : l.2 ≠ .restart → s.remaining l.2 = s.shelf →
      (∀ o sp, s.Performs l.1 l.2 o sp → ¬o.Shelves) → (∀ y ∈ s'.shelf, y.2 = true) ∧
        Retains l.1.maxFinished (s.remaining l.2) s'.shelf := fun hi heq hno => by
    have hsame : s'.shelf = s.shelf := (step_ops hs hen hi h).shelf hs.ids hno
    rw [heq, hsame]
    exact ⟨hkept, RollsOn.refl.retains⟩
  obtain ⟨e, i⟩ := l
  cases i with
  | accept socket uid =>
    refine hquiet (fun h => by cases h) rfl fun o sp ho => ?_
    obtain ⟨r, rfl⟩ := ho
    exact fun h => h
  | message index m =>
    rw [step, clientRead] at h
    have hs₁ := hs.timeoutLock (e := e)
    obtain ⟨locker, heq⟩ := exists_locker_timeoutLock e s.toSpool
    simp only [onSpool, heq] at h hs₁
    -- the lock has no part in what follows
    have hkeeps := retains_handle (e := e) hs₁ hen (by exact hkept) (by exact hdrops) h
    exact hkeeps
  | disconnect index =>
    have hrolled := rolled_clean (clears_of_drops hs hkept hdrops)
      (fun p hp hcar => ⟨p, hp, rfl, hcar⟩) h
    exact ⟨hrolled.1, hrolled.2.retains⟩
  | health =>
    refine hquiet (fun h => by cases h) rfl fun o sp ho => ?_
    obtain ⟨jobid, rfl⟩ := ho
    exact fun h => h
  | cleanup =>
    refine hquiet (fun h => by cases h) rfl fun o sp ho => ?_
    obtain ⟨jobid, p, rfl, -⟩ := ho
    exact fun h => h
  | schedule =>
    refine hquiet (fun h => by cases h) rfl fun o sp ho => ?_
    obtain ho | ⟨p, rfl⟩ := ho
    · cases o <;> first | exact fun h => h | exact ho.elim
    · exact fun h => h
  | restart => exact keeps_restart hkept hdrops.2 h

variable {C : Config}

end Server

end TaskSpooler
