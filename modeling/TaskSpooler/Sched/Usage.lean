import TaskSpooler.Lib.Except
import TaskSpooler.Sched.Counters

/-!
# The moves of the scheduler and of the recount

`next_run_job` starts jobs and wakes held clients, and nothing else (`nextRunJob_moves`).
`s_update_slots_usage` relegates the jobs that ran too long, finishes those whose process has died,
counts the slots again, and schedules if there was a timeout.  This is `Usage`
(`sUpdateSlotsUsage_usage`).
-/

namespace TaskSpooler

namespace Act

/-- The moves of `next_run_job`. -/
def ofSchedule (e : Env) : Act → Prop
  | dispatch uid p q => q.eligible e uid p
  | asleep uid p q => q.eligible e uid p
  | wake _ => True
  | _ => False

/-- The moves of a round of `next_run_job` over the users. -/
def ofRound (e : Env) : Act → Prop
  | dispatch uid p q => q.eligible e uid p
  | asleep uid p q => q.eligible e uid p
  | _ => False

theorem ofRound.ofSchedule {e : Env} {a : Act} (h : a.ofRound e) : a.ofSchedule e := by
  cases a with
  | dispatch uid p q | asleep uid p q => exact h
  | _ => exact h.elim

/-- The moves of `check_notify_list`. -/
def ofNotify : Act → Prop
  | forget _ => True
  | _ => False

/-- The moves of `s_update_slots_usage` before it counts the slots; `late` are the jobs that ran
too long. -/
def ofSweep (e : Env) (late : Job → Prop) : Act → Prop
  | relegate p requeue => requeue = false ∧ late p
  | reorder _ => True
  | finish r p _ _ => Spool.isDead e p ∧ r = Spool.deadResult e p
  | forget _ => True
  | _ => False

/-- The moves of `s_update_slots_usage`. -/
def ofUsage (e : Env) (late : Job → Prop) (a : Act) : Prop :=
  a.ofSweep e late ∨ a = recount ∨ (a.ofSchedule e ∧ ∃ p, late p)

theorem ofSchedule_cases {e : Env} {a : Act} (h : a.ofSchedule e) :
    (∃ uid p q, a = dispatch uid p q ∧ q.eligible e uid p) ∨
    (∃ uid p q, a = asleep uid p q ∧ q.eligible e uid p) ∨ ∃ p, a = wake p := by
  cases a with
  | dispatch uid p q => exact .inl ⟨uid, p, q, rfl, h⟩
  | asleep uid p q => exact .inr (.inl ⟨uid, p, q, rfl, h⟩)
  | wake p => exact .inr (.inr ⟨p, rfl⟩)
  | _ => exact h.elim

theorem ofSweep_cases {e : Env} {late : Job → Prop} {a : Act} (h : a.ofSweep e late) :
    (∃ p, a = relegate p false ∧ late p) ∨
    (∃ r p p' max, a = finish r p p' max ∧ Spool.isDead e p ∧ r = Spool.deadResult e p) ∨
    (∃ l, a = reorder l) ∨ ∃ l, a = forget l := by
  cases a with
  | relegate p requeue =>
    obtain ⟨rfl, hp⟩ := h
    exact .inl ⟨p, rfl, hp⟩
  | finish r p p' max => exact .inr (.inl ⟨r, p, p', max, rfl, h⟩)
  | reorder l => exact .inr (.inr (.inl ⟨l, rfl⟩))
  | forget l => exact .inr (.inr (.inr ⟨l, rfl⟩))
  | _ => exact h.elim

end Act

/-- `s_update_slots_usage`: after the count, nothing is scheduled unless there was a timeout. -/
def Usage (e : Env) (late : Job → Prop) (v v' : View) : Prop :=
  ∃ v₁, Moves (fun a _ => a.ofSweep e late) v v₁ ∧ Act.recount.Guard v₁ ∧
    Moves (fun a _ => a.ofSchedule e ∧ ∃ p, late p) (Act.recount.apply v₁) v'

theorem Usage.moves {e : Env} {late : Job → Prop} {v v' : View} (h : Usage e late v v') :
    Moves (fun a _ => a.ofUsage e late) v v' := by
  obtain ⟨v₁, h₁, hg, h₂⟩ := h
  refine (h₁.mono fun a _ ha => .inl ha).trans ?_
  refine Moves.trans ?_ (h₂.mono fun a _ ha => .inr (.inr ha))
  exact .single .recount hg (.inr (.inl rfl)) rfl

theorem Usage.mono {e : Env} {late late' : Job → Prop} {v v' : View} (h : Usage e late v v')
    (himp : ∀ p, late p → late' p) : Usage e late' v v' := by
  obtain ⟨v₁, h₁, hg, h₂⟩ := h
  refine ⟨v₁, h₁.mono fun a _ ha => ?_, hg, h₂.mono fun a _ ha => ⟨ha.1, ha.2.imp himp⟩⟩
  cases a with
  | relegate p requeue => exact ⟨ha.1, himp p ha.2⟩
  | _ => exact ha

theorem Usage.ids {e : Env} {late : Job → Prop} {v v' : View} (h : Usage e late v v')
    (hids : v.Ids) : v'.Ids :=
  h.moves.ids hids

theorem Usage.nusers_eq {e : Env} {late : Job → Prop} {v v' : View} (h : Usage e late v v') :
    v'.nusers = v.nusers := by
  refine h.moves.nusers_eq fun us n _ ha => ?_
  obtain ha | ha | ha := ha
  · exact ha
  · cases ha
  · exact ha.1

namespace Spool

variable {e : Env} {s s' : Spool} {jobid : ℤ} {ok : Act → View → Prop}

theorem view_has {p : Job} (h : s.findjob p.jobid = some p) : s.view.Has p := by
  rw [View.Has, view_findjob, h, Option.map_some]

theorem findjob_jobid {p : Job} (h : s.findjob jobid = some p) : p.jobid = jobid :=
  Keyed.key_of_lookup h

theorem view_has_of_findjob {p : Job} (h : s.findjob jobid = some p) : s.view.Has p :=
  view_has (by rw [findjob_jobid h, h])

/-! ### The end of a job -/

theorem jobFinished_spec {r : Result} (h : s.jobFinished e r jobid = .ok s') :
    ∃ p p', s.findjob jobid = some p ∧ 0 ≤ s.busySlots ∧
      (Act.finish r p p' e.maxFinished).Guard s.view ∧
      s'.view = (Act.finish r p p' e.maxFinished).apply s.view := by
  rw [jobFinished] at h
  split_ifs at h with hbusy
  cases hp : s.findjob jobid with
  | none => simp [hp] at h
  | some p =>
    simp only [hp] at h
    obtain rfl := findjob_jobid hp
    have hmid : ((s.onQueue fun q => q.finish r p).modJob p.jobid (finishInfo e r)).view =
        s.view.onQueue fun q => q.finish r p := by
      rw [view_modJob_quiet, view_onQueue (fun q => q.finish r p) (Queue.strip_finish r p)]
      intro p
      simp only [finishInfo]
      split_ifs <;> rfl
    split at h
    · cases h
    · rename_i p' hp'
      cases h
      refine ⟨p, p', rfl, by omega, ⟨view_has hp, ?_⟩, ?_⟩
      · have := congrArg (fun v : View => v.findjob p.jobid) hmid
        simp only [view_findjob, hp', Option.map_some] at this
        exact this.symm
      · rw [view_log, view_newFinishedJob,
          view_dropJob, hmid]
        rfl

theorem notifyWaiter_moves {socket : ℤ} (hok : ∀ a v, Act.ofNotify a → ok a v)
    (h : s.notifyWaiter jobid socket = .ok s') : Moves ok s.view s'.view := by
  rw [notifyWaiter] at h
  cases hj : s.getJob jobid with
  | none => simp [hj] at h
  | some j =>
    simp only [hj] at h
    split_ifs at h
    · unfold destroyFinishedJob at h
      split at h
      · cases h
      · cases h
        refine .single (.forget (Keyed.remove Job.jobid jobid s.view.finishedJobs))
          List.eraseP_sublist (hok _ _ trivial) ?_
        have := Keyed.remove_map (c := Job.jobid) (d := Job.jobid) (k := jobid)
          (l := s.finishedJobs) (h := Job.strip) fun _ => rfl
        simp only [view, Queue.strip, Act.apply, View.onQueue, this]
        rfl
    · cases h
      exact .of_eq rfl
    · cases h
      exact .refl

theorem checkNotifyList_moves (ok : Act → View → Prop) (hok : ∀ a v, Act.ofNotify a → ok a v)
    (h : s.checkNotifyList jobid = .ok s') : Moves ok s.view s'.view :=
  Except.foldlM_induction (R := fun s s' : Spool => Moves ok s.view s'.view) (fun _ => .refl)
    (fun h h' => h.trans h') (fun _ h => notifyWaiter_moves hok h) h

theorem sDeleteJob_spec (h : s.sDeleteJob jobid = .ok s') :
    ∃ p, s.findjob jobid = some p ∧ s'.view = (Act.delete p).apply s.view := by
  rw [sDeleteJob] at h
  cases hp : s.findjob jobid with
  | none => simp [hp] at h
  | some p =>
    simp only [hp, Except.ok.injEq] at h
    obtain rfl := findjob_jobid hp
    refine ⟨p, rfl, ?_⟩
    rw [← h, view_log, view_deleteJobsDb, view_dropJob]
    rfl

/-! ### The scheduler -/

theorem pid_pos_of_isSleep {p : Job} (h : s.isSleep e p = 1) : 0 < p.pid := by
  rw [isSleep] at h
  split_ifs at h with hpid
  all_goals omega

theorem sMarkJobRunning_spec {p : Job} (hp : s.findjob p.jobid = some p)
    (h : s.sMarkJobRunning e p.jobid = .ok s') :
    s'.view = s.view.onQueue (fun q => q.start p) ∨
    s'.view = s.view.onQueue (fun q => q.modJob p.jobid (Job.setState .pause)) ∧
      s.isSleep e p = 1 := by
  rw [sMarkJobRunning] at h
  simp only [hp] at h
  have hquiet : ∀ f, (s.modJob p.jobid (Job.setOutput f)).view = s.view :=
    fun f => view_modJob_quiet fun _ => rfl
  split_ifs at h with hsleep
  · cases h
    refine .inr ⟨?_, hsleep⟩
    rw [view_modJob (g := Job.setState .pause) fun _ => rfl, hquiet]
  · -- the record differs from `p` in its output file at most, which `start` does not read
    cases h
    left
    rw [view_configRunning, hquiet]
    rfl

theorem sSendRunjob_spec {socket : ℤ} (h : s.sSendRunjob socket jobid = .ok s') :
    ∃ p, s.findjob jobid = some p ∧ s' = s.send socket (.runjob jobid p.dependencyErrorlevel) := by
  rw [sSendRunjob] at h
  cases hp : s.findjob jobid with
  | none => simp [hp] at h
  | some p =>
    simp only [hp, Except.ok.injEq] at h
    exact ⟨p, rfl, h.symm⟩

theorem sSendRunjob_view {socket : ℤ} (h : s.sSendRunjob socket jobid = .ok s') :
    s'.view = s.view := by
  obtain ⟨p, -, rfl⟩ := sSendRunjob_spec h
  rfl

theorem takeJob_spec {uid : ℕ} {p : Job} (hp : s.findjob p.jobid = some p)
    (h : s.takeJob e uid p = .ok s') :
    s'.view = (s.view.onQueue fun q =>
      (if p.state = .queued then q.uncountQueued (some uid) else q).start p) ∨
    s'.view = (s.view.onQueue fun q =>
      (q.uncountQueued (some uid)).modJob p.jobid (Job.setState .pause)) ∧
      p.state = .queued ∧ s.isSleep e p = 1 := by
  rw [takeJob] at h
  split_ifs at h with hq
  · have hp' : (s.onQueue fun q => q.uncountQueued (some uid)).findjob p.jobid = some p := hp
    obtain hv | ⟨hv, hsleep⟩ := sMarkJobRunning_spec hp' h
    · left
      rw [hv, view_uncountQueued]
      simp only [hq, if_true, View.onQueue_onQueue]
    · right
      rw [hv, view_uncountQueued]
      exact ⟨rfl, hq, hsleep⟩
  · cases h
    left
    rw [view_configRunning]
    simp only [hq, if_false]

/-- What the body of the job loop of `next_run_job` does for the job it found. -/
theorem dispatch_spec {uid : ℕ} {p : Job} (hp : s.findjob p.jobid = some p)
    (h : s.dispatch e uid p = .ok s') :
    s'.view = (Act.dispatch uid p s.toQueue).apply s.view ∨
    s'.view = (Act.asleep uid p s.toQueue).apply s.view ∧ p.state = .queued ∧
      s.isSleep e p = 1 := by
  simp only [dispatch, Except.bind_eq_ok] at h
  obtain ⟨s₁, h₁, s₂, h₂, h⟩ := h
  cases h
  have hend : ((s₂.onQueue fun q => q.served uid).log (.dispatch p s.toQueue)).view =
      (s₁.view.onQueue fun q => q.served uid).log (.dispatch p s.toQueue) := by
    obtain ⟨_, -, rfl⟩ := sSendRunjob_spec h₂
    rfl
  rw [hend]
  obtain hv | ⟨hv, hq, hsleep⟩ := takeJob_spec hp h₁
  · left
    rw [hv]
    rfl
  · right
    rw [hv]
    exact ⟨rfl, hq, hsleep⟩

theorem nodup_of_ids (hids : s.view.Ids) : (s.activeJobs.map Job.jobid).Nodup := by
  have h := hids.nodup
  simp only [view, Queue.strip, List.map_map] at h
  exact h

theorem findjob_of_mem {p : Job} (hids : s.view.Ids) (hp : p ∈ s.activeJobs) :
    s.findjob p.jobid = some p :=
  Keyed.lookup_of_mem (nodup_of_ids hids) hp

theorem dispatch_guard {uid : ℕ} {p : Job} (hids : s.view.Ids) (huid : uid < s.nusers)
    (hqueue : (s.users uid).queue ≠ 0) (hroom : 0 < s.maxSlots - s.busySlots)
    (hmem : p ∈ s.activeJobs) (hel : s.eligible e uid p) :
    (Act.dispatch uid p s.toQueue).Guard s.view := by
  have hfind := findjob_of_mem hids hmem
  simp only [Queue.eligible, Queue.queuedReady, Queue.retryReady, decide_eq_true_eq] at hel
  obtain ⟨huser, hready⟩ := hel
  have hdeps : s.view.depsReady p = s.depsReady p := Queue.strip_depsReady p
  obtain ⟨hq, hd, -, hsock, hfits⟩ | ⟨hpause, hwall, -, hfits⟩ := hready
  · exact ⟨rfl, view_has hfind, hmem, huser, huid, hfits, hqueue, hroom,
      .inl ⟨hq, hdeps.trans hd, hsock⟩⟩
  · exact ⟨rfl, view_has hfind, hmem, huser, huid, hfits, hqueue, hroom, .inr ⟨hpause, hwall⟩⟩

theorem dispatch_act {uid : ℕ} {p : Job} (hids : s.view.Ids) (huid : uid < s.nusers)
    (hqueue : (s.users uid).queue ≠ 0) (hroom : 0 < s.maxSlots - s.busySlots)
    (hmem : p ∈ s.activeJobs) (hel : s.eligible e uid p) (h : s.dispatch e uid p = .ok s') :
    ∃ a, (a = Act.dispatch uid p s.toQueue ∨ a = Act.asleep uid p s.toQueue) ∧ a.Guard s.view ∧
      s'.view = a.apply s.view := by
  have hfind := findjob_of_mem hids hmem
  obtain hv | ⟨hv, hq, hsleep⟩ := dispatch_spec hfind h
  · exact ⟨_, .inl rfl, dispatch_guard hids huid hqueue hroom hmem hel, hv⟩
  · refine ⟨_, .inr rfl, ?_, hv⟩
    have hdeps : s.view.depsReady p = s.depsReady p := Queue.strip_depsReady p
    simp only [Queue.eligible, Queue.queuedReady, Queue.retryReady, decide_eq_true_eq] at hel
    obtain ⟨huser, ⟨-, hd, -⟩ | ⟨hpause, -⟩⟩ := hel
    · exact ⟨rfl, view_has hfind, hmem, huser, huid, hqueue, hq, hdeps.trans hd,
        pid_pos_of_isSleep hsleep⟩
    · simp [hpause] at hq

theorem dispatch_moves {uid : ℕ} {p : Job} (hids : s.view.Ids) (huid : uid < s.nusers)
    (hqueue : (s.users uid).queue ≠ 0) (hroom : 0 < s.maxSlots - s.busySlots)
    (hmem : p ∈ s.activeJobs) (hel : s.eligible e uid p) (h : s.dispatch e uid p = .ok s') :
    Moves (fun a _ => a.ofRound e) s.view s'.view := by
  obtain ⟨a, rfl | rfl, hg, hv⟩ := dispatch_act hids huid hqueue hroom hmem hel h
  · exact .single _ hg hel hv
  · exact .single _ hg hel hv

theorem round_moves {l : List ℕ} {found found' : Bool} (hids : s.view.Ids)
    (hn : ∀ i ∈ l, i < s.nusers) (h : round e l (s, found) = .ok (s', found')) :
    Moves (fun a _ => a.ofRound e) s.view s'.view := by
  induction l generalizing s found with
  | nil =>
    cases h
    exact .refl
  | cons i l ih =>
    have hn' : ∀ i ∈ l, i < s.nusers := fun j hj => hn j (List.mem_cons_of_mem _ hj)
    have huid : (s.lastUid + i) % s.nusers < s.nusers :=
      Nat.mod_lt _ ((Nat.zero_le _).trans_lt (hn i List.mem_cons_self))
    rw [round] at h
    split_ifs at h with hqueue hroom
    · exact ih hids hn' h
    · cases h
      exact .refl
    · split at h
      · exact ih hids hn' h
      · rename_i p hp
        rw [Except.bind_eq_ok] at h
        obtain ⟨s₁, h₁, h⟩ := h
        have hm := dispatch_moves hids huid hqueue (by omega) (List.mem_of_find?_eq_some hp)
          (List.find?_some hp) h₁
        refine hm.trans (ih (hm.ids hids) ?_ h)
        have hnusers : s₁.nusers = s.nusers := hm.nusers_eq fun _ _ _ h => h
        rw [hnusers]
        exact hn'

theorem wakeHeld_moves (fuel : ℕ) (hids : s.view.Ids) :
    Moves (fun a _ => ∃ p, a = .wake p) s.view (wakeHeld fuel s).view := by
  induction fuel generalizing s with
  | zero => exact .refl
  | succ fuel ih =>
    rw [wakeHeld]
    split
    · exact .refl
    · rename_i p hp
      have hmem := List.mem_of_find?_eq_some hp
      have hstate := List.find?_some hp
      have hwake : Moves (fun a _ => ∃ p, a = .wake p) s.view
          (s.modJob p.jobid (Job.setState .queued)).view := by
        refine .single (.wake p) ⟨view_has (findjob_of_mem hids hmem), by simpa using hstate⟩
          ⟨p, rfl⟩ ?_
        rw [view_modJob (g := Job.setState .queued) fun _ => rfl]
        rfl
      dsimp only
      split_ifs
      · exact hwake
      · split
        · exact hwake.trans (ih (hwake.ids hids))
        · refine hwake.trans (Moves.trans (.of_eq (view_send _ _)) (ih ?_))
          exact hwake.ids hids

/-- A pass over all users. -/
theorem round_schedules {found : Bool} (hids : s.view.Ids)
    (h : round e (List.range s.nusers) (s, false) = .ok (s', found)) :
    Moves (fun a _ => a.ofSchedule e) s.view s'.view :=
  (round_moves hids (fun _ hi => List.mem_range.1 hi) h).mono fun _ _ => Act.ofRound.ofSchedule

theorem wakeAll_schedules (hids : s.view.Ids) :
    Moves (fun a _ => a.ofSchedule e) s.view s.wakeAllHeldClients.view := by
  refine (wakeHeld_moves _ hids).mono fun a _ ha => ?_
  obtain ⟨p, rfl⟩ := ha
  trivial

theorem nextRunLoop_moves {fuel : ℕ} (hids : s.view.Ids) (h : nextRunLoop e fuel s = .ok s') :
    Moves (fun a _ => a.ofSchedule e) s.view s'.view := by
  induction fuel generalizing s with
  | zero => cases h
  | succ fuel ih =>
    rw [nextRunLoop] at h
    split_ifs at h
    · cases h
      exact .refl
    · rw [Except.bind_eq_ok] at h
      obtain ⟨⟨s₁, found⟩, h₁, h⟩ := h
      have hround := round_schedules hids h₁
      dsimp only at h
      split_ifs at h
      · have hwake := wakeAll_schedules (e := e) (hround.ids hids)
        exact (hround.trans hwake).trans (ih (hwake.ids (hround.ids hids)) h)
      · cases h
        exact hround

/-- **`next_run_job` is a sequence of dispatches and of held clients that wake up.** -/
theorem nextRunJob_moves (hids : s.view.Ids) (h : s.nextRunJob e = .ok s') :
    Moves (fun a _ => a.ofSchedule e) s.view s'.view :=
  nextRunLoop_moves hids h

/-! ### The recount -/

/-- The jobs that `s_check_timeout` relegates. -/
def Late (e : Env) (s : Spool) (p : Job) : Prop := p ∈ s.activeJobs ∧ timedOut e p

theorem view_sRelegateJob (p : Job) :
    (s.sRelegateJob e p).view = s.view.onQueue fun q =>
      (if p.state = .running then q.freeCores p else q).modJob p.jobid Job.relegated := by
  rw [sRelegateJob, view_modJob (g := Job.relegated) fun _ => rfl, view_updateDb]
  split_ifs
  · rw [view_safePauseJob]
    rfl
  · rfl

theorem relegate_keeps_has {v : View} {p p' : Job} (hne : p'.jobid ≠ p.jobid) (h : v.Has p') :
    (v.onQueue fun q =>
      (if p.state = .running then q.freeCores p else q).modJob p.jobid Job.relegated).Has p' := by
  refine (Queue.findjob_modJob_of_ne (f := Job.relegated) (fun _ h => h) hne).trans ?_
  split_ifs
  · exact (Queue.findjob_freeCores_of_ne hne).trans h
  · exact h

theorem relegateAll_moves (late : Job → Prop) {l : List Job}
    (hnd : (l.map Job.jobid).Nodup) (hhas : ∀ p ∈ l, s.view.Has p)
    (hlate : ∀ p ∈ l, late p ∧ timedOut e p) :
    Moves (fun a _ => a.ofSweep e late) s.view (l.foldl (fun s p => s.sRelegateJob e p) s).view := by
  induction l generalizing s with
  | nil => exact .refl
  | cons p l ih =>
    rw [List.map_cons, List.nodup_cons] at hnd
    obtain ⟨hp, hto⟩ := hlate p List.mem_cons_self
    simp only [timedOut, checkTimeout, decide_eq_true_eq] at hto
    refine Moves.trans (.single (.relegate p false) ?_ ⟨rfl, hp⟩ (view_sRelegateJob (e := e) p)) ?_
    · exact ⟨hhas p List.mem_cons_self, .inl hto.1, fun _ => ⟨hto.1, hto.2.1⟩⟩
    · refine ih hnd.2 (fun p' hp' => ?_) fun p' hp' => hlate p' (List.mem_cons_of_mem _ hp')
      rw [view_sRelegateJob]
      refine relegate_keeps_has ?_ (hhas p' (List.mem_cons_of_mem _ hp'))
      intro heq
      exact hnd.1 (heq ▸ List.mem_map_of_mem hp')

theorem sCheckTimeout_moves (hids : s.view.Ids) :
    Moves (fun a _ => a.ofSweep e (Late e s)) s.view (s.sCheckTimeout e).1.view := by
  have hmem : ∀ p ∈ (s.activeJobs.filter (timedOut e)).reverse, p ∈ s.activeJobs ∧ timedOut e p := by
    intro p hp
    rw [List.mem_reverse, List.mem_filter] at hp
    exact hp
  have hnd : ((s.activeJobs.filter (timedOut e)).reverse.map Job.jobid).Nodup := by
    rw [List.map_reverse, List.nodup_reverse]
    exact (nodup_of_ids hids).sublist (List.filter_sublist.map _)
  have hrel := relegateAll_moves (s := s) (Late e s) hnd
    (fun p hp => view_has (findjob_of_mem hids (hmem p hp).1)) fun p hp => ⟨hmem p hp, (hmem p hp).2⟩
  refine hrel.trans ?_
  rw [sCheckTimeout]
  dsimp only
  rw [view_foldl fun s jobid => view_movebottomDb]
  refine .single (.reorder _) ?_ trivial rfl
  exact (Keyed.perm_move_last (nodup_of_ids (hrel.ids hids)) hnd).map Job.strip

theorem sCheckTimeout_late (h : (s.sCheckTimeout e).2 = true) : ∃ p, Late e s p := by
  simp only [sCheckTimeout, Bool.not_eq_true', List.isEmpty_eq_false_iff_exists_mem] at h
  obtain ⟨p, hp⟩ := h
  rw [List.mem_reverse, List.mem_filter] at hp
  exact ⟨p, hp⟩

theorem sweepJob_moves {late : Job → Prop} (h : s.sweepJob e jobid = .ok s') :
    Moves (fun a _ => a.ofSweep e late) s.view s'.view := by
  rw [sweepJob] at h
  cases hp : s.findjob jobid with
  | none =>
    simp only [hp, Except.ok.injEq] at h
    exact .of_eq (by rw [h])
  | some p =>
    simp only [hp] at h
    split_ifs at h with hdead
    · rw [Except.bind_eq_ok] at h
      obtain ⟨s₁, h₁, h⟩ := h
      obtain ⟨p₁, p', hp₁, -, hg, hv⟩ := jobFinished_spec h₁
      obtain rfl : p = p₁ := Option.some.inj (hp.symm.trans hp₁)
      refine Moves.trans (.single _ hg ⟨hdead, rfl⟩ hv) (checkNotifyList_moves _ ?_ h)
      intro a _ ha
      cases a with
      | forget l => trivial
      | _ => exact ha.elim
    · cases h
      exact .refl

theorem sweepDead_moves (late : Job → Prop) (h : s.sweepDead e = .ok s') :
    Moves (fun a _ => a.ofSweep e late) s.view s'.view :=
  Except.foldlM_induction (R := fun s s' : Spool => Moves _ s.view s'.view) (fun _ => .refl)
    (fun h h' => h.trans h') (fun _ h => sweepJob_moves h) h

theorem recount_spec (h : s.recount = .ok s') :
    Act.recount.Guard s.view ∧ s'.view = Act.recount.apply s.view := by
  rw [recount] at h
  split_ifs at h with hnone
  have hguard : Act.recount.Guard s.view := by
    intro p hp
    simp only [view, Queue.strip, List.mem_map] at hp
    obtain ⟨p, hp, rfl⟩ := hp
    simp only [List.any_eq_true, decide_eq_true_eq, not_exists, not_and] at hnone
    exact hnone p hp
  have hview := view_onQueue (s := s) Queue.recount Queue.strip_recount
  have hslots : (s.view.onQueue Queue.recount).busySlots = Queue.runningSlots s.activeJobs :=
    Queue.runningSlots_strip _
  refine ⟨hguard, ?_⟩
  simp only [Act.apply, hslots]
  dsimp only at h
  by_cases husage : Queue.runningSlots s.activeJobs ≠ s.busySlots
  · rw [if_pos husage] at h
    cases h
    rw [view_log, hview]
    exact (if_pos husage).symm
  · rw [if_neg husage] at h
    cases h
    rw [hview]
    exact (if_neg husage).symm

/-- **`s_update_slots_usage`** on the view. -/
theorem sUpdateSlotsUsage_usage (hids : s.view.Ids) (h : s.sUpdateSlotsUsage e = .ok s') :
    Usage e (Late e s) s.view s'.view := by
  rw [sUpdateSlotsUsage] at h
  have htime := sCheckTimeout_moves (e := e) hids
  have hlate := sCheckTimeout_late (e := e) (s := s)
  revert h htime hlate
  generalize s.sCheckTimeout e = r
  obtain ⟨s₀, timeout⟩ := r
  intro h htime hlate
  simp only [Except.bind_eq_ok] at h
  obtain ⟨s₁, h₁, s₂, h₂, h⟩ := h
  obtain ⟨hg, hv⟩ := recount_spec h₂
  refine ⟨s₁.view, htime.trans (sweepDead_moves _ h₁), hg, ?_⟩
  rw [← hv]
  have hids₂ : s₂.view.Ids := by
    rw [hv]
    exact Act.ids_apply ((sweepDead_moves (fun _ => False) h₁).ids (htime.ids hids)) hg
  split_ifs at h with htimeout
  · exact (nextRunJob_moves hids₂ h).mono fun _ _ ha => ⟨ha, hlate htimeout⟩
  · cases h
    exact .refl

end Spool

end TaskSpooler
