import TaskSpooler.Ops.Sent
import TaskSpooler.Server.Runs

/-!
# Refused submissions

A submission begins with a recount, which may end other jobs (`dead_job_swept`).  If it is refused
then, it leaves the other jobs and their rows as the recount has left them, and no job or row of its
own (`refused_submission`).

There are two exceptions.  A job that is submitted again with more slots than its user may have is
dropped, and its row is left (`oversized_dropped`).  A job with the id `-1` is taken for a refused one
when it has been added.  And the jobs on which a held job depends keep its id among those that they
tell their results.
-/

namespace TaskSpooler

/-- The job without the list of the jobs that it tells its result. -/
def Job.untold (p : Job) : Job := { p with notifyErrorlevelTo := [] }

theorem Keyed.remove_append_singleton {α κ : Type*} [DecidableEq κ] {c : α → κ} {l : List α} {a : α}
    (h : ∀ x ∈ l, c x ≠ c a) : remove c (c a) (l ++ [a]) = l := by
  rw [remove, List.eraseP_append_right _ (by simpa using h), List.eraseP_cons_of_pos (by simp),
    List.append_nil]

namespace Spool

variable {e : Env} {s s' s'' : Spool} {m : NewJob} {p : Job} {socket id : ℤ} {user : ℕ}

/-- The job that the message addresses waits to be submitted again, and is to have more slots than
the user may have. -/
def Oversized (s : Spool) (m : NewJob) (user : ℕ) : Prop :=
  (m.jobid ≠ 0 ∧ ∃ p, s.findjob m.jobid = some p ∧
    (p.state = .delink ∨ p.state = .wait ∨ p.state = .locked)) ∧
      0 < (s.users user).maxSlots ∧ (s.users user).maxSlots < m.numSlots

/-- The other jobs and their rows are as before, and there is no new job or row.  If the job was held,
nothing is said of the jobs that are told the results of those on which it depends. -/
structure Untouched (s s' : Spool) (m : NewJob) : Prop where
  activeJobs : s'.activeJobs.map Job.untold = s.activeJobs.map Job.untold
  told : m.dependOnSize = 0 ∨ (s.newjobptr m).state ≠ .holdingClient → s'.activeJobs = s.activeJobs
  finishedJobs : s'.finishedJobs = s.finishedJobs
  dbFinished : s'.dbFinished = s.dbFinished
  rows : ∀ r ∈ s.dbJobs.rows, r.job.jobid ∈ s.activeJobs.map Job.jobid ∨
    r.job.jobid ≠ (s.newjobptr m).jobid → r ∈ s'.dbJobs.rows
  noRow : s'.dbJobs.rows ⊆ s.dbJobs.rows

theorem Untouched.refl : s.Untouched s m :=
  ⟨rfl, fun _ => rfl, rfl, rfl, fun _ hr _ => hr, List.Subset.refl _⟩

theorem Untouched.of_eq (h : s.Untouched s' m) (hq : s''.toQueue = s'.toQueue)
    (hjobs : s''.dbJobs = s'.dbJobs) (hfin : s''.dbFinished = s'.dbFinished) :
    s.Untouched s'' m := by
  refine ⟨?_, ?_, ?_, hfin.trans h.dbFinished, ?_, ?_⟩
  · rw [hq]
    exact h.activeJobs
  · rw [hq]
    exact h.told
  · rw [hq]
    exact h.finishedJobs
  · rw [hjobs]
    exact h.rows
  · rw [hjobs]
    exact h.noRow

/-! ### A job that is filled in -/

theorem untold_notifiedBy {q : Queue} {ds : List ℤ} {k : ℤ} :
    (q.notifiedBy ds k).activeJobs.map Job.untold = q.activeJobs.map Job.untold := by
  have hfold : ∀ (ds : List ℤ) (l : List Job),
      (ds.foldl (fun l d => Keyed.modify Job.jobid d (Job.addNotify k) l) l).map Job.untold =
        l.map Job.untold := by
    intro ds
    induction ds with
    | nil => exact fun l => rfl
    | cons d ds ih =>
      intro l
      rw [List.foldl_cons, ih]
      exact Keyed.map_modify fun _ _ _ => rfl
  exact hfold ds q.activeJobs

theorem dependLoop_untold {q q' : Queue} {p' : Job} (h : q.dependLoop m p = .ok (q', p')) :
    q'.activeJobs.map Job.untold = q.activeJobs.map Job.untold ∧
      (m.dependOnSize = 0 → q'.activeJobs = q.activeJobs) ∧ p'.jobid = p.jobid ∧
        p'.state = p.state := by
  obtain ⟨ds, hq, hp, -⟩ := Queue.dependLoop_spec h
  refine ⟨hq ▸ untold_notifiedBy, fun hsize => ?_, by rw [hp], by rw [hp]⟩
  rw [Queue.dependLoop, if_pos hsize] at h
  cases h
  rfl

/-- What `s_newjob` does to add the job `p` behind the jobs `l`. -/
structure Adds (s s' : Spool) (m : NewJob) (l : List Job) (p : Job) : Prop where
  jobid : p.jobid = (s.newjobptr m).jobid
  state : p.state = (s.newjobptr m).state
  others : l.map Job.untold = s.activeJobs.map Job.untold
  same : m.dependOnSize = 0 → l = s.activeJobs
  activeJobs : s'.activeJobs = l ++ [p]
  finishedJobs : s'.finishedJobs = s.finishedJobs
  dbFinished : s'.dbFinished = s.dbFinished
  row : ∃ r : Row, r.job.jobid = p.jobid ∧ s'.dbJobs = (s.dbJobs.insert r).getD s.dbJobs

theorem newjobEnqueue_added (h : p.state ≠ .wait ∧ p.state ≠ .locked) :
    s.newjobEnqueue p = (s.insertJobsDb p).onQueue fun q => q.countQueued p.user := by
  rw [newjobEnqueue]
  split
  · exact absurd ‹_› h.1
  · exact absurd ‹_› h.2
  · rfl

theorem sent_newjobEnqueue : (s.newjobEnqueue p).sent = s.sent := by
  rw [newjobEnqueue]
  split <;> rfl

theorem findjob_newjobEnqueue {x : Job} (h : (s.newjobEnqueue p).findjob p.jobid = some x) :
    ∃ y, s.findjob p.jobid = some y ∧ (x = y ∨ x.state = .queued) := by
  have hcount : ∀ (s : Spool) u, (s.onQueue fun q => q.countQueued u).findjob p.jobid =
      s.findjob p.jobid := fun s u => congrArg (Keyed.lookup Job.jobid p.jobid) Queue.activeJobs_modUser
  rw [newjobEnqueue] at h
  split at h
  · rw [hcount] at h
    have hq : (s.toQueue.modJob p.jobid (Job.setState .queued)).findjob p.jobid = some x := h
    rw [Queue.findjob_modJob (f := Job.setState .queued) fun _ h => h, if_pos rfl] at hq
    obtain ⟨y, hy, rfl⟩ := Option.map_eq_some_iff.1 hq
    exact ⟨y, hy, .inr rfl⟩
  · exact ⟨x, h, .inl rfl⟩
  · rw [hcount] at h
    exact ⟨x, h, .inl rfl⟩

theorem newjobptr_state : (s.newjobptr m).state = .queued ∨ (s.newjobptr m).state = .holdingClient := by
  rw [newjobptr]
  dsimp only
  split_ifs <;> simp

/-- **A new job** is added unless it is to have too many slots. -/
theorem newjobFill_new (h : s.newjobFill e socket m user none = .ok (s', id)) :
    (id = -1 ∧ s.Untouched s' m) ∨
      id = (s.newjobptr m).jobid ∧ s'.sent = s.sent ∧ ∃ l p, Adds s s' m l p := by
  rw [newjobFill] at h
  dsimp only [Option.getD_none] at h
  simp only [if_true] at h
  split_ifs at h
  · cases h
    exact .inl ⟨rfl, rfl, fun _ => rfl, rfl, rfl, fun _ hr _ => hr, List.Subset.refl _⟩
  · rw [Except.bind_eq_ok] at h
    obtain ⟨⟨q, p⟩, hloop, h⟩ := h
    obtain ⟨hothers, hsame, hid, hst⟩ := dependLoop_untold hloop
    obtain ⟨ds, hq, -, -⟩ := Queue.dependLoop_spec hloop
    have hst' : (newjobTexts e m p).state = (s.newjobptr m).state := hst
    have hadd : (newjobTexts e m p).state ≠ .wait ∧ (newjobTexts e m p).state ≠ .locked := by
      rw [hst']
      obtain h | h := newjobptr_state (s := s) (m := m) <;> simp [h]
    dsimp only at h
    rw [newjobEnqueue_added hadd] at h
    cases h
    refine .inr ⟨hid, rfl, q.activeJobs, newjobTexts e m p, hid, hst', hothers, hsame,
      Queue.activeJobs_modUser, Eq.trans Queue.finishedJobs_modUser ?_, rfl, ⟨_, ?_, rfl⟩⟩
    · show q.finishedJobs = s.finishedJobs
      rw [hq]
      rfl
    · rfl

/-- A job that is submitted again is not held, unless it is to have too many slots. -/
theorem newjobFill_again {old : Job} (hfind : s.findjob m.jobid = some old)
    (hstate : old.state = .delink ∨ old.state = .wait ∨ old.state = .locked)
    (h : s.newjobFill e socket m user (some old) = .ok (s', id)) :
    (0 < (s.users user).maxSlots ∧ (s.users user).maxSlots < m.numSlots) ∨
    id = m.jobid ∧ s'.sent = s.sent ∧ ∀ p, s'.findjob id = some p → p.state ≠ .holdingClient := by
  have hold : old.jobid = m.jobid := findjob_jobid hfind
  rw [newjobFill] at h
  dsimp only [Option.getD_some] at h
  simp only [reduceCtorEq, if_false] at h
  split_ifs at h with hlimit
  · exact .inl hlimit
  · rw [Except.bind_eq_ok] at h
    obtain ⟨⟨q, p⟩, hloop, h⟩ := h
    obtain ⟨-, -, hid, hst⟩ := dependLoop_untold hloop
    cases h
    have hk : (newjobTexts e m p).jobid = m.jobid := hid.trans hold
    refine .inr ⟨hk, sent_newjobEnqueue, fun x hx => ?_⟩
    obtain ⟨y, hy, hxy⟩ := findjob_newjobEnqueue hx
    have hfill : (q.modJob (newjobTexts e m p).jobid fun _ => newjobTexts e m p).findjob
        (newjobTexts e m p).jobid = some y := hy
    rw [Queue.findjob_modJob (fun _ _ => rfl), if_pos rfl] at hfill
    obtain ⟨z, -, rfl⟩ := Option.map_eq_some_iff.1 hfill
    have hyst : (newjobTexts e m p).state = old.state := hst
    obtain rfl | hqueued := hxy
    · rw [hyst]
      obtain h | h | h := hstate <;> simp [h]
    · simp [hqueued]

/-! ### A held job that is deleted -/

theorem rows_insert_delete {t : Table} {r : Row} {k : ℤ} (hr : r.job.jobid = k) :
    (((t.insert r).getD t).delete k).rows = t.rows.filter fun r => r.job.jobid ≠ k := by
  rw [Table.insert]
  split_ifs
  · rfl
  · show (t.rows ++ [r]).filter (fun r => r.job.jobid ≠ k) = _
    rw [List.filter_append, List.filter_cons_of_neg (by simp [hr]), List.filter_nil, List.append_nil]

theorem Adds.free {l : List Job} (h : Adds s s' m l p) (hnone : s.findjob p.jobid = none) :
    ∀ x ∈ l, x.jobid ≠ p.jobid := by
  intro x hx
  have hmem : x.untold ∈ s.activeJobs.map Job.untold := h.others ▸ List.mem_map_of_mem hx
  obtain ⟨y, hy, hyx⟩ := List.mem_map.1 hmem
  have hid : y.untold.jobid = x.untold.jobid := by rw [hyx]
  change y.jobid = x.jobid at hid
  rw [← hid]
  exact Keyed.lookup_eq_none.1 hnone y hy

theorem Adds.findjob {l : List Job} (h : Adds s s' m l p) (hnone : s.findjob p.jobid = none) :
    s'.findjob p.jobid = some p := by
  have hl : l.find? (fun x => decide (x.jobid = p.jobid)) = none := by
    rw [List.find?_eq_none]
    simpa using h.free hnone
  rw [Queue.findjob, h.activeJobs, Keyed.lookup, List.find?_append, hl]
  simp

/-- **A held job that is deleted** leaves the other jobs as they were before it was added. -/
theorem Adds.deleted {l : List Job} (h : Adds s s' m l p) (hnone : s.findjob p.jobid = none)
    (hheld : p.state = .holdingClient) (hdel : s'.sDeleteJob p.jobid = .ok s'') :
    s.Untouched s'' m := by
  rw [sDeleteJob] at hdel
  split at hdel
  · cases hdel
  · cases hdel
    have hactive : Keyed.remove Job.jobid p.jobid s'.activeJobs = l := by
      rw [h.activeJobs]
      exact Keyed.remove_append_singleton (h.free hnone)
    obtain ⟨r, hr, hrow⟩ := h.row
    have hrows : (s'.dbJobs.delete p.jobid).rows =
        s.dbJobs.rows.filter fun r => r.job.jobid ≠ p.jobid := by
      rw [hrow, rows_insert_delete hr]
    refine ⟨?_, fun htold => ?_, h.finishedJobs, h.dbFinished, fun r hr hkept => ?_, ?_⟩
    · show (Keyed.remove Job.jobid p.jobid s'.activeJobs).map Job.untold = _
      rw [hactive, h.others]
    · show Keyed.remove Job.jobid p.jobid s'.activeJobs = _
      rw [hactive, h.same (htold.resolve_right fun hne => hne (h.state.symm.trans hheld))]
    · show r ∈ (s'.dbJobs.delete p.jobid).rows
      rw [hrows, List.mem_filter, decide_eq_true_eq]
      refine ⟨hr, ?_⟩
      obtain hmem | hne := hkept
      · obtain ⟨x, hx, hxr⟩ := List.mem_map.1 hmem
        rw [← hxr]
        exact Keyed.lookup_eq_none.1 hnone x hx
      · rwa [h.jobid]
    · show (s'.dbJobs.delete p.jobid).rows ⊆ _
      rw [hrows]
      exact List.filter_subset_self _

/-! ### The submission -/

/-- **`s_newjob`** refuses the submission and touches nothing, or fills in a job. -/
theorem sNewjob_outcome (hids : s.view.Ids) (h : s.sNewjob e socket m user = .ok (s', id)) :
    ∃ s₁, s.sUpdateSlotsUsage e = .ok s₁ ∧
      ((s₁.newjobptr m).jobid ≠ -1 → ¬s₁.Oversized m user → (id = -1 ∧ s₁.Untouched s' m) ∨
        id ≠ -1 ∧ Says Reply.ofUsage s s' ∧ ∀ p, s'.findjob id = some p → p.state = .holdingClient →
          s₁.findjob p.jobid = none ∧ ∃ l, Adds s₁ s' m l p) := by
  rw [sNewjob, Except.bind_eq_ok] at h
  obtain ⟨s₁, h₁, h⟩ := h
  have htalk := says_sUpdateSlotsUsage hids h₁
  have hids₁ : s₁.view.Ids := (sUpdateSlotsUsage_ops hids h₁).ids hids
  refine ⟨s₁, h₁, fun hid hover => ?_⟩
  split at h
  · rename_i hnone
    have hfree : s₁.findjob (s₁.newjobptr m).jobid = none :=
      findjob_newjobptr hids₁ hnone
    obtain hrefused | ⟨rfl, hsent, l, p, hadds⟩ := newjobFill_new h
    · exact .inl hrefused
    · refine .inr ⟨hid, htalk.trans (.of_eq hsent), fun x hx _ => ?_⟩
      have hnone : s₁.findjob p.jobid = none := hadds.jobid ▸ hfree
      rw [← hadds.jobid, hadds.findjob hnone, Option.some.injEq] at hx
      exact hx ▸ ⟨hnone, l, hadds⟩
  · rename_i p hp
    have hm : m.jobid ≠ 0 := fun hm => by
      rw [if_pos hm] at hp
      cases hp
    rw [if_neg hm] at hp
    split_ifs at h with hstate
    · obtain hlimit | ⟨rfl, hsent, hno⟩ := newjobFill_again hp hstate h
      · exact absurd ⟨⟨hm, p, hp, hstate⟩, hlimit⟩ hover
      · have hmid : (s₁.newjobptr m).jobid = m.jobid := if_pos hm
        exact .inr ⟨hmid ▸ hid, htalk.trans (.of_eq hsent), fun x hx hheld => absurd hheld (hno x hx)⟩
    · cases h
      exact .inl ⟨rfl, Untouched.refl.of_eq rfl rfl rfl⟩

/-- **A job that is submitted again with too many slots** is dropped, and its row is left. -/
theorem oversized_dropped (h : s.sUpdateSlotsUsage e = .ok s') (hover : s'.Oversized m user) :
    ∃ s'', s.sNewjob e socket m user = .ok (s'', -1) ∧
      s''.activeJobs = Keyed.remove Job.jobid m.jobid s'.activeJobs ∧ s''.dbJobs = s'.dbJobs := by
  obtain ⟨⟨hm, p, hp, hstate⟩, hlimit⟩ := hover
  obtain ⟨f, hnew, hf⟩ : ∃ f, s.sNewjob e socket m user = s.sUpdateSlotsUsage e >>= f ∧
      f s' = s'.newjobFill e socket m user (some p) :=
    ⟨_, rfl, by simp only [if_neg hm, hp, if_pos hstate]⟩
  have hlimit' : 0 < (s'.users user).maxSlots ∧
      (s'.users user).maxSlots < (newjobOwner socket m user p).numSlots := hlimit
  have hrun : s.sNewjob e socket m user = f s' := by
    rw [hnew, h]
    rfl
  rw [hrun, hf, newjobFill]
  simp only [Option.getD_some, reduceCtorEq, if_false, if_pos hlimit']
  refine ⟨_, rfl, ?_, rfl⟩
  rw [← findjob_jobid hp]
  rfl

end Spool

namespace Server

variable {e : Env} {s s₀ s' : Server} {index : ℕ} {m : NewJob} {C : Config}

theorem newjob_refused (hs : s.Sound)
    (hnok : ((s.clientCs index).socket, .newjobNok) ∈ s.sentSince s'.toSpool)
    (h : s.newjob e index m = .ok s') :
    ∃ sp, (s.sCheckLocker e (s.clientCs index).user).1.sUpdateSlotsUsage e = .ok sp ∧
      ((sp.newjobptr m).jobid ≠ -1 → ¬sp.Oversized m (s.clientCs index).user →
        sp.Untouched s'.toSpool m) := by
  have hno : ¬Spool.Says Reply.ofUsage s.toSpool s'.toSpool := fun htalk => htalk.sentSince hnok
  rw [newjob] at h
  have hsent : (s.sCheckLocker e (s.clientCs index).user).1.sent = s.sent := by
    rw [Spool.sCheckLocker]
    dsimp only
    split_ifs <;> rfl
  have hview := Spool.view_sCheckLocker (s := s.toSpool) e (s.clientCs index).user
  revert h hsent hview
  generalize s.toSpool.sCheckLocker e (s.clientCs index).user = lock
  obtain ⟨sp, locked⟩ := lock
  intro h hsent hview
  have hlock : Spool.Says Reply.ofUsage s.toSpool sp := .of_eq hsent
  dsimp only at h
  by_cases hl : locked
  · rw [if_pos hl] at h
    cases h
    exact absurd hlock hno
  · rw [if_neg hl, Except.bind_eq_ok] at h
    obtain ⟨⟨sp₁, jobid⟩, h₁, h⟩ := h
    obtain ⟨sp₀, h₀, hout⟩ := Spool.sNewjob_outcome (hview ▸ hs.ids) h₁
    refine ⟨sp₀, h₀, fun hid hover => ?_⟩
    dsimp only at h
    -- refused by `s_newjob` itself, or held in a full queue by a client that does not wait
    obtain ⟨rfl, huntouched⟩ | ⟨hne, htalk, hheld⟩ := hout hid hover
    · rw [if_pos rfl] at h
      obtain ⟨sp₂, hsp, rfl⟩ := clean_spec h
      rw [if_neg (by simp [modConn])] at hsp
      subst hsp
      exact huntouched.of_eq rfl rfl rfl
    · rw [if_neg hne] at h
      have hjob : ({ s with toSpool := sp₁ }.modConn index fun c =>
        { c with jobid := jobid, hasjob := true }).findjob jobid = sp₁.findjob jobid := rfl
      rw [hjob] at h
      by_cases hhold : sp₁.findjob jobid |>.any fun p => p.state = .holdingClient
      · rw [if_pos hhold] at h
        split_ifs at h with hwait
        · cases h
          exact absurd (hlock.trans htalk) hno
        · obtain ⟨sp₂, hsp, rfl⟩ := clean_spec h
          rw [if_pos (by simp [modConn, onSpool])] at hsp
          simp only [modConn, onSpool, Function.update_self] at hsp
          rw [Option.any_eq_true] at hhold
          obtain ⟨p, hp, hstate⟩ := hhold
          have hstate' : p.state = .holdingClient := by simpa using hstate
          have hfind : (sp₁.send (s.clientCs index).socket .newjobNok).findjob jobid = some p := hp
          rw [cleanJob] at hsp
          simp only [hfind, hstate', reduceCtorEq, or_self, if_false] at hsp
          obtain ⟨hnone, l, hadds⟩ := hheld p hp hstate'
          obtain rfl := Spool.findjob_jobid hp
          have hadds' : Spool.Adds sp₀ (sp₁.send (s.clientCs index).socket .newjobNok) m l p :=
            ⟨hadds.1, hadds.2, hadds.3, hadds.4, hadds.5, hadds.6, hadds.7, hadds.8⟩
          exact (hadds'.deleted hnone hstate' hsp).of_eq rfl rfl rfl
      · rw [if_neg hhold] at h
        cases h
        have hok : Reply.ofUsage (.newjobOk jobid) := trivial
        exact absurd ((hlock.trans htalk).trans (.send hok)) hno

/-- **A refused submission** leaves the other jobs and their rows as the recount at its beginning has
left them, unless the job that it addresses is dropped or its id is `-1`. -/
theorem refused_submission (h₀ : s₀.Fresh) (h : Run (Step C) roomForId s₀ s)
    (hst : Step C s (e, .message index (.newjob m)) s')
    (hnok : ((s.clientCs index).socket, .newjobNok) ∈ s.sentSince s'.toSpool) :
    ∃ sp, ((s.timeoutLock e).sCheckLocker e (s.clientCs index).user).1.sUpdateSlotsUsage e = .ok sp ∧
      ((sp.newjobptr m).jobid ≠ -1 → ¬sp.Oversized m (s.clientCs index).user →
        sp.Untouched s'.toSpool m) := by
  have hs := (Run.sound h₀.sound h).timeoutLock (e := e)
  obtain ⟨-, -, hstep⟩ := hst
  have hsent : (s.timeoutLock e).sent = s.sent := by
    unfold Spool.timeoutLock
    cases s.userLocker with
    | none => rfl
    | some u =>
      dsimp only
      split_ifs <;> rfl
  refine newjob_refused hs ?_ hstep
  rwa [Spool.sentSince, ← hsent] at hnok

/-- A submission that asks for too many slots is refused while another job waits in the queue. -/
theorem queued_job_untouched : ∃ s s' : Server, s.activeJobs.map Job.jobid = [1000] ∧
    ((s.clientCs 1).socket, .newjobNok) ∈ s.sentSince s'.toSpool ∧
    ∃ sp, ((s.timeoutLock (world 4)).sCheckLocker (world 4) (s.clientCs 1).user).1.sUpdateSlotsUsage
        (world 4) = .ok sp ∧
      ((sp.newjobptr { numSlots := 3 }).jobid ≠ -1 →
        ¬sp.Oversized { numSlots := 3 } (s.clientCs 1).user →
        sp.Untouched s'.toSpool { numSlots := 3 }) := by
  obtain ⟨s, s', hr, hst, hP⟩ := exists_run_step roomForId started
    (fun s s' => decide (s.activeJobs.map Job.jobid = [1000]) &&
      decide (((s.clientCs 1).socket, .newjobNok) ∈ s.sentSince s'.toSpool))
    (world 4, .message 1 (.newjob { numSlots := 3 }))
    [(world 1, .accept 5 1000), (world 2, .message 0 (.newjob {})), (world 3, .accept 6 1000)]
    (by simp [world]) (by decide +kernel)
  simp only [Bool.and_eq_true, decide_eq_true_eq] at hP
  exact ⟨s, s', hP.1, hP.2, refused_submission fresh_started hr hst hP.2⟩

/-- The jobs and their rows are the same. -/
def SameJobs (s s' : Server) : Prop :=
  (∀ p, p ∈ s'.activeJobs ↔ p ∈ s.activeJobs) ∧ (∀ p, p ∈ s'.finishedJobs ↔ p ∈ s.finishedJobs) ∧
    (∀ r, r ∈ s'.dbJobs.rows ↔ r ∈ s.dbJobs.rows) ∧ ∀ r, r ∈ s'.dbFinished.rows ↔ r ∈ s.dbFinished.rows

/-- A submission is refused when the process of a running job has died.  The recount ends that job. -/
theorem dead_job_swept : ¬∀ (e : Env) (s₀ s s' : Server) (index : ℕ) (m : NewJob), s₀.Fresh →
    Run (Step e.toConfig) anyInput s₀ s → Step e.toConfig s (e, .message index (.newjob m)) s' →
      ((s.clientCs index).socket, .newjobNok) ∈ s.sentSince s'.toSpool → s.SameJobs s' := by
  intro hall
  obtain ⟨s, s', hr, hst, hP⟩ := exists_run_step anyInput started
    (fun s s' => decide (((s.clientCs 1).socket, .newjobNok) ∈ s.sentSince s'.toSpool) &&
      decide (s.finishedJobs = []) && decide (s'.finishedJobs ≠ []))
    ({ world 6 with alive := fun _ => false }, .message 1 (.newjob { numSlots := 3 }))
    [(world 1, .accept 5 1000), (world 2, .message 0 (.newjob {})), (world 3, .schedule),
      (world 4, .message 0 (.runjobOk none 70)), (world 5, .accept 6 1000)]
    (by simp [world]) (by decide +kernel)
  simp only [Bool.and_eq_true, decide_eq_true_eq] at hP
  obtain ⟨⟨hnok, hnone⟩, hsome⟩ := hP
  obtain ⟨-, hsame, -⟩ := hall _ _ _ _ _ _ fresh_started hr hst hnok
  rw [hnone] at hsame
  exact hsome (List.eq_nil_iff_forall_not_mem.2 fun p hp => List.not_mem_nil ((hsame p).1 hp))

end Server

end TaskSpooler
