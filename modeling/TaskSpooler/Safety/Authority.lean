import TaskSpooler.Safety.Lives
import TaskSpooler.Server.Roster
import TaskSpooler.Server.Sockets

/-!
# What users can do to each other's jobs

The server trusts the user id of a connection, and the requests check it one by one.  This file says
what all the checks together are good for.

* `others_spared`: as long as only ordinary users who do not own the job speak, whatever they send in
  whatever order, the job stays in the queue, in its state and with its owner, process, result, slots,
  dependencies and connection, but for one thing: a pause that waits for slots (its wall time is
  negative) may be turned into a plain pause.  Nobody else can start, stop, hold, finish, remove,
  requeue or take over the job.
* `carries_run`: a connection carries a job only of its own user.  The messages `ENDJOB` and
  `RUNJOB_OK`, and the end of a connection, name no job: they are about the one that is carried.

The message `KILL_ALL` is left out, which may close the connection of somebody else, and so are `ENDJOB`
and `RUNJOB_OK` on a connection without a job: they are about the id that was last in that place of the
table.  No client chooses its job id, and no job has run out of its wall time, which is found out on
many occasions and is not the doing of whoever sends the message.  The steps that nobody sends are
left out as well: `next_run_job`, the health check and the cleanup.

What this does not say: a job of somebody else may ask to be told of the end of the job
(`notify_errorlevel_to`), and the end of one that it depends on changes its `dependency_errorlevel`,
which decides whether it runs or is skipped.  `Job.plain` leaves these two fields out, and with them
the name of the output, the times, the health and the CPUs.
-/

namespace TaskSpooler

/-! ### Jobs that are left alone -/

/-- The second record agrees with the first one on the fields that `Job.plain` keeps, except that a
pause for want of slots may be a plain pause. -/
def Job.Spares (p p' : Job) : Prop :=
  p'.plain = p.plain ∨ p'.plain = (p.setWallTime p.wallTime.natAbs).plain

namespace Job.Spares

variable {p p' p'' : Job}

theorem refl : p.Spares p := .inl rfl

theorem of_plain (h : p'.plain = p.plain) : p.Spares p' := .inl h

theorem plain_setWallTime (h : p'.plain = p.plain) (w : ℤ) :
    (p'.setWallTime w).plain = (p.setWallTime w).plain := by
  have hw := congrArg (Job.setWallTime w) h
  exact hw

theorem trans (h : p.Spares p') (h' : p'.Spares p'') : p.Spares p'' := by
  obtain h' | h' := h'
  · exact h.imp h'.trans h'.trans
  · rw [Spares, h']
    right
    obtain h | h := h
    · have hw : p'.plain.wallTime = p.plain.wallTime := congrArg Job.wallTime h
      change p'.wallTime = p.wallTime at hw
      rw [hw]
      exact plain_setWallTime h _
    · have hw : p'.plain.wallTime = (p.setWallTime p.wallTime.natAbs).plain.wallTime :=
        congrArg Job.wallTime h
      change p'.wallTime = p.wallTime.natAbs at hw
      rw [hw, Int.natAbs_natCast]
      exact plain_setWallTime h _

theorem congr {α : Type*} {g : Job → α} (hg : PlainFn g) (hw : ∀ w, g (p.setWallTime w) = g p)
    (h : p.Spares p') : g p' = g p := by
  obtain h | h := h
  · rw [← hg, h, hg]
  · rw [← hg, h, hg, hw]

theorem jobid (h : p.Spares p') : p'.jobid = p.jobid := h.congr (fun _ => rfl) fun _ => rfl

theorem user (h : p.Spares p') : p'.user = p.user := h.congr (fun _ => rfl) fun _ => rfl

theorem isDead {e : Env} (h : p.Spares p') : Spool.isDead e p' = Spool.isDead e p :=
  h.congr (fun _ => rfl) fun _ => rfl

end Job.Spares

/-- The job is still in the queue, and spared. -/
def View.Spared (v : View) (p : Job) : Prop := ∃ p' ∈ v.activeJobs, p.Spares p'

namespace Act

variable {v : View} {a : Act} {p : Job}

/-- The move changes nothing of the job with this id, or only turns its wall time positive. -/
def Avoids (a : Act) (v : View) (jobid : ℤ) : Prop :=
  ∀ x, a.old v = some x → x.jobid = jobid → a = .wall x x.wallTime.natAbs

theorem uid_apply (hg : a.Guard v) (ha : ∀ us n, a ≠ users us n) (k : ℕ) :
    ((a.apply v).users k).uid = (v.users k).uid := by
  have hwho := congrArg User.uid (who_apply hg ha k)
  exact hwho

theorem spared_apply (hids : v.Ids) (hg : a.Guard v) (h : v.Spared p) (ha : a.Avoids v p.jobid) :
    (a.apply v).Spared p := by
  obtain ⟨p', hp', hsp⟩ := h
  by_cases hold : ∃ x, a.old v = some x ∧ x.jobid = p.jobid
  · obtain ⟨x, hx, hid⟩ := hold
    obtain rfl := ha x hx hid
    have hxmem : x.strip ∈ v.activeJobs := View.Has.mem hg
    have hsame : x.strip = p' := Keyed.eq_of_key hids.nodup hxmem hp' (hid.trans hsp.jobid.symm)
    refine ⟨x.strip.setWallTime x.wallTime.natAbs, ?_, hsp.trans ?_⟩
    · exact (Keyed.mem_modify_of_mem hids.nodup hxmem).2 (.inl rfl)
    · rw [← hsame]
      exact .inr rfl
  · -- the record is none that the move touches
    have hmem : p'.plain ∈ (a.new v).toList.map Job.plain ++ v.plain :=
      List.mem_append_right _ (List.mem_map_of_mem hp')
    obtain hmem | hmem := List.mem_append.1 ((perm_apply hids hg).mem_iff.2 hmem)
    · obtain ⟨x, hx, hxp⟩ := List.mem_map.1 hmem
      exact absurd ⟨x, Option.mem_toList.1 hx, (Job.jobid_of_plain hxp).trans hsp.jobid⟩ hold
    · obtain ⟨p'', hp'', hpp⟩ := List.mem_map.1 hmem
      exact ⟨p'', hp'', hsp.trans (.of_plain hpp)⟩

end Act

/-! ### Whose job it is -/

theorem Moves.jobids_le {ok : Act → View → Prop} {v v' : View} (h : Moves ok v v') :
    v.jobids ≤ v'.jobids :=
  h.invariant (I := fun w => v.jobids ≤ w.jobids) (le_refl _) fun hI _ hg =>
    hI.trans (Act.jobids_apply hg)

namespace View

variable {v w : View} {u : ℕ} {jobid : ℤ} {p : Job}

/-- The id has been given out, and the job is of this user as long as there is one. -/
def OwnedBy (v : View) (u : ℕ) (jobid : ℤ) : Prop :=
  jobid < v.jobids ∧ ∀ d ∈ (v.life jobid).deed, d.user = some u

theorem life_ne_unborn (h : jobid < v.jobids) : v.life jobid ≠ .unborn := by
  intro hlife
  rw [life] at hlife
  split at hlife
  · rename_i p _
    have hdeed := p.deed_life
    rw [hlife] at hdeed
    cases hdeed
  · split at hlife
    · cases hlife
    · rw [if_pos h] at hlife
      cases hlife

/-- Jobs do not change hands. -/
theorem OwnedBy.mono (h : v.OwnedBy u jobid) (hjobids : v.jobids ≤ w.jobids)
    (hlife : v.life jobid ≤ w.life jobid) : w.OwnedBy u jobid :=
  ⟨h.1.trans_le hjobids, fun d hd => h.2 d (Life.deed_of_le hlife (life_ne_unborn h.1) hd)⟩

theorem OwnedBy.user (h : v.OwnedBy u p.jobid) (hids : v.Ids) (hp : p ∈ v.activeJobs) :
    p.user = some u := by
  have hdeed := p.deed_life
  rw [← life_of_active hids hp] at hdeed
  exact h.2 p.deed hdeed

theorem ownedBy_of_active (hids : v.Ids) (hp : p ∈ v.activeJobs) (huser : p.user = some u) :
    v.OwnedBy u p.jobid := by
  refine ⟨hids.lt p hp, fun d hd => ?_⟩
  rw [life_of_active hids hp, p.deed_life] at hd
  cases hd
  exact huser

theorem ownedBy_of_finished (hv : v.Neat) (hp : p ∈ v.finishedJobs) (huser : p.user = some u) :
    v.OwnedBy u p.jobid := by
  refine ⟨(hv.settled p hp).2, fun d hd => ?_⟩
  rw [life_of_finished hv.once hp] at hd
  cases hd
  exact huser

end View

/-! ### What connections carry -/

namespace Server

variable {e : Env} {s s' s₀ : Server} {i : Input} {u u' : ℕ} {jobid : ℤ} {C : Config}
  {l : Env × Input}

/-- A connection of the user carries the job. -/
def Bound (s : Server) (u : ℕ) (jobid : ℤ) : Prop :=
  ∃ k : ℕ, (k : ℤ) < s.nconnections ∧ (s.clientCs k).hasjob ∧ (s.clientCs k).user = u ∧
    (s.clientCs k).jobid = jobid

/-- Edits give a job to nobody but the user who may get it. -/
theorem Edits.bound {G : ℤ → Prop} (h : Edits u G s s') (hb : s'.Bound u' jobid) :
    s.Bound u' jobid ∨ u' = u ∧ G jobid := by
  revert hb
  refine Run.invariant (I := fun r => r.Bound u' jobid → s.Bound u' jobid ∨ u' = u ∧ G jobid) h .inl ?_
  rintro r r' ed hI hed rfl ⟨k, hk, hjob, huser, hid⟩
  cases ed with
  | spool sp => exact hI ⟨k, hk, hjob, huser, hid⟩
  | stop => exact hI ⟨k, hk, hjob, huser, hid⟩
  | setJob k' j b =>
    by_cases hkk : k = k'
    · subst hkk
      simp only [Edit.apply, modConn, Function.update_self] at hjob huser hid
      subst hjob hid
      obtain ⟨hu, hG⟩ := hed k j rfl
      exact .inr ⟨huser.symm.trans hu, hG⟩
    · simp only [Edit.apply, modConn, Function.update_of_ne hkk] at hjob huser hid
      exact hI ⟨k, hk, hjob, huser, hid⟩
  | release k' =>
    by_cases hkk : k = k'
    · subst hkk
      simp only [Edit.apply, modConn, Function.update_self] at hjob
      exact absurd hjob Bool.false_ne_true
    · simp only [Edit.apply, modConn, Function.update_of_ne hkk] at hjob huser hid
      exact hI ⟨k, hk, hjob, huser, hid⟩
  | clear k' j =>
    simp only [Edit.apply, clearCarriers] at hk hjob huser hid
    by_cases hc : (k : ℤ) < r.nconnections ∧ k ≠ k' ∧ (r.clientCs k).jobid = j
    · rw [if_pos hc] at hjob
      exact absurd hjob Bool.false_ne_true
    · rw [if_neg hc] at hjob huser hid
      exact hI ⟨k, hk, hjob, huser, hid⟩
  | shift k' =>
    simp only [Edit.apply, Server.shift] at hk hjob huser hid
    by_cases hmoved : k' ≤ k ∧ (k : ℤ) < r.nconnections - 1
    · rw [if_pos hmoved] at hjob huser hid
      exact hI ⟨k + 1, by omega, hjob, huser, hid⟩
    · rw [if_neg hmoved] at hjob huser hid
      exact hI ⟨k, by omega, hjob, huser, hid⟩

/-- A job that is carried after a step was carried before, or the message was about it. -/
theorem bound_step (hi : i ≠ .restart) (h : s.step e i = .ok s') (hb : s'.Bound u jobid) :
    s.Bound u jobid ∨ ∃ index m, i = .message index m ∧ u = (s.clientCs index).user ∧
      (s.onSpool fun sp => sp.timeoutLock e).Given e index m s' jobid := by
  cases i with
  | accept socket uid =>
    obtain ⟨-, rfl⟩ := accept_spec h
    obtain ⟨k, hk, hjob, huser, hid⟩ := hb
    rw [enter] at hk hjob huser hid
    dsimp only at hk hjob huser hid
    by_cases hkn : k = s.nconnections.toNat
    · split at hjob <;> simp [modConn, onSpool, hkn] at hjob
    · left
      split at hk <;> rename_i hfind
      · simp only [hfind, modConn, onSpool, Function.update_of_ne hkn] at hk hjob huser hid
        exact ⟨k, hk, hjob, huser, hid⟩
      · simp only [hfind, modConn, Function.update_of_ne hkn] at hk hjob huser hid
        exact ⟨k, by omega, hjob, huser, hid⟩
  | message index m =>
    obtain hb | ⟨rfl, hgiven⟩ := (edits_handle (s := s.onSpool fun sp => sp.timeoutLock e) h).bound hb
    · exact .inl hb
    · exact .inr ⟨index, m, rfl, rfl, hgiven⟩
  | disconnect index =>
    obtain hb | ⟨-, hfalse⟩ := (edits_clean (u := 0) (G := fun _ => False) h).bound hb
    · exact .inl hb
    · exact hfalse.elim
  | health =>
    cases h
    exact .inl hb
  | cleanup =>
    rw [step, onSpoolM, Except.map_eq_ok] at h
    obtain ⟨sp, hsp, rfl⟩ := h
    exact .inl hb
  | schedule =>
    rw [step, Except.bind_eq_ok] at h
    obtain ⟨s₁, h₁, h⟩ := h
    rw [onSpoolM, Except.map_eq_ok] at h₁
    obtain ⟨sp, hsp, rfl⟩ := h₁
    cases h
    exact .inl hb
  | restart => exact absurd rfl hi

/-- Every job that is carried belongs to the user of the connection. -/
def Carries (s : Server) : Prop := ∀ u jobid, s.Bound u jobid → s.view.OwnedBy u jobid

/-- Who submits a job owns it. -/
theorem ownedBy_of_newjob {sp sp' : Spool} {socket id : ℤ} {m : NewJob}
    (h : sp.sNewjob e socket m u = .ok (sp', id)) (hids : sp.view.Ids) (huser : u < sp.nusers)
    (hm : m.jobid = 0) (hid : id ≠ -1) : sp'.view.OwnedBy u id ∧ sp.jobids ≤ id := by
  obtain ⟨s₁, -, husage, ⟨hnok, -⟩ | ⟨a, hg, ha, hv⟩⟩ := Spool.sNewjob_spec hids huser h
  · exact absurd hnok hid
  · have hids₁ := husage.ids hids
    cases a with
    | submit p ds n m' q =>
      obtain ⟨-, rfl, hown, -, hnext⟩ := ha
      have hperm : ((Act.submit p ds n m' q).apply s₁.view).plain.Perm (p.plain :: s₁.view.plain) :=
        Act.perm_apply hids₁ hg
      have hmem : p.plain ∈ sp'.view.plain := by
        rw [hv]
        exact hperm.mem_iff.2 List.mem_cons_self
      obtain ⟨x, hx, hxp⟩ := List.mem_map.1 hmem
      have huser : x.plain.user = p.plain.user := congrArg Job.user hxp
      refine ⟨?_, ?_⟩
      · rw [← Job.jobid_of_plain hxp]
        exact View.ownedBy_of_active (hv ▸ Act.ids_apply hids₁ hg) hx (huser.trans hown)
      · have hle : sp.view.jobids ≤ s₁.view.jobids := Moves.jobids_le husage.moves
        exact hle.trans (hnext hm).1.ge
    | reuse old p ds m' q => exact absurd hm ha.2.2.2.2.1
    | jobids n => exact absurd ha hid
    | drop p shelf => exact absurd ha.1 hid
    | _ => exact ha.elim

theorem ownedBy_of_reconnect {p : Job} {st : Jobstate} {socket : ℤ} {v : View} (hv : v.Neat)
    (hg : (Act.reconnect p st socket).Guard v) (huser : p.user = some u) : v.OwnedBy u p.jobid := by
  have hget := hg.1
  rw [Queue.getJob, Option.or_eq_some_iff] at hget
  obtain hfind | ⟨-, hfind⟩ := hget
  · exact View.ownedBy_of_active (p := p.strip) hv.ids (Keyed.mem_of_lookup hfind) huser
  · exact View.ownedBy_of_finished (p := p.strip) hv (Keyed.mem_of_lookup hfind) huser

theorem jobids_step (hs : s.Sound) (hi : l.2 ≠ .restart) (h : Step C s l s') :
    s.view.jobids ≤ s'.view.jobids :=
  Moves.jobids_le
    (step_course (K := fun _ => True) hs h.2.1 hi (fun _ _ => trivial) h.2.2).toMoves

theorem carries_step (hs : s.Sound) (hv : s.view.Neat) (hc : s.Carries) (hok : noChosenId l s)
    (h : Step C s l s') : s'.Carries := by
  obtain ⟨e, i⟩ := l
  have hi : i ≠ .restart := ne_restart_of_noRestart (noRestart_of_noChosenId hok)
  obtain ⟨-, hlife⟩ := life_step hs hv hok h
  have hjobids := jobids_step hs hi h
  intro u jobid hb
  obtain hb | ⟨index, m, rfl, rfl, hgiven⟩ := bound_step hi h.2.2 hb
  · exact (hc u jobid hb).mono hjobids (hlife jobid)
  · have hview : (s.onSpool fun sp => sp.timeoutLock e).view = s.view := Spool.view_timeoutLock e
    cases m with
    | newjob m =>
      obtain ⟨hid, sp, sp₁, hsp, hsp₁, hnew⟩ := hgiven
      rw [hview] at hsp
      have hm : m.jobid = 0 := by simpa [noChosenId] using hok
      have huser : (s.clientCs index).user < sp.nusers := by
        have hn : sp.view.nusers = s.view.nusers := congrArg (fun v => v.nusers) hsp
        exact (hs.users index h.2.1).trans_eq hn.symm
      rw [hsp₁]
      exact (ownedBy_of_newjob hnew (hsp ▸ hs.ids) huser hm hid).1
    | reconnect jobid' pid =>
      obtain ⟨p, st, rfl, huser, hg⟩ := hgiven
      rw [hview] at hg
      exact (ownedBy_of_reconnect hv hg huser).mono hjobids (hlife _)
    | _ => exact hgiven.elim

/-- **A connection carries a job only of its own user**, in every run in which the server chooses the
ids. -/
theorem carries_run (h₀ : s₀.Fresh) (h : Run (Step C) noChosenId s₀ s) :
    s.Sound ∧ s.view.Neat ∧ s.Carries := by
  refine h.invariant (I := fun s => s.Sound ∧ s.view.Neat ∧ s.Carries) ⟨h₀.sound, h₀.neat, ?_⟩
    fun hI hok hst => ⟨hst.sound hI.1, (life_step hI.1 hI.2.1 hok hst).1,
      carries_step hI.1 hI.2.1 hI.2.2 hok hst⟩
  rintro u jobid ⟨k, hk, -⟩
  rw [h₀.nconnections] at hk
  omega

end Server

/-! ### What has passed since the beginning of a step -/

/-- The second view comes later: jobs have got further, and users are who they were. -/
structure View.Along (v w : View) : Prop where
  neat : w.Neat
  jobids : v.jobids ≤ w.jobids
  life : ∀ jobid, v.life jobid ≤ w.life jobid
  nusers : v.nusers ≤ w.nusers
  uids : ∀ u < v.nusers, (w.users u).uid = (v.users u).uid

namespace View

variable {v w : View} {u : ℕ} {a : Act} {p x : Job}

theorem Along.refl (hv : v.Neat) : v.Along v :=
  ⟨hv, le_refl _, fun _ => le_refl _, le_refl _, fun _ _ => rfl⟩

theorem Along.apply (h : v.Along w) (hg : a.Guard w) (ha : a.ServerChooses)
    (huid : ∀ u < w.nusers, ((a.apply w).users u).uid = (w.users u).uid) : v.Along (a.apply w) where
  neat := Act.neat_apply h.neat hg ha
  jobids := h.jobids.trans (Act.jobids_apply hg)
  life jobid := (h.life jobid).trans (View.life_apply h.neat hg ha jobid)
  nusers := h.nusers.trans (Act.nusers_le_apply hg)
  uids u hu := (huid u (hu.trans_le h.nusers)).trans (h.uids u hu)

theorem Along.ownedBy {jobid : ℤ} (h : v.Along w) (hown : v.OwnedBy u jobid) : w.OwnedBy u jobid :=
  hown.mono h.jobids (h.life jobid)

/-- The job that a move is about, seen from a job that has been spared so far. -/
theorem Spared.old (h : w.Spared p) (hids : w.Ids) (hg : a.Guard w) (hold : a.old w = some x)
    (hid : x.jobid = p.jobid) : p.Spares x.strip := by
  obtain ⟨p', hp', hsp⟩ := h
  have hsame : x.strip = p' :=
    Keyed.eq_of_key hids.nodup (Act.has_old hg hold).mem hp' (hid.trans hsp.jobid.symm)
  rw [hsame]
  exact hsp

/-- A job is spared by moves that avoid it. -/
theorem spared_of_moves {ok : Act → View → Prop} (h : Moves ok v w) (hv : v.Neat) (hsp : v.Spared p)
    (hok : ∀ {r a}, ok a r → a.Guard r → v.Along r → r.Spared p →
      a.ServerChooses ∧ (∀ u < r.nusers, ((a.apply r).users u).uid = (r.users u).uid) ∧
        a.Avoids r p.jobid) : v.Along w ∧ w.Spared p := by
  refine h.invariant (I := fun r => v.Along r ∧ r.Spared p) ⟨.refl hv, hsp⟩ fun ⟨hr, hsp⟩ ha hg => ?_
  obtain ⟨hchoose, huid, havoids⟩ := hok ha hg hr hsp
  exact ⟨hr.apply hg hchoose huid, Act.spared_apply hr.neat.ids hg hsp havoids⟩

end View

/-! ### The steps of other users -/

namespace Server

variable {e : Env} {s s' s₀ : Server} {i : Input} {u index : ℕ} {p x : Job} {C : Config}
  {l : Env × Input} {v w : View} {a : Act} {K : View → Prop} {late : Job → Prop}

/-- The connection is one of an ordinary user, and not of the user `u`. -/
structure Other (s : Server) (u index : ℕ) : Prop where
  other : (s.clientCs index).user ≠ u
  not_first : (s.clientCs index).user ≠ 0
  not_root : (s.users (s.clientCs index).user).uid ≠ 0

/-- The message names the job it is about, or the connection carries it. -/
def Speaks (s : Server) (index : ℕ) : Msg → Prop
  | .killAll _ _ => False
  | .runjobOk _ _ | .endjob _ => (s.clientCs index).hasjob
  | _ => True

/-- Nothing has run out of its wall time, and the process of the job is alive. -/
def Calm (e : Env) (s : Server) (jobid : ℤ) : Prop :=
  ∀ p ∈ s.activeJobs, ¬Spool.timedOut e p ∧ (p.jobid = jobid → ¬Spool.isDead e p)

/-- Somebody connects, or an ordinary user who is not `u` sends a message or goes away; nothing is
scheduled in between. -/
def foreign (u : ℕ) (jobid : ℤ) (l : Env × Input) (s : Server) : Prop :=
  noChosenId l s ∧ Calm l.1 s jobid ∧
    match l.2 with
    | .accept _ _ => True
    | .message index m => s.Other u index ∧ s.Speaks index m
    | .disconnect index => s.Other u index
    | _ => False

/-- A recount leaves the job alone as long as nothing is late and the job is not dead. -/
theorem avoids_usage (hids : w.Ids) (hsp : w.Spared p) (hdead : ¬Spool.isDead e p)
    (hlate : ∀ q, ¬late q) (hg : a.Guard w) (ha : a.ofUsage e late) : a.Avoids w p.jobid := by
  intro x hold hid
  obtain ha | rfl | ⟨-, q, hq⟩ := ha
  · obtain ⟨q, rfl, hq⟩ | ⟨r, q, q', max, rfl, hq, -⟩ | ⟨l, rfl⟩ | ⟨l, rfl⟩ := Act.ofSweep_cases ha
    · exact absurd hq (hlate q)
    · obtain rfl : q = x := Option.some.inj hold
      have hsame : Spool.isDead e q = Spool.isDead e p := (hsp.old hids hg hold hid).isDead
      exact absurd (hsame ▸ hq) hdead
    · cases hold
    · cases hold
  · cases hold
  · exact absurd hq (hlate q)

/-- What is known, in the middle of a step of another user, of a job of the user `u` that has been
spared so far. -/
structure Facts (s : Server) (u index : ℕ) (p : Job) (w : View) : Prop where
  other : s.Other u index
  known : (s.clientCs index).user < s.nusers
  owner : p.user = some u
  along : s.view.Along w
  spared : w.Spared p

namespace Facts

theorem old_user (h : s.Facts u index p w) (hg : a.Guard w) (hold : a.old w = some x)
    (hid : x.jobid = p.jobid) : x.user = some u :=
  (h.spared.old h.along.neat.ids hg hold hid).user.trans h.owner

/-- Another user owns no job of `u`. -/
theorem not_owns (h : s.Facts u index p w) (hx : x.user = some u) :
    ¬w.Owns (s.clientCs index).user x := by
  rintro (hown | hroot)
  · exact h.other.other (Option.some.inj (hown.symm.trans hx))
  · exact h.other.not_root ((h.along.uids _ h.known).symm.trans hroot)

/-- Nor does his connection carry one. -/
theorem not_carried (h : s.Facts u index p w) (hc : s.Carries) (hindex : (index : ℤ) < s.nconnections)
    (hjob : (s.clientCs index).hasjob) (hg : a.Guard w) (hold : a.old w = some x)
    (hid : x.jobid = (s.clientCs index).jobid) : x.jobid ≠ p.jobid := by
  intro hp
  have hown := h.along.ownedBy (hc _ _ ⟨index, hindex, hjob, rfl, rfl⟩)
  rw [← hid] at hown
  have huser := View.OwnedBy.user (p := x.strip) hown h.along.neat.ids (Act.has_old hg hold).mem
  have hmine := h.old_user hg hold hp
  exact h.other.other (Option.some.inj (huser.symm.trans hmine))

/-- No request but `ADD_WTIME` reaches the job, as the owner is asked for each time. -/
theorem answer (h : s.Facts u index p w) {r : Request} (hr : ∀ jobid n, r ≠ .addWtime jobid n)
    (hg : a.Guard w) (ha : a.ofAnswer K e s.toSpool (s.clientCs index).user r w) :
    a.Avoids w p.jobid := by
  intro x hold hid
  have hx := h.old_user hg hold hid
  have htarget : ∀ jobid u', s.Targets (s.clientCs index).user jobid u' → x.user = some u' → False := by
    intro jobid u' ht hu'
    rw [Spool.Targets, Spool.target, if_pos h.other.not_first] at ht
    exact h.other.other ((Option.some.inj (hu'.symm.trans hx)).symm.trans ht).symm
  -- each act of an answer is on a job of the client's own
  cases r with
  | holdJob jobid =>
    cases a with
    | lock q | pause q =>
      cases hold
      exact absurd ha.2 (h.not_owns hx)
    | wall q w =>
      cases hold
      rw [ha.2.1]
    | _ => exact ha.elim
  | contJob jobid =>
    cases a with
    | unlock q =>
      cases hold
      exact absurd ha.2 (h.not_owns hx)
    | start q =>
      cases hold
      exact absurd ha.2.1 (h.not_owns hx)
    | wall q w =>
      cases hold
      obtain ⟨-, -, -, rfl | ⟨-, -, -, hown⟩⟩ := ha
      · rfl
      · exact absurd hown (h.not_owns hx)
    | _ => exact ha.elim
  | requeueJob jobid =>
    cases a with
    | relegate q requeue =>
      cases hold
      exact absurd ha.2.2 (h.not_owns hx)
    | reorder l => cases hold
    | _ => exact ha.elim
  | suspendUser jobid =>
    cases a with
    | pause q =>
      cases hold
      obtain ⟨-, u', hu', ht⟩ := ha
      exact (htarget jobid u' ht hu').elim
    | users us n => cases hold
    | _ => exact ha.elim
  | resumeUser jobid =>
    cases a with
    | start q =>
      cases hold
      obtain ⟨u', hu', ht⟩ := ha
      exact (htarget jobid u' ht hu').elim
    | users us n => cases hold
    | _ => exact ha.elim
  | addWtime jobid n => exact absurd rfl (hr jobid n)
  | refreshUsers | clearFinished | urgent _ | swapJobs _ _ | setMaxSlots _ =>
    cases a <;> first | exact ha.elim | cases hold
  | _ => exact ha.elim

/-- What `clean_after_client_disappeared` does to the job of the connection. -/
theorem clean (h : s.Facts u index p w) (hc : s.Carries) (hindex : (index : ℤ) < s.nconnections)
    (hjob : (s.clientCs index).hasjob) (hg : a.Guard w) (ha : a.ofClean (s.clientCs index).jobid) :
    a.Avoids w p.jobid := by
  intro x hold hid
  cases a with
  | finish r q q' max =>
    cases hold
    exact absurd hid (h.not_carried hc hindex hjob hg rfl ha.2.1)
  | delete q =>
    cases hold
    exact absurd hid (h.not_carried hc hindex hjob hg rfl ha.1)
  | forget l => cases hold
  | _ => exact ha.elim

/-- **What another user sends avoids the job**, if it is no `NEWJOB`, `REMOVEJOB` or `ADD_WTIME`. -/
theorem message (h : s.Facts u index p w) (hc : s.Carries) (hindex : (index : ℤ) < s.nconnections)
    {m : Msg} (hm : s.Speaks index m) (hnew : ∀ r, m ≠ .newjob r) (hrem : ∀ jobid, m ≠ .removejob jobid)
    (hadd : ∀ jobid n, m ≠ .request (.addWtime jobid n)) (hg : a.Guard w)
    (ha : s.Does K e (.message index m) a w) : a.Avoids w p.jobid := by
  cases m with
  | newjob r => exact absurd rfl (hnew r)
  | removejob jobid => exact absurd rfl (hrem jobid)
  | runjobOk ofilename pid =>
    obtain ⟨q, rfl, hq⟩ := ha
    intro x hold hid
    cases hold
    exact absurd hid (h.not_carried hc hindex hm hg rfl hq)
  | endjob r =>
    obtain ⟨q, q', max, rfl, hq⟩ | ⟨l, rfl⟩ := ha
    · intro x hold hid
      cases hold
      exact absurd hid (h.not_carried hc hindex hm hg rfl hq)
    · intro x hold
      cases hold
  | reconnect jobid pid =>
    obtain ⟨q, st, rfl, rfl, huser⟩ := ha
    intro x hold hid
    have hx := h.old_user hg hold hid
    simp only [Act.old] at hold
    split_ifs at hold
    cases hold
    exact absurd (Option.some.inj (huser.symm.trans hx)) h.other.other
  | killAll format jobid => exact hm.elim
  | killServer => exact ha.elim
  | request r =>
    obtain ha | ⟨-, q, rfl, hjob, hq⟩ := ha
    · exact h.answer (fun jobid n heq => hadd jobid n (by rw [heq])) hg ha
    · intro x hold hid
      cases hold
      exact absurd hid (h.not_carried hc hindex hjob hg rfl hq)
  | unknown => exact h.clean hc hindex ha.1 hg ha.2

end Facts

/-- In a calm world nothing is late for a message of an ordinary user. -/
theorem Calm.not_late {jobid : ℤ} {m : Msg} (h : Calm e s jobid) (hm : s.Speaks index m) (q : Job) :
    ¬s.StepLate e (.message index m) q := by
  have hlate : ∀ q, ¬s.Late e q := fun q hq => (h q hq.1).1 hq.2
  cases m with
  | newjob r => exact hlate q
  | killAll format jobid => exact hm.elim
  | request r =>
    cases r with
    | suspendUser jobid =>
      rintro ⟨-, q', hq'⟩
      exact hlate q' hq'
    | refreshUsers | lockServer | contJob _ | list _ _ | listAll _ _ => exact hlate q
    | _ => exact id
  | _ => exact id

/-- Who users are is not touched by the moves of a step. -/
theorem uids_of_does (h : s.Does K e i a w ∨ a.ofUsage e late) (hg : a.Guard w) :
    ∀ k < w.nusers, ((a.apply w).users k).uid = (w.users k).uid := by
  intro k hk
  obtain h | h := h
  · exact h.who (P := fun x => x.uid = (w.users k).uid) hg hk rfl (fun _ _ hx => hx) fun _ _ hx => hx
  · exact Act.uid_apply hg h.ne_users k

theorem not_isDead (hcalm : Calm e s p.jobid) (hsp : s.view.Spared p) : ¬Spool.isDead e p := by
  obtain ⟨p', hp', hsp⟩ := hsp
  obtain ⟨q, hq, rfl⟩ := List.mem_map.1 hp'
  have hsame : Spool.isDead e q = Spool.isDead e p := hsp.isDead
  exact hsame ▸ (hcalm q hq).2 hsp.jobid

/-- The moves of a submission are about the new job. -/
theorem spared_sNewjob {sp sp' : Spool} {socket id : ℤ} {m : NewJob} {client : ℕ}
    (h : sp.sNewjob e socket m client = .ok (sp', id)) (hv : sp.view.Neat)
    (hclient : client < sp.nusers) (hm : m.jobid = 0) (hlate : ∀ q, ¬sp.Late e q)
    (hdead : ¬Spool.isDead e p) (hsp : sp.view.Spared p) :
    sp.view.Along sp'.view ∧ sp'.view.Spared p := by
  obtain ⟨s₁, -, husage, hrest⟩ := Spool.sNewjob_spec hv.ids hclient h
  have hcount : sp.view.Along s₁.view ∧ s₁.view.Spared p := by
    refine View.spared_of_moves husage.moves hv hsp fun {r a} ha hg hr hsp => ⟨ha.serverChooses, ?_, ?_⟩
    · exact fun k _ => Act.uid_apply hg ha.ne_users k
    · exact avoids_usage hr.neat.ids hsp hdead hlate hg ha
  obtain ⟨-, hview⟩ | ⟨a, hg, ha, hview⟩ := hrest
  · rwa [hview]
  · rw [hview]
    have hnone : a.old s₁.view = none ∧ a.ServerChooses ∧ ∀ us n, a ≠ .users us n := by
      cases a with
      | submit q ds n m' q' => exact ⟨rfl, ha.1 ▸ hm, fun _ _ h => by cases h⟩
      | reuse old q ds m' q' => exact absurd hm ha.2.2.2.2.1
      | drop q shelf => exact absurd hm ha.2.1
      | jobids n => exact ⟨rfl, trivial, fun _ _ h => by cases h⟩
      | _ => exact ha.elim
    obtain ⟨hold, hchoose, husers⟩ := hnone
    refine ⟨hcount.1.apply hg hchoose fun k _ => Act.uid_apply hg husers k,
      Act.spared_apply hcount.1.neat.ids hg hcount.2 fun x hx => ?_⟩
    rw [hold] at hx
    cases hx

theorem spared_newjob {m : NewJob} (hs : s.Sound) (hv : s.view.Neat)
    (hindex : (index : ℤ) < s.nconnections) (hm : m.jobid = 0) (hcalm : Calm e s p.jobid)
    (hsp : s.view.Spared p) (h : s.newjob e index m = .ok s') : s'.view.Spared p := by
  have hlate : ∀ q, ¬s.Late e q := fun q hq => (hcalm q hq.1).1 hq.2
  obtain ⟨sp, ⟨locker, rfl⟩, rfl | ⟨sp₁, jobid, hnew, sp₂, hrest⟩⟩ := newjob_cases h
  · exact hsp
  · have hadd := spared_sNewjob hnew hv (hs.users index hindex) hm hlate
      (not_isDead hcalm hsp) hsp
    obtain ⟨hsp₂, -, rfl⟩ | ⟨⟨q, hq, -, hsp₂⟩, hid, rfl⟩ | ⟨hsp₂, -, rfl⟩ := hrest
    · show sp₂.view.Spared p
      rw [hsp₂]
      exact hadd.2
    · -- the job that is deleted is the new one
      show sp₂.view.Spared p
      rw [hsp₂]
      obtain ⟨-, hnext⟩ := ownedBy_of_newjob hnew hv.ids (hs.users index hindex) hm hid
      refine Act.spared_apply hadd.1.neat.ids (Spool.view_has_of_findjob hq) hadd.2 ?_
      intro x hold hx
      cases hold
      obtain ⟨p', hp', hpp⟩ := hsp
      have hlt := hv.ids.lt p' hp'
      have hqid := Spool.findjob_jobid hq
      have hpid := hpp.jobid
      change s.jobids ≤ jobid at hnext
      change p'.jobid < s.jobids at hlt
      omega
    · show sp₂.view.Spared p
      rw [hsp₂]
      exact hadd.2

/-- Only the owner of a job, or root, removes it. -/
theorem namedJob_of_removed {sp sp' : Spool} {socket jobid id : ℤ} {client : ℕ} (hclient : client ≠ 0)
    (h : sp.sRemoveJob e socket jobid client = .ok (sp', some id)) :
    ∃ p, sp.namedJob jobid = some p ∧ p.user = some client := by
  rw [Spool.sRemoveJob] at h
  dsimp only at h
  cases hp : (if jobid = -1 then sp.lastJob else sp.getJob jobid) with
  | none =>
    simp only [hp] at h
    cases h
  | some p =>
    simp only [hp] at h
    by_cases howner : client ≠ 0 ∧ p.user ≠ some client
    · rw [if_pos howner] at h
      cases h
    · rw [not_and_or, not_not, not_not] at howner
      exact ⟨p, hp, howner.resolve_left hclient⟩

theorem spared_removejob {jobid : ℤ} (hv : s.view.Neat) (hu : s.Other u index)
    (howner : p.user = some u) (hsp : s.view.Spared p) (h : s.removejob e index jobid = .ok s') :
    s'.view.Spared p := by
  rw [removejob, Except.bind_eq_ok] at h
  obtain ⟨⟨sp, removed⟩, h₁, h⟩ := h
  obtain ⟨rfl, hview⟩ | ⟨q, hq, rfl, hmoves⟩ := Spool.sRemoveJob_spec hv.ids h₁
  · cases h
    show sp.view.Spared p
    rw [hview]
    exact hsp
  · cases h
    rw [removeCarriersLoop_toSpool]
    obtain ⟨q', hq', hown⟩ := namedJob_of_removed hu.not_first h₁
    obtain rfl : q' = q := Option.some.inj (hq'.symm.trans hq)
    have hmine : s.view.OwnedBy (s.clientCs index).user q'.jobid := by
      obtain hact | ⟨-, hfin⟩ := Spool.namedJob_cases hv.ids hq
      · exact View.ownedBy_of_active (p := q'.strip) hv.ids (Spool.view_has_of_findjob hact).mem hown
      · exact View.ownedBy_of_finished (p := q'.strip) hv (List.mem_map_of_mem hfin) hown
    have hne : q'.jobid ≠ p.jobid := by
      intro hid
      obtain ⟨p', hp', hpp⟩ := hsp
      rw [hid, ← hpp.jobid] at hmine
      have huser := (hmine.user hv.ids hp').symm.trans (hpp.user.trans howner)
      exact hu.other (Option.some.inj huser)
    refine (View.spared_of_moves hmoves hv hsp fun {r a} ha hg hr hsp => ?_).2
    have husers : ∀ us n, a ≠ .users us n := by
      rintro us n rfl
      exact ha
    refine ⟨?_, fun k _ => Act.uid_apply hg husers k, fun y hold hid => ?_⟩
    · cases a with
      | submit x ds n m q | reuse x y ds m q => exact ha.elim
      | _ => trivial
    · have hy : y.jobid = q'.jobid := by
        cases a with
        | gone x | goneFinished x =>
          obtain rfl : x = q' := ha
          cases hold <;> rfl
        | drop x shelf =>
          cases hold
          exact ha
        | forget l => cases hold
        | _ => exact ha.elim
      exact absurd (hy.symm.trans hid) hne

/-- `ADD_WTIME` of an ordinary user only closes his connection. -/
theorem spared_addWtime {jobid n : ℤ} (hs : s.Sound) (hv : s.view.Neat) (hc : s.Carries)
    (hindex : (index : ℤ) < s.nconnections) (hu : s.Other u index) (howner : p.user = some u)
    (hsp : s.view.Spared p) (h : s.handleRequest e index (.addWtime jobid n) = .ok s') :
    s'.view.Spared p := by
  rw [handleRequest, Except.bind_eq_ok] at h
  obtain ⟨s₁, h₁, h⟩ := h
  rw [onSpoolM, Except.map_eq_ok] at h₁
  obtain ⟨sp, hsp₁, rfl⟩ := h₁
  rw [Spool.answer, if_neg hu.not_first] at hsp₁
  cases hsp₁
  refine (View.spared_of_moves (removeConnection_moves h) hv hsp fun {r a} ha hg hr hsp => ?_).2
  obtain ⟨q, rfl, hjob, hq⟩ := ha
  have hfacts : s.Facts u index p r := ⟨hu, hs.users index hindex, howner, hr, hsp⟩
  refine ⟨trivial, fun k _ => Act.uid_apply hg (fun _ _ h => by cases h) k, fun x hold hid => ?_⟩
  cases hold
  exact absurd hid (hfacts.not_carried hc hindex hjob hg rfl hq)

/-- **A message of another user** spares the job. -/
theorem spared_handle {m : Msg} (hs : s.Sound) (hv : s.view.Neat) (hc : s.Carries)
    (hindex : (index : ℤ) < s.nconnections) (hchoose : noChosenId (e, .message index m) s)
    (hu : s.Other u index) (hm : s.Speaks index m) (hcalm : Calm e s p.jobid)
    (howner : p.user = some u) (hsp : s.view.Spared p) (h : s.handle e index m = .ok s') :
    s'.view.Spared p := by
  by_cases hnew : ∃ r, m = .newjob r
  · obtain ⟨r, rfl⟩ := hnew
    exact spared_newjob hs hv hindex (by simpa [noChosenId] using hchoose) hcalm hsp h
  by_cases hrem : ∃ jobid, m = .removejob jobid
  · obtain ⟨jobid, rfl⟩ := hrem
    exact spared_removejob hv hu howner hsp h
  by_cases hadd : ∃ jobid n, m = .request (.addWtime jobid n)
  · obtain ⟨jobid, n, rfl⟩ := hadd
    exact spared_addWtime hs hv hc hindex hu howner hsp h
  push Not at hnew hrem hadd
  have hmoves := (handle_course (K := fun _ => True) hs hindex (fun _ _ => trivial) h).toMoves
  refine (View.spared_of_moves hmoves hv hsp fun {r a} ha hg hr hsp => ?_).2
  refine ⟨serverChooses hchoose ha, uids_of_does ha hg, ?_⟩
  have hfacts : s.Facts u index p r := ⟨hu, hs.users index hindex, howner, hr, hsp⟩
  obtain ha | ha := ha
  · exact hfacts.message hc hindex hm hnew hrem hadd hg ha
  · exact avoids_usage hr.neat.ids hsp (not_isDead hcalm ‹s.view.Spared p›) (hcalm.not_late hm) hg ha

/-- **A step of another user** spares the job. -/
theorem spared_step (hs : s.Sound) (hv : s.view.Neat) (hc : s.Carries) (howner : p.user = some u)
    (hok : foreign u p.jobid l s) (hsp : s.view.Spared p) (h : Step C s l s') : s'.view.Spared p := by
  obtain ⟨e, i⟩ := l
  obtain ⟨hchoose, hcalm, hi⟩ := hok
  obtain ⟨-, hen, h⟩ := h
  cases i with
  | accept socket uid =>
    have hview : s'.view = s.view := by
      obtain ⟨-, rfl⟩ := accept_spec h
      rw [enter]
      cases s.findUserByUid uid <;> rfl
    rwa [hview]
  | message index m =>
    obtain ⟨hu, hm⟩ := hi
    have hq : (s.toSpool.timeoutLock e).toQueue = s.toQueue := toQueue_timeoutLock
    have hview : (s.onSpool fun sp => sp.timeoutLock e).view = s.view := Spool.view_timeoutLock e
    have hroot : ((s.toSpool.timeoutLock e).toQueue.users (s.clientCs index).user).uid ≠ 0 := by
      rw [hq]
      exact hu.not_root
    have hcalm' : ∀ p' ∈ (s.toSpool.timeoutLock e).toQueue.activeJobs, ¬Spool.timedOut e p' ∧
        (p'.jobid = p.jobid → ¬Spool.isDead e p') := by
      rw [hq]
      exact hcalm
    refine spared_handle (s := s.onSpool fun sp => sp.timeoutLock e) hs.timeoutLock (hview ▸ hv) ?_ hen
      hchoose ⟨hu.other, hu.not_first, hroot⟩ ?_ hcalm' howner (hview ▸ hsp) h
    · rw [Carries, hview]
      exact hc
    · cases m <;> exact hm
  | disconnect index =>
    have hmoves := clean_moves h
    refine (View.spared_of_moves hmoves hv hsp fun {r a} ha hg hr hsp => ?_).2
    have hfacts : s.Facts u index p r := ⟨hi, hs.users index hen, howner, hr, hsp⟩
    have hdoes : s.Does (fun _ => True) e (.disconnect index) a r ∨ a.ofUsage e fun _ => False :=
      .inl ha
    exact ⟨serverChooses hchoose hdoes, uids_of_does hdoes hg, hfacts.clean hc hen ha.1 hg ha.2⟩
  | _ => exact hi.elim

/-- **Others leave a job alone**: in every run in which only users who neither own the job nor are
root have their say, whatever they send, the job stays in the queue, with the fields that `Job.plain`
keeps as they are. -/
theorem others_spared {p : Job} (h₀ : s₀.Fresh) (h : Run (Step C) noChosenId s₀ s)
    (hp : p ∈ s.activeJobs) (howner : p.user = some u)
    (h' : Run (Step C) (foreign u p.jobid) s s') : ∃ p' ∈ s'.activeJobs, p.Spares p' := by
  have hspared : s'.Sound ∧ s'.view.Neat ∧ s'.Carries ∧ s'.view.Spared p := by
    obtain ⟨hs, hv, hc⟩ := carries_run h₀ h
    refine h'.invariant (I := fun r => r.Sound ∧ r.view.Neat ∧ r.Carries ∧ r.view.Spared p)
      ⟨hs, hv, hc, p.strip, List.mem_map_of_mem hp, .inl rfl⟩ fun ⟨hs, hv, hc, hsp⟩ hok hst => ?_
    exact ⟨hst.sound hs, (life_step hs hv hok.1 hst).1, carries_step hs hv hc hok.1 hst,
      spared_step hs hv hc howner hok hsp hst⟩
  obtain ⟨-, -, -, q, hq, hsp⟩ := hspared
  obtain ⟨p', hp', rfl⟩ := List.mem_map.1 hq
  exact ⟨p', hp', hsp⟩

instance : Decidable (s.Other u index) :=
  decidable_of_iff ((s.clientCs index).user ≠ u ∧ (s.clientCs index).user ≠ 0 ∧
      (s.users (s.clientCs index).user).uid ≠ 0)
    ⟨fun h => ⟨h.1, h.2.1, h.2.2⟩, fun h => ⟨h.other, h.not_first, h.not_root⟩⟩

instance : ∀ m, Decidable (s.Speaks index m)
  | .killAll _ _ => isFalse id
  | .runjobOk _ _ | .endjob _ => inferInstanceAs (Decidable ((s.clientCs index).hasjob = true))
  | .newjob _ | .reconnect _ _ | .removejob _ | .killServer | .request _ | .unknown => isTrue trivial

instance {jobid : ℤ} : Decidable (Calm e s jobid) :=
  inferInstanceAs (Decidable (∀ p ∈ s.activeJobs, ¬Spool.timedOut e p ∧
    (p.jobid = jobid → ¬Spool.isDead e p)))

instance {jobid : ℤ} : ∀ l s, Decidable (foreign u jobid l s)
  | (_, .accept _ _), _ => inferInstanceAs (Decidable (_ ∧ _ ∧ True))
  | (_, .message index m), s =>
    inferInstanceAs (Decidable (_ ∧ _ ∧ s.Other u index ∧ s.Speaks index m))
  | (_, .disconnect index), s => inferInstanceAs (Decidable (_ ∧ _ ∧ s.Other u index))
  | (_, .health), _ | (_, .cleanup), _ | (_, .schedule), _ | (_, .restart), _ =>
    inferInstanceAs (Decidable (_ ∧ _ ∧ False))

/-- A server with the users root, 1000 and 1001. -/
def twoUsers : Server :=
  { started with
    users := fun u => if u = 0 then { name := "Root" } else { name := "user", uid := 999 + u, maxSlots := 2 }
    nusers := 3 }

theorem fresh_twoUsers : twoUsers.Fresh := by
  refine ⟨rfl, rfl, rfl, rfl, ?_, ?_, by decide, rfl⟩
  · decide
  · decide

/-- The user 1001 tries to hold, to remove and to suspend the running job of the user 1000. -/
theorem others_spared_twoUsers : ∃ s s' : Server, ∃ p p' : Job, p ∈ s.activeJobs ∧
    p.state = .running ∧ s'.sent.length = s.sent.length + 4 ∧ p' ∈ s'.activeJobs ∧ p.Spares p' := by
  obtain ⟨s, hr, hP⟩ := exists_run plainConfig noChosenId twoUsers
    (fun s => (∃ p ∈ s.activeJobs, p.user = some 1 ∧ p.jobid = 1000 ∧ p.state = .running) ∧
      reaches (foreign 1 1000) (fun s' => s'.sent.length = s.sent.length + 4)
        [(world 5, .accept 6 1001), (world 6, .message 1 (.request (.holdJob 1000))),
          (world 7, .accept 7 1001), (world 8, .message 1 (.removejob 1000)),
          (world 9, .message 1 (.request (.suspendUser 0)))] s)
    [(world 1, .accept 5 1000), (world 2, .message 0 (.newjob {})), (world 3, .schedule),
      (world 4, .message 0 (.runjobOk none 100))]
    (by simp [world]) (by decide +kernel)
  obtain ⟨⟨p, hp, huser, hid, hstate⟩, hP⟩ := of_decide_eq_true hP
  obtain ⟨s', h', hsent⟩ := exists_run plainConfig _ _ _ _ (by simp [world]) hP
  obtain ⟨p', hp', hsp⟩ := others_spared fresh_twoUsers hr hp huser (hid ▸ h')
  exact ⟨s, s', p, p', hp, hstate, of_decide_eq_true hsent, hp', hsp⟩

end Server

end TaskSpooler
