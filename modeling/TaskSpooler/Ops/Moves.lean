import TaskSpooler.Ops.Basic
import TaskSpooler.Sched.Slots
import TaskSpooler.Server.Steps

/-!
# The operations as moves

Every operation is a sequence of moves of the scheduler (`Op.moves`).  So whatever all moves keep
holds after every operation as well.
-/

namespace TaskSpooler

namespace Op

/-- The moves that an operation is made of. -/
def Makes : Op → Act → Prop
  | pause p, .pause p' => p' = p
  | relegate p, .relegate p' _ => p' = p
  | finish r jobid, .finish r' p _ _ => r' = r ∧ p.jobid = jobid
  | dispatch _ p, .dispatch _ p' _ | dispatch _ p, .asleep _ p' _ => p' = p
  | wake p, .wake p' => p' = p
  | fill socket m user _, a => ∃ next id, a.ofNewjob socket m user next id
  | runjobOk jobid _ pid, .pid p n => p.jobid = jobid ∧ n = pid
  | health jobid, .abnormal p => p.jobid = jobid
  | delete jobid, .delete p => p.jobid = jobid
  | removeActive p, a | removeFinished p, a => a.ofRemove p
  | lock p, .lock p' => p' = p
  | unlock p, .unlock p' => p' = p
  | wall jobid w, .wall p w' => p.jobid = jobid ∧ w' = w
  | absWall p, .wall p' _ => p' = p
  | addWtime _ jobid _, .wall p _ => p.jobid = jobid
  | start p, .start p' => p' = p
  | reconnect p st socket, .reconnect p' st' socket' => p' = p ∧ st' = st ∧ socket' = socket
  | bottom _, .reorder _ | urgent _ _, .reorder _ | swap _ _ _, .reorder _ | sort, .reorder _
  | notify _, .forget _ | clear _, .forget _ | recount, .recount
  | users _ _ _, .users _ _ | users _ _ _, .maxSlots _ => True
  | _, _ => False

variable {e : Env} {s s' : Spool} {o : Op}

theorem moves_bottom {ids : List ℤ} (hids : s.view.Ids) (hnd : ids.Nodup) :
    Moves (fun a _ => (bottom ids).Makes a) s.view (s.toBottom ids).view := by
  rw [Spool.toBottom, Spool.view_foldl fun s jobid => Spool.view_movebottomDb]
  refine .single (.reorder _) ?_ trivial rfl
  exact (Keyed.perm_move_last (Spool.nodup_of_ids hids) hnd).map Job.strip

theorem moves_fill {socket : ℤ} {m : NewJob} {user : ℕ} {old : Option Job} (hids : s.view.Ids)
    (hpre : (fill socket m user old).Pre e s) (h : (fill socket m user old).run e s = .ok s') :
    Moves (fun a _ => (fill socket m user old).Makes a) s.view s'.view := by
  simp only [run, Except.map_eq_ok] at h
  obtain ⟨⟨s₁, id⟩, h, rfl⟩ := h
  obtain ⟨huser, hold, hstate⟩ := hpre
  cases old with
  | none =>
    have hfree : m.jobid ≠ 0 → s.findjob m.jobid = none := fun hm => by rwa [if_neg hm] at hold
    obtain ⟨a, hg, ha, hv⟩ := Spool.newjobFill_none hids huser hfree h
    exact .single a hg ⟨_, _, ha⟩ hv
  | some p =>
    have hm : m.jobid ≠ 0 := by
      intro hm
      rw [if_pos hm] at hold
      cases hold
    rw [if_neg hm] at hold
    obtain ⟨a, hg, ha, hv⟩ := Spool.newjobFill_some huser hm hold (hstate p rfl) h
    exact .single a hg ⟨_, _, ha⟩ hv

theorem moves_notify {jobid : ℤ} (h : (notify jobid).run e s = .ok s') :
    Moves (fun a _ => (notify jobid).Makes a) s.view s'.view := by
  refine Spool.checkNotifyList_moves _ (fun a _ ha => ?_) h
  cases a with
  | forget l => trivial
  | _ => exact ha.elim

theorem moves_dispatch {uid : ℕ} {p : Job} (hids : s.view.Ids) (hpre : (dispatch uid p).Pre e s)
    (h : (dispatch uid p).run e s = .ok s') :
    Moves (fun a _ => (dispatch uid p).Makes a) s.view s'.view := by
  obtain ⟨hmem, hel, huid, hqueue, hroom⟩ := hpre
  obtain ⟨a, rfl | rfl, hg, hv⟩ := Spool.dispatch_act hids huid hqueue hroom hmem hel h
  · exact .single _ hg rfl hv
  · exact .single _ hg rfl hv

theorem moves_runjobOk {jobid pid : ℤ} {oname : Option String}
    (hpre : (runjobOk jobid oname pid).Pre e s) (h : (runjobOk jobid oname pid).run e s = .ok s') :
    Moves (fun a _ => (runjobOk jobid oname pid).Makes a) s.view s'.view := by
  obtain ⟨p, hp, ⟨-, hv⟩ | ⟨hg, hv⟩⟩ := Spool.sProcessRunjobOk_spec hpre h
  · exact .of_eq hv
  · exact .single _ hg ⟨Spool.findjob_jobid hp, rfl⟩ hv

theorem moves_clear {user : ℕ} (h : (clear user).run e s = .ok s') :
    Moves (fun a _ => (clear user).Makes a) s.view s'.view := by
  cases h
  refine (Spool.sClearFinished_moves (e := e) (K := fun _ => True)).mono fun a _ ha => ?_
  cases a with
  | forget l => trivial
  | _ => exact ha.elim

theorem moves_wall {jobid w : ℤ} (hpre : (wall jobid w).Pre e s)
    (h : (wall jobid w).run e s = .ok s') :
    Moves (fun a _ => (wall jobid w).Makes a) s.view s'.view := by
  cases h
  obtain ⟨p, hp⟩ := Option.isSome_iff_exists.1 hpre
  obtain rfl := Spool.findjob_jobid hp
  exact .single (.wall p w) (Spool.view_has hp) ⟨rfl, rfl⟩ (Spool.view_setWallTime w)

theorem moves_addWtime {socket jobid w : ℤ} (h : (addWtime socket jobid w).run e s = .ok s') :
    Moves (fun a _ => (addWtime socket jobid w).Makes a) s.view s'.view := by
  cases h
  refine (Spool.sAddWtime_moves 0 (K := fun _ => True) (e := e)).mono fun a _ ha => ?_
  cases a with
  | wall p w => exact ha.1
  | _ => exact ha.elim

theorem moves_users {us : ℕ → User} {n : ℕ} {m : ℤ} (hpre : (users us n m).Pre e s)
    (h : (users us n m).run e s = .ok s') :
    Moves (fun a _ => (users us n m).Makes a) s.view s'.view := by
  cases h
  obtain ⟨hg, hm⟩ := hpre
  have husers : Moves (fun a _ => (users us n m).Makes a) s.view
      (s.onQueue fun q => { q with users := us, nusers := n }).view :=
    .single (.users us n) hg trivial rfl
  obtain rfl | hm := hm
  · exact husers
  · exact husers.trans (.single (.maxSlots m) hm trivial rfl)

theorem moves_wait {socket : ℤ} {p : Job} :
    Moves (fun a _ => (wait socket p).Makes a) s.view (s.waitFor socket p).view := by
  refine .of_eq ?_
  rw [Spool.waitFor]
  split_ifs <;> rfl

theorem moves_reconnect {p : Job} {st : Jobstate} {socket : ℤ}
    (hpre : (reconnect p st socket).Pre e s) (h : (reconnect p st socket).run e s = .ok s') :
    Moves (fun a _ => (reconnect p st socket).Makes a) s.view s'.view := by
  cases h
  have hv : (s.onQueue fun q => q.modAnyJob p.jobid (Job.reconnected st socket)).view =
      s.view.onQueue fun q => q.modAnyJob p.jobid (Job.reconnected st socket) :=
    Spool.view_onQueue _ (Queue.strip_modAnyJob fun _ => rfl)
  refine .single (.reconnect p st socket) ⟨?_, hpre.2⟩ ⟨rfl, rfl, rfl⟩ hv
  rw [Spool.view_getJob, hpre.1, Option.map_some]

/-- **Every operation is a sequence of moves.** -/
theorem moves (hids : s.view.Ids) (hpre : o.Pre e s) (h : o.run e s = .ok s') :
    Moves (fun a _ => o.Makes a) s.view s'.view := by
  cases o with
  | send socket r | settings l t env dir b | freeze p | thaw p | unnotify socket =>
    cases h
    exact .refl
  | pause p =>
    cases h
    exact .single (.pause p) ⟨Spool.view_has hpre.1, hpre.2⟩ rfl (Spool.view_pause p)
  | relegate p =>
    cases h
    exact .single (.relegate p true) ⟨Spool.view_has hpre.1, hpre.2, by simp⟩ rfl
      (Spool.view_sRelegateJob p)
  | bottom ids =>
    cases h
    exact moves_bottom hids hpre.1
  | finish r jobid =>
    obtain ⟨p, p', hp, -, hg, hv⟩ := Spool.jobFinished_spec h
    exact .single _ hg ⟨rfl, Spool.findjob_jobid hp⟩ hv
  | notify jobid => exact moves_notify h
  | recount =>
    obtain ⟨hg, hv⟩ := Spool.recount_spec h
    exact .single .recount hg trivial hv
  | dispatch uid p => exact moves_dispatch hids hpre h
  | wake p =>
    cases h
    exact .single (.wake p) ⟨Spool.view_has hpre.1, hpre.2⟩ rfl
      (Spool.view_modJob (g := Job.setState .queued) fun _ => rfl)
  | fill socket m user old => exact moves_fill hids hpre h
  | runjobOk jobid oname pid => exact moves_runjobOk hpre h
  | health jobid =>
    cases h
    exact Server.checkHealth_moves fun p _ hid => hid
  | delete jobid =>
    obtain ⟨p, hp, hv⟩ := Spool.sDeleteJob_spec h
    exact .single (.delete p) (Spool.view_has_of_findjob hp) (Spool.findjob_jobid hp) hv
  | removeActive p =>
    exact Spool.removeActive_moves hpre.1 hpre.2.1 hpre.2.2.1 hpre.2.2.2 h
  | removeFinished p => exact Spool.removeFinished_moves hpre.1 hpre.2 h
  | clear user => exact moves_clear h
  | lock p =>
    cases h
    exact .single (.lock p) ⟨Spool.view_has hpre.1, hpre.2⟩ rfl (Spool.view_sLockQueue p)
  | unlock p =>
    cases h
    exact .single (.unlock p) ⟨Spool.view_has hpre.1, hpre.2⟩ rfl (Spool.view_sUnlockQueue p)
  | wall jobid w => exact moves_wall hpre h
  | absWall p =>
    cases h
    exact .single (.wall p _) (Spool.view_has hpre.1) rfl
      (Spool.view_modJob (g := Job.setWallTime _) fun _ => rfl)
  | start p =>
    cases h
    exact .single (.start p) ⟨Spool.view_has hpre.1, hpre.2⟩ rfl (Spool.view_configRunning e p)
  | urgent socket jobid =>
    cases h
    exact Spool.sMoveUrgent_moves hids fun _ => trivial
  | swap socket jobid₁ jobid₂ =>
    cases h
    exact Spool.sSwapJobs_moves fun _ => trivial
  | sort =>
    cases h
    exact Spool.sSortJobs_moves fun _ => trivial
  | addWtime socket jobid w => exact moves_addWtime h
  | users us n m => exact moves_users hpre h
  | wait socket p =>
    cases h
    exact moves_wait
  | reconnect p st socket => exact moves_reconnect hpre h
  | runjob socket jobid => exact .of_eq (Spool.sSendRunjob_view h)

/-- The operation records a pid. -/
def setsPid : Op → Prop
  | runjobOk _ _ _ => True
  | _ => False

theorem Makes.setsPid {p : Job} {n : ℤ} (h : o.Makes (.pid p n)) : o.setsPid := by
  cases o with
  | runjobOk jobid oname pid => trivial
  | fill socket m user old =>
    obtain ⟨next, id, h⟩ := h
    exact h.elim
  | _ => exact h.elim

/-- What is known of the ids and pids of the started jobs is kept, unless a pid is recorded. -/
theorem pids {P : ℤ → ℤ → Prop} (hids : s.view.Ids) (hpre : o.Pre e s) (h : o.run e s = .ok s')
    (hpid : ¬o.setsPid) (hP : ∀ p ∈ s.activeJobs, p.pid ≠ 0 → P p.jobid p.pid) :
    ∀ p ∈ s'.activeJobs, p.pid ≠ 0 → P p.jobid p.pid := by
  have hmoves := (moves hids hpre h).invariant
    (I := fun v => v.Ids ∧ ∀ p ∈ v.activeJobs, p.pid ≠ 0 → P p.jobid p.pid) ⟨hids, ?_⟩
    fun {v a} hI ha hg => ⟨Act.ids_apply hI.1 hg, Act.pids_apply hI.1 hg (fun p n => ?_) hI.2⟩
  · intro p hp
    exact hmoves.2 p.strip (List.mem_map_of_mem hp)
  · intro x hx
    obtain ⟨p, hp, rfl⟩ := List.mem_map.1 hx
    exact hP p hp
  · rintro rfl
    exact hpid ha.setsPid

end Op

namespace Ops

variable {e : Env} {ok : Op → Spool → Prop} {s s' : Spool}

theorem ids (h : Ops e ok s s') (hids : s.view.Ids) : s'.view.Ids :=
  h.invariant (I := fun s => s.view.Ids) hids fun hids _ hpre hr => (Op.moves hids hpre hr).ids hids

end Ops

end TaskSpooler
