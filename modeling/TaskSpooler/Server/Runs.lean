import TaskSpooler.CpuBind.Histories
import TaskSpooler.Server.Restart

/-!
# Runs of the server

The initial states are the servers without jobs (`Server.Fresh`); a server that starts on an empty
database is one (`fresh_restart`).

A run on concrete inputs is evaluated: `Server.reaches` follows a list of inputs, and `exists_run`
turns the answer into a run.
-/

namespace TaskSpooler

namespace Server

variable {e : Env} {s s' : Server}

/-! ### Initial states -/

/-- A server without jobs and connections. -/
structure Fresh (s : Server) : Prop where
  activeJobs : s.activeJobs = []
  finishedJobs : s.finishedJobs = []
  busySlots : s.busySlots = 0
  events : s.events = []
  uids : ∀ u < s.nusers, ∀ u' < s.nusers, (s.users u).uid = (s.users u').uid → u = u'
  counters : ∀ u < s.nusers, (s.users u).busy = 0 ∧ (s.users u).jobs = 0 ∧ (s.users u).queue = 0
  maxSlots : 0 < s.maxSlots
  nconnections : s.nconnections = 0

theorem Fresh.view_activeJobs (h : s.Fresh) : s.view.activeJobs = [] := by
  show s.activeJobs.map Job.strip = []
  rw [h.activeJobs, List.map_nil]

theorem Fresh.sound (h : s.Fresh) : s.Sound := by
  refine ⟨⟨?_, ?_, h.uids⟩, fun i hi => ?_⟩
  · rw [h.view_activeJobs]
    exact List.nodup_nil
  · rw [h.view_activeJobs]
    exact fun p hp => absurd hp List.not_mem_nil
  · rw [h.nconnections] at hi
    omega

/-- Every state of a run that starts with a sound server is sound. -/
theorem Run.sound {C : Config} {ok : Env × Input → Server → Prop} {s₀ : Server} (hs : s₀.Sound)
    (h : Run (Step C) ok s₀ s) : s.Sound :=
  h.invariant hs fun hs _ hst => hst.sound hs

/-- Nothing has happened in the queue. -/
structure Idle (v : View) : Prop where
  activeJobs : v.activeJobs = []
  finishedJobs : v.finishedJobs = []
  busySlots : v.busySlots = 0
  events : v.events = []
  maxSlots : 0 < v.maxSlots

theorem not_has_of_idle {v : View} {p : Job} (h : Idle v) : ¬v.Has p := by
  intro hp
  have := hp.mem
  rw [h.activeJobs] at this
  exact List.not_mem_nil this

theorem idle_sweep {late : Job → Prop} {v v' : View} (h : Idle v)
    (hm : Moves (fun a _ => a.ofSweep e late) v v') : Idle v' := by
  refine hm.invariant h fun {w a} hI ha hg => ?_
  cases a with
  | relegate p requeue => exact absurd hg.1 (not_has_of_idle hI)
  | finish r p p' max => exact absurd hg.1 (not_has_of_idle hI)
  | reorder l =>
    have hl : l = [] := by
      have hperm : l.Perm w.activeJobs := hg
      rw [hI.activeJobs] at hperm
      exact hperm.eq_nil
    exact ⟨hl, hI.finishedJobs, hI.busySlots, hI.events, hI.maxSlots⟩
  | forget l =>
    have hl : l = [] := by
      have hsub : l.Sublist w.finishedJobs := hg
      rw [hI.finishedJobs] at hsub
      exact List.sublist_nil.1 hsub
    exact ⟨hI.activeJobs, hl, hI.busySlots, hI.events, hI.maxSlots⟩
  | _ => exact ha.elim

theorem recount_of_idle {v : View} (h : Idle v) :
    Idle (Act.recount.apply v) ∧ ∀ u, ((Act.recount.apply v).users u).busy = 0 ∧
      ((Act.recount.apply v).users u).jobs = 0 ∧ ((Act.recount.apply v).users u).queue = 0 := by
  have hbusy : (v.onQueue Queue.recount).busySlots = v.busySlots := by
    show Queue.runningSlots v.activeJobs = _
    rw [h.activeJobs, h.busySlots]
    rfl
  have happly : Act.recount.apply v = v.onQueue Queue.recount := by
    simp only [Act.apply, hbusy, ne_eq, not_true_eq_false, if_false]
  rw [happly]
  refine ⟨⟨h.activeJobs, h.finishedJobs, hbusy.trans h.busySlots, h.events, h.maxSlots⟩, fun u => ?_⟩
  show (v.recountUser u).busy = 0 ∧ (v.recountUser u).jobs = 0 ∧ (v.recountUser u).queue = 0
  simp [Queue.recountUser, h.activeJobs, Queue.runningSlots]

/-- **A server that starts on an empty database has no jobs.** -/
theorem fresh_restart (hjobs : s.dbJobs.rows = []) (hfin : s.dbFinished.rows = [])
    (hev : s.events = []) (h : s.step e .restart = .ok s') : s'.Fresh := by
  have hsound := restart_sound h
  rw [step, Except.bind_eq_ok] at h
  obtain ⟨sp, hsp, h⟩ := h
  cases h
  have hrel : Spool.Reloaded e s.toSpool (s.reload e) := Spool.reload_reloaded
  have hactive : (s.reload e).activeJobs = [] := by
    rw [List.eq_nil_iff_forall_not_mem]
    intro p hp
    obtain ⟨r, hr, -⟩ := hrel.restored p hp
    rw [hjobs] at hr
    exact List.not_mem_nil hr
  have hidle : Idle (s.reload e).view := by
    refine ⟨?_, ?_, hrel.busySlots, hrel.events.trans hev, hrel.maxSlots⟩
    · show (s.reload e).activeJobs.map Job.strip = []
      rw [hactive, List.map_nil]
    · show (s.reload e).finishedJobs.map Job.strip = []
      rw [Spool.finishedJobs_reload hfin, List.map_nil]
  obtain ⟨v₁, h₁, -, h₂⟩ := Spool.serverMain_usage hsp
  obtain ⟨hidle', hcount⟩ := recount_of_idle (idle_sweep hidle h₁)
  -- there is no timeout, so nothing is scheduled
  have hend : sp.view = Act.recount.apply v₁ := by
    refine h₂.invariant (I := fun w => w = Act.recount.apply v₁) rfl fun _ ha _ => ?_
    obtain ⟨-, p, hp, -⟩ := ha
    rw [hactive] at hp
    exact absurd hp List.not_mem_nil
  rw [← hend] at hidle' hcount
  refine ⟨List.map_eq_nil_iff.1 hidle'.activeJobs, List.map_eq_nil_iff.1 hidle'.finishedJobs,
    hidle'.busySlots, hidle'.events, hsound.ids.uids, fun u _ => hcount u, hidle'.maxSlots,
    rfl⟩

/-! ### Runs on concrete inputs -/

instance decidableEnabled (s : Server) : ∀ i, Decidable (s.Enabled i)
  | .accept socket _ =>
    decidable_of_iff (s.nconnections < s.maxDescriptors ∧ 0 < socket ∧
        ∀ i < s.nconnections.toNat, (s.clientCs i).socket ≠ socket) <| by
      simp only [Enabled, Int.lt_toNat]
  | .message index _ => inferInstanceAs (Decidable ((index : ℤ) < s.nconnections))
  | .disconnect index => inferInstanceAs (Decidable ((index : ℤ) < s.nconnections))
  | .health | .cleanup | .schedule | .restart => isTrue trivial

/-- The inputs can be taken one after the other where `ok` holds, and then `P` holds. -/
def reaches (ok : Env × Input → Server → Prop) [∀ l s, Decidable (ok l s)] (P : Server → Bool) :
    List (Env × Input) → Server → Bool
  | [], s => P s
  | l :: ls, s =>
    decide (ok l s ∧ s.Enabled l.2) &&
      match s.step l.1 l.2 with
      | .ok s' => reaches ok P ls s'
      | .error _ => false

theorem exists_run (C : Config) (ok : Env × Input → Server → Prop) [∀ l s, Decidable (ok l s)]
    (s : Server) (P : Server → Bool) (ls : List (Env × Input)) (hC : ∀ l ∈ ls, l.1.toConfig = C)
    (h : reaches ok P ls s = true) : ∃ s', Run (Step C) ok s s' ∧ P s' = true := by
  suffices hrun : ∀ {s₁}, Run (Step C) ok s s₁ → reaches ok P ls s₁ = true →
      ∃ s', Run (Step C) ok s s' ∧ P s' = true from hrun .start h
  intro s₁ hr h₁
  clear h
  induction ls generalizing s₁ with
  | nil => exact ⟨s₁, hr, h₁⟩
  | cons l ls ih =>
    rw [reaches, Bool.and_eq_true, decide_eq_true_eq] at h₁
    obtain ⟨⟨hok, hen⟩, h₁⟩ := h₁
    split at h₁
    · rename_i s₂ hst
      exact ih (fun l hl => hC l (List.mem_cons_of_mem _ hl))
        (hr.next hok ⟨hC l List.mem_cons_self, hen, hst⟩) h₁
    · cases h₁

/-- The step can be taken, and `P` holds of the states before and after it. -/
def steps (l : Env × Input) (P : Server → Server → Bool) (s : Server) : Bool :=
  decide (s.Enabled l.2) &&
    match s.step l.1 l.2 with
    | .ok s' => P s s'
    | .error _ => false

theorem exists_run_step (ok : Env × Input → Server → Prop) [∀ l s, Decidable (ok l s)]
    (s : Server) (P : Server → Server → Bool) (l : Env × Input) (ls : List (Env × Input))
    (hC : ∀ l' ∈ ls, l'.1.toConfig = l.1.toConfig)
    (h : reaches ok (steps l P) ls s = true) :
    ∃ s₁ s₂, Run (Step l.1.toConfig) ok s s₁ ∧ Step l.1.toConfig s₁ l s₂ ∧ P s₁ s₂ = true := by
  obtain ⟨s₁, hr, hP⟩ := exists_run _ ok s _ ls hC h
  rw [steps, Bool.and_eq_true, decide_eq_true_eq] at hP
  obtain ⟨hen, hP⟩ := hP
  split at hP
  · rename_i s₂ hst
    exact ⟨s₁, s₂, hr, ⟨rfl, hen, hst⟩, hP⟩
  · cases hP

/-- Every input is allowed. -/
def anyInput (_ : Env × Input) (_ : Server) : Prop := True

instance : ∀ l s, Decidable (anyInput l s) := fun _ _ => isTrue trivial

/-- A client submits a job for some slots, runs it and reports its end. -/
def plainInput (l : Env × Input) (_ : Server) : Prop :=
  (match l.2 with
    | .accept _ _ | .schedule => true
    | .message _ (.newjob m) => m.jobid = 0 ∧ 0 < m.numSlots ∧ m.dependOnSize = 0
    | .message _ (.runjobOk _ _) | .message _ (.endjob _) => true
    | _ => false) = true

instance : ∀ l s, Decidable (plainInput l s) := fun _ _ => inferInstanceAs (Decidable (_ = true))

/-- The server is not started again. -/
def noRestart (l : Env × Input) (_ : Server) : Prop :=
  (match l.2 with
    | .restart => false
    | _ => true) = true

instance : ∀ l s, Decidable (noRestart l s) := fun _ _ => inferInstanceAs (Decidable (_ = true))

/-- The server is not started again, and the clients leave the choice of the job ids to it. -/
def noChosenId (l : Env × Input) (_ : Server) : Prop :=
  (match l.2 with
    | .message _ (.newjob m) => m.jobid = 0
    | .restart => false
    | _ => true) = true

instance : ∀ l s, Decidable (noChosenId l s) := fun _ _ => inferInstanceAs (Decidable (_ = true))

/-- There is room for another id.  The counter `jobids` is an `int`, and nothing stops it at its end;
the model counts on there, so what is said about ids is said of runs that have room. -/
def RoomForId (s : Server) : Input → Prop
  | .message _ (.newjob m) => s.jobids < intMax ∧ m.jobid < intMax
  | _ => True

instance decidableRoomForId (s : Server) : ∀ i, Decidable (s.RoomForId i)
  | .message _ (.newjob m) => inferInstanceAs (Decidable (s.jobids < intMax ∧ m.jobid < intMax))
  | .message _ (.runjobOk _ _) | .message _ (.endjob _) | .message _ (.reconnect _ _)
  | .message _ (.removejob _) | .message _ (.killAll _ _) | .message _ .killServer
  | .message _ (.request _) | .message _ .unknown | .accept _ _ | .disconnect _ | .health | .cleanup
  | .schedule | .restart => isTrue trivial

/-- The counter of the ids never reaches its end. -/
def roomForId (l : Env × Input) (s : Server) : Prop := s.RoomForId l.2

instance : ∀ l s, Decidable (roomForId l s) := fun l s => s.decidableRoomForId l.2

/-- A machine without CPU binding. -/
def plainConfig : Config where
  T := CpuBind.Bind.twoNodes
  Q := .insertion
  cpuBind := false

/-- The world at some moment: all processes are alive and belong to the user 1000, who has two of
the two slots. -/
def world (now : ℤ) : Env where
  toConfig := plainConfig
  now := now
  alive _ := true
  uidOf _ := some 1000
  tsSlots := some 2
  userFile := [.user "user" 1000 2]

/-- A server with the users root and 1000 that has just been started. -/
def started : Server where
  users u := if u = 0 then { name := "Root" } else { name := "user", uid := 1000, maxSlots := 2 }
  nusers := 2
  maxSlots := 2

theorem fresh_started : started.Fresh := by
  refine ⟨rfl, rfl, rfl, rfl, ?_, ?_, by decide, rfl⟩
  · decide
  · decide

end Server

end TaskSpooler
