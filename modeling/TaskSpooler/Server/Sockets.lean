import TaskSpooler.Server.Steps

/-!
# The sockets of the connections

`Server.roster` is the table of connections as far as the outside sees it: the sockets in their
order, with their users.  A request may close any number of connections, but it never reorders them
and never adds one (`step_roster`); `accept` adds one at the end.

Everything that a message does to the table is a sequence of edits (`edits_handle`), so a property of
the table is proved by looking at every edit once.  One of them is the part of `Server.Sound` that is
about the users of the connections (`step_sound`).
-/

namespace TaskSpooler

namespace Server

variable {e : Env} {s s' : Server} {index : ℕ} {jobid : ℤ}

/-- The sockets of the table with their users, in the order of the table. -/
def roster (s : Server) : List (ℤ × ℕ) :=
  (List.range s.nconnections.toNat).map fun i => ((s.clientCs i).socket, (s.clientCs i).user)

theorem length_roster : s.roster.length = s.nconnections.toNat := by
  rw [roster, List.length_map, List.length_range]

/-- The users of the roster are the users of the connections. -/
theorem forall_roster {P : ℕ → Prop} : (∀ x ∈ s.roster, P x.2) ↔
    ∀ j : ℕ, (j : ℤ) < s.nconnections → P (s.clientCs j).user := by
  rw [roster, List.forall_mem_map]
  exact forall_congr' fun j => imp_congr_left (by rw [List.mem_range]; omega)

theorem getElem_roster {i : ℕ} (hi : i < s.roster.length) :
    s.roster[i] = ((s.clientCs i).socket, (s.clientCs i).user) := by
  simp [roster]

/-- The connections of the second table are connections of the first, in the same order. -/
def Keeps (s s' : Server) : Prop := s'.roster.Sublist s.roster

/-- What is left of a table when the entries behind the place `k` move up by one. -/
theorem sublist_of_shift {α : Type*} (g : ℕ → α) (k n : ℕ) :
    ((List.range n).map fun j => if k ≤ j then g (j + 1) else g j).Sublist
      ((List.range (n + 1)).map g) := by
  induction n with
  | zero => exact List.nil_sublist _
  | succ n ih =>
    rw [List.range_succ, List.map_append]
    by_cases hk : k ≤ n
    · rw [List.range_succ (n := n + 1), List.map_append]
      refine ih.append ?_
      rw [List.map_singleton, if_pos hk]
      exact List.Sublist.refl _
    · -- the place is behind these entries, and none of them moves
      have hsame : ((List.range n).map fun j => if k ≤ j then g (j + 1) else g j) =
          (List.range n).map g := by
        refine List.map_congr_left fun j hj => if_neg ?_
        have hjn := List.mem_range.1 hj
        omega
      rw [hsame, List.map_singleton, if_neg hk, ← List.map_singleton (f := g), ← List.map_append,
        ← List.range_succ, List.range_succ (n := n + 1), List.map_append]
      exact List.sublist_append_left _ _

namespace Keeps

variable {s'' : Server}

theorem refl : Keeps s s := List.Sublist.refl _

theorem trans (h : Keeps s s') (h' : Keeps s' s'') : Keeps s s'' := List.Sublist.trans h' h

theorem of_same (hn : s'.nconnections = s.nconnections)
    (hsocket : ∀ j, (s'.clientCs j).socket = (s.clientCs j).socket)
    (huser : ∀ j, (s'.clientCs j).user = (s.clientCs j).user) : Keeps s s' := by
  have hsame : s'.roster = s.roster := by
    rw [roster, roster, hn]
    exact List.map_congr_left fun j _ => by rw [hsocket, huser]
  rw [Keeps, hsame]

theorem modConn {k : ℕ} {f : ClientConn → ClientConn} (hsocket : ∀ c, (f c).socket = c.socket)
    (huser : ∀ c, (f c).user = c.user) : Keeps s (s.modConn k f) := by
  refine .of_same rfl (fun j => ?_) fun j => ?_
  all_goals
    by_cases hj : j = k
    · subst hj
      simp only [Server.modConn, Function.update_self, hsocket, huser]
    · simp only [Server.modConn, Function.update_of_ne hj]

theorem shift : Keeps s (s.shift index) := by
  obtain hn | ⟨n, hn⟩ : s.nconnections ≤ 0 ∨ ∃ n : ℕ, s.nconnections = n + 1 := by
    obtain hn | hn := le_or_gt s.nconnections 0
    · exact .inl hn
    · exact .inr ⟨(s.nconnections - 1).toNat, by omega⟩
  · have hempty : (s.shift index).roster = [] := by
      rw [roster, Server.shift, Int.toNat_of_nonpos (by dsimp only; omega)]
      rfl
    rw [Keeps, hempty]
    exact List.nil_sublist _
  · have hshift : (s.shift index).roster = (List.range n).map fun j =>
        if index ≤ j then ((s.clientCs (j + 1)).socket, (s.clientCs (j + 1)).user)
        else ((s.clientCs j).socket, (s.clientCs j).user) := by
      have hlen : (s.shift index).nconnections.toNat = n := by
        simp only [Server.shift, hn]
        omega
      rw [roster, hlen]
      refine List.map_congr_left fun j hj => ?_
      have hj' : (j : ℤ) < s.nconnections - 1 := by
        have := List.mem_range.1 hj
        omega
      simp only [Server.shift, hj', and_true]
      split_ifs <;> rfl
    have hroster : s.roster = (List.range (n + 1)).map fun j =>
        ((s.clientCs j).socket, (s.clientCs j).user) := by
      rw [roster, hn]
      rfl
    rw [Keeps, hshift, hroster]
    exact sublist_of_shift (fun j => ((s.clientCs j).socket, (s.clientCs j).user)) index n

end Keeps

/-! ### The edits of the table -/

/-- What a step does to the server at one place of the table of connections. -/
inductive Edit
  /-- The jobs and users, not the table. -/
  | spool (sp : Spool)
  | stop
  | setJob (k : ℕ) (jobid : ℤ) (hasjob : Bool)
  | release (k : ℕ)
  | clear (k : ℕ) (jobid : ℤ)
  | shift (k : ℕ)

namespace Edit

/-- The effect of an edit. -/
def apply (s : Server) : Edit → Server
  | spool sp => { s with toSpool := sp }
  | stop => { s with keepLoop := false }
  | setJob k jobid hasjob => s.modConn k fun c => { c with jobid := jobid, hasjob := hasjob }
  | release k => s.modConn k fun c => { c with hasjob := false }
  | clear k jobid => s.clearCarriers k jobid
  | shift k => s.shift k

/-- Only a connection of the user `u` gets a job, and the job is one of `G`. -/
def Allowed (u : ℕ) (G : ℤ → Prop) (ed : Edit) (s : Server) : Prop :=
  ∀ k jobid, ed = setJob k jobid true → (s.clientCs k).user = u ∧ G jobid

end Edit

/-- Edits of the table, one after the other. -/
def Edits (u : ℕ) (G : ℤ → Prop) (s s' : Server) : Prop :=
  Run (fun s ed s' => s' = Edit.apply s ed) (Edit.Allowed u G) s s'

namespace Edits

variable {u : ℕ} {G : ℤ → Prop} {s'' : Server}

theorem refl : Edits u G s s := Run.start

theorem trans (h : Edits u G s s') (h' : Edits u G s' s'') : Edits u G s s'' := Run.trans h h'

theorem single (ed : Edit) (hed : ed.Allowed u G s) : Edits u G s (ed.apply s) :=
  Run.start.next hed rfl

theorem spool (sp : Spool) : Edits u G s { s with toSpool := sp } :=
  .single (.spool sp) fun _ _ h => by cases h

theorem release (k : ℕ) : Edits u G s (s.modConn k fun c => { c with hasjob := false }) :=
  .single (.release k) fun _ _ h => by cases h

theorem shift (k : ℕ) : Edits u G s (s.shift k) := .single (.shift k) fun _ _ h => by cases h

theorem clear (k : ℕ) (jobid : ℤ) : Edits u G s (s.clearCarriers k jobid) :=
  .single (.clear k jobid) fun _ _ h => by cases h

theorem setJob (k : ℕ) (jobid : ℤ) (hasjob : Bool) (h : hasjob → (s.clientCs k).user = u ∧ G jobid) :
    Edits u G s (s.modConn k fun c => { c with jobid := jobid, hasjob := hasjob }) := by
  refine .single (.setJob k jobid hasjob) fun k' jobid' heq => ?_
  cases heq
  exact h rfl

/-- Edits leave the connections in their order. -/
theorem keeps (h : Edits u G s s') : Keeps s s' := by
  refine Run.invariant (I := fun r => Keeps s r) h .refl fun {r r' ed} hI _ hst => ?_
  subst hst
  refine hI.trans ?_
  cases ed with
  | spool sp => exact .of_same rfl (fun _ => rfl) fun _ => rfl
  | stop => exact .of_same rfl (fun _ => rfl) fun _ => rfl
  | setJob k jobid hasjob =>
    exact .modConn (f := fun c => { c with jobid := jobid, hasjob := hasjob }) (fun _ => rfl)
      fun _ => rfl
  | release k =>
    exact .modConn (f := fun c => { c with hasjob := false }) (fun _ => rfl) fun _ => rfl
  | clear k jobid =>
    refine .of_same rfl (fun j => ?_) fun j => ?_
    all_goals
      simp only [Edit.apply, clearCarriers]
      split_ifs <;> rfl
  | shift k => exact .shift

end Edits

section

variable {u : ℕ} {G : ℤ → Prop}

theorem edits_removeConnection (h : s.removeConnection index = .ok s') : Edits u G s s' := by
  obtain ⟨sp, -, rfl⟩ := removeConnection_spec h
  exact (Edits.spool sp).trans (.shift index)

theorem edits_clean {socket : ℤ} (h : s.cleanAfterClientDisappeared e socket index = .ok s') :
    Edits u G s s' := by
  obtain ⟨sp, -, rfl⟩ := clean_spec h
  exact ((Edits.spool sp).trans (.release index)).trans (.shift index)

theorem edits_removeCarriersLoop {fuel i : ℕ} :
    Edits u G s (removeCarriersLoop jobid fuel i s) := by
  induction fuel generalizing i s with
  | zero => exact .refl
  | succ fuel ih =>
    rw [removeCarriersLoop]
    split_ifs
    · exact ((Edits.release i).trans (.shift i)).trans ih
    · exact ih
    · exact .refl

theorem edits_removeQueuesLoop {user fuel i : ℕ} (h : removeQueuesLoop e user fuel i s = .ok s') :
    Edits u G s s' := by
  induction fuel generalizing i s with
  | zero =>
    cases h
    exact .refl
  | succ fuel ih =>
    rw [removeQueuesLoop] at h
    split_ifs at h
    · rw [Except.bind_eq_ok] at h
      obtain ⟨s₁, h₁, h⟩ := h
      exact (edits_clean h₁).trans (ih h)
    · exact ih h
    · cases h
      exact .refl

end

/-- The jobs that a message gives to its connection: the one that has been submitted, or the one that
is taken over. -/
def Given (e : Env) (s : Server) (index : ℕ) (m : Msg) (s' : Server) (jobid : ℤ) : Prop :=
  match m with
  | .newjob m => jobid ≠ -1 ∧ ∃ sp sp₁ : Spool, sp.view = s.view ∧ s'.view = sp₁.view ∧
      sp.sNewjob e (s.clientCs index).socket m (s.clientCs index).user = .ok (sp₁, jobid)
  | .reconnect _ _ => ∃ p st, p.jobid = jobid ∧ p.user = some (s.clientCs index).user ∧
      (Act.reconnect p st (s.clientCs index).socket).Guard s.view
  | _ => False

/-- **A message edits the table**, and only the connection it came from gets a job. -/
theorem edits_handle {m : Msg} (h : s.handle e index m = .ok s') :
    Edits (s.clientCs index).user (s.Given e index m s') s s' := by
  cases m with
  | newjob m =>
    obtain ⟨sp, ⟨locker, hsp⟩, rfl | ⟨sp₁, jobid, hnew, sp₂, hrest⟩⟩ := newjob_cases h
    · exact .spool sp
    · obtain ⟨-, -, rfl⟩ | ⟨-, -, rfl⟩ | ⟨hv, hid, rfl⟩ := hrest
      · exact ((Edits.spool sp₂).trans (.setJob index jobid false nofun)).trans (.shift index)
      · exact ((Edits.spool sp₂).trans (.setJob index jobid false nofun)).trans (.shift index)
      · exact (Edits.spool sp₂).trans
          (.setJob index jobid true fun _ => ⟨rfl, hid, sp, sp₁, by rw [hsp]; rfl, hv, hnew⟩)
  | runjobOk ofilename pid =>
    rw [handle] at h
    split_ifs at h
    · rw [onSpoolM, Except.map_eq_ok] at h
      obtain ⟨sp, -, rfl⟩ := h
      exact .spool sp
    · cases h
      exact .refl
  | endjob r =>
    simp only [handle, endjob, Except.bind_eq_ok] at h
    obtain ⟨s₁, h₁, s₂, h₂, h⟩ := h
    cases h
    rw [onSpoolM, Except.map_eq_ok] at h₁ h₂
    obtain ⟨sp₁, -, rfl⟩ := h₁
    obtain ⟨sp₂, -, rfl⟩ := h₂
    exact (Edits.spool _).trans (.release index)
  | reconnect jobid pid =>
    obtain ⟨sp, -, rfl⟩ | ⟨p, st, sp, hid, huser, hg, -, rfl⟩ := reconnect_cases h
    · exact .spool sp
    · have hsame : ((s.clearCarriers index jobid).clientCs index).user = (s.clientCs index).user := by
        simp only [clearCarriers, ne_eq, not_true_eq_false, false_and, and_false, if_false]
      exact ((Edits.clear index jobid).trans (.spool sp)).trans
        (.setJob index jobid true fun _ => ⟨hsame, p, st, hid, huser, hg⟩)
  | removejob jobid =>
    rw [handle, removejob, Except.bind_eq_ok] at h
    obtain ⟨⟨sp, removed⟩, -, h⟩ := h
    cases removed with
    | none =>
      cases h
      exact .spool sp
    | some jobid =>
      cases h
      exact (Edits.spool sp).trans edits_removeCarriersLoop
  | killAll format jobid =>
    simp only [handle, killAll, Except.bind_eq_ok] at h
    obtain ⟨s₁, h₁, s₂, h₂, h⟩ := h
    rw [onSpoolM, Except.map_eq_ok] at h₂
    obtain ⟨sp, -, rfl⟩ := h₂
    exact (((Edits.spool _).trans (edits_removeQueuesLoop h₁)).trans (.spool sp)).trans
      (edits_removeConnection h)
  | killServer =>
    cases h
    split_ifs
    · exact .single .stop fun _ _ h => by cases h
    · exact .refl
  | request r =>
    rw [handle, handleRequest, Except.bind_eq_ok] at h
    obtain ⟨s₁, h₁, h⟩ := h
    rw [onSpoolM, Except.map_eq_ok] at h₁
    obtain ⟨sp, -, rfl⟩ := h₁
    split_ifs at h
    · exact (Edits.spool sp).trans (edits_removeConnection h)
    · cases h
      exact .spool sp
  | unknown => exact edits_clean h

/-- `accept` adds at most one connection, at the end. -/
theorem roster_accept {socket : ℤ} {uid : ℕ} (h : s.accept socket uid = .ok s') :
    s'.roster = s.roster ∨ ∃ u < s.nusers, s'.roster = s.roster ++ [(socket, u)] := by
  obtain ⟨hn, rfl⟩ := accept_spec h
  have hbehind : ∀ f, (s.modConn s.nconnections.toNat f).roster = s.roster := by
    intro f
    refine List.map_congr_left fun j hj => ?_
    have hne : j ≠ s.nconnections.toNat := (List.mem_range.1 hj).ne
    simp only [modConn, Function.update_of_ne hne]
  rw [enter]
  cases hu : s.findUserByUid uid with
  | none => exact .inl (hbehind fun c => { c with hasjob := false, socket := socket })
  | some u =>
    dsimp only
    refine .inr ⟨u, (Spool.findUserByUid_some hu).1, ?_⟩
    have hlen : (s.nconnections + 1).toNat = s.nconnections.toNat + 1 := by omega
    simp only [roster, hlen, List.range_succ, List.map_append, List.map_singleton, modConn,
      Function.update_self]
    congr 1
    refine List.map_congr_left fun j hj => ?_
    have hne : j ≠ s.nconnections.toNat := (List.mem_range.1 hj).ne
    simp only [Function.update_of_ne hne]

/-- **No step but `accept` adds a connection or reorders them.** -/
theorem step_roster {i : Input} (hi : ∀ socket uid, i ≠ .accept socket uid)
    (h : s.step e i = .ok s') : Keeps s s' := by
  cases i with
  | accept socket uid => exact absurd rfl (hi socket uid)
  | message index m => exact (edits_handle (s := s.onSpool fun sp => sp.timeoutLock e) h).keeps
  | disconnect index => exact (edits_clean (u := 0) (G := fun _ => False) h).keeps
  | health =>
    cases h
    exact .refl
  | cleanup =>
    rw [step, onSpoolM, Except.map_eq_ok] at h
    obtain ⟨sp, hsp, rfl⟩ := h
    exact .refl
  | schedule =>
    rw [step, Except.bind_eq_ok] at h
    obtain ⟨s₁, h₁, h⟩ := h
    rw [onSpoolM, Except.map_eq_ok] at h₁
    obtain ⟨sp, hsp, rfl⟩ := h₁
    cases h
    exact .refl
  | restart =>
    rw [step, Except.bind_eq_ok] at h
    obtain ⟨sp, -, h⟩ := h
    cases h
    exact List.nil_sublist _

/-! ### Soundness -/

/-- **Every step but a restart keeps the server sound.** -/
theorem step_sound {i : Input} (hs : s.Sound) (hen : s.Enabled i) (hi : i ≠ .restart)
    (h : s.step e i = .ok s') : s'.Sound := by
  have hcourse := step_course (K := fun _ => True) hs hen hi (fun _ _ => trivial) h
  have hn : s.nusers ≤ s'.nusers := Moves.nusers_le hcourse.toMoves
  have hold : ∀ x ∈ s.roster, x.2 < s'.nusers :=
    (forall_roster (P := fun u => u < s'.nusers)).2 fun j hj => (hs.users j hj).trans_le hn
  refine ⟨hcourse.ids hs.ids, (forall_roster (P := fun u => u < s'.nusers)).1 fun x hx => ?_⟩
  by_cases hacc : ∃ socket uid, i = .accept socket uid
  · obtain ⟨socket, uid, rfl⟩ := hacc
    obtain hsame | ⟨u, hu, hadd⟩ := roster_accept h
    · exact hold x (hsame ▸ hx)
    · rw [hadd, List.mem_append, List.mem_singleton] at hx
      obtain hx | rfl := hx
      · exact hold x hx
      · exact hu.trans_le hn
  · have hkeeps : Keeps s s' := step_roster (fun socket uid heq => hacc ⟨socket, uid, heq⟩) h
    exact hold x (hkeeps.subset hx)

end Server

end TaskSpooler
