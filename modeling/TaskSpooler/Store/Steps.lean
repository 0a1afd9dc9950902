import TaskSpooler.Store.Reload
import TaskSpooler.Ops.Runs

/-!
# The books over the steps of the server

Every step keeps the books in agreement (`Step.filed`) if no client asks for the id of a finished
job, and keeps the queue mirrored (`Step.mirrored`) if no client asks for an id at all, the queue is
not sorted, and a new process knows all the rows it finds.
-/

namespace TaskSpooler

/-! ### A restart -/

namespace Spool

variable {e : Env} {s s₀ s' : Spool}

theorem ledger_rewriteCpuset {p : Job} : (s.rewriteCpuset e p).ledger = s.ledger := by
  rw [rewriteCpuset]
  split_ifs
  · cases p.cpuAlloc with
    | none => rfl
    | some ptr =>
      dsimp only
      split
      · rfl
      · exact ledger_cgroupsSetCpuset
  · rfl

theorem ledger_restoreCgroup {g : Cgroup} (h : s.restoreCgroup e g = .ok s') :
    s'.ledger = s.ledger := by
  rw [restoreCgroup] at h
  dsimp only at h
  split_ifs at h
  · cases h
    rfl
  · cases h
    rfl
  · split at h
    · cases h
      rfl
    · split_ifs at h
      · split at h
        · cases h
          rfl
        · split at h
          · cases h
          · cases h
            rfl
          · split_ifs at h
            · cases h
              rfl
            · cases h
              exact ledger_modJob fun _ => rfl
      · cases h
        rfl

theorem ledger_cgroupsRestoreAllCpuBind (h : s.cgroupsRestoreAllCpuBind e = .ok s') :
    s'.ledger = s.ledger := by
  rw [cgroupsRestoreAllCpuBind, Except.bind_eq_ok] at h
  obtain ⟨s₁, h₁, h⟩ := h
  cases h
  rw [ledger_foldl fun s p => ledger_rewriteCpuset]
  exact Except.foldlM_induction (R := fun s s' : Spool => s'.ledger = s.ledger) (fun _ => rfl)
    (fun h h' => h'.trans h) (fun _ h => ledger_restoreCgroup h) h₁

end Spool

/-! ### Operations -/

namespace Op

variable {e : Env} {s s' : Spool} {o : Op} {b : Ledger} {a : Entry}

/-- The operation is a submission. -/
def fills : Op → Prop
  | fill _ _ _ _ => True
  | _ => False

theorem Books.unfiled (h : o.Books a b) (ho : ¬o.fills) : a.Unfiled b := by
  cases a with
  | insert k n next =>
    cases o with
    | fill socket m user old => exact absurd trivial ho
    | _ => exact h.elim
  | _ => trivial

theorem Books.not_loses (h : o.Books a b) (ho : ¬o.fills) : ¬a.Loses := by
  cases a with
  | lose k =>
    cases o with
    | fill socket m user old => exact absurd trivial ho
    | _ => exact h.elim
  | _ => exact id

theorem not_fills_of_ofUsage (h : o.ofUsage e s) : ¬o.fills := by
  cases o with
  | fill socket m user old => exact h.elim
  | _ => exact id

/-- The job becomes a finished one. -/
def Files (k : ℤ) : Op → Prop
  | finish _ jobid => jobid = k
  | removeActive p => p.jobid = k
  | _ => False

/-- An id that is not filed stays so unless its job is finished. -/
theorem Books.notMem_filed {k : ℤ} (h : o.Books a b) (ho : ¬o.Files k) (hk : k ∉ b.filed) :
    k ∉ (a.apply b).filed := by
  cases a with
  | finish j l =>
    have hjk : k ≠ j := by
      rintro rfl
      cases o with
      | finish r jobid => exact ho h.symm
      | removeActive p => exact ho h.symm
      | _ => exact h.elim
    simp only [Entry.apply]
    split_ifs
    · exact hk
    · rw [List.mem_append, List.mem_singleton, not_or]
      exact ⟨hk, hjk⟩
  | unfile l ks => exact fun hmem => hk (List.mem_filter.1 hmem).1
  | _ => exact hk

/-- The id that a submission asks for is not filed. -/
def AsksUnfiled (s : Spool) : Op → Prop
  | fill _ m _ _ => m.jobid ≠ 0 → 0 < m.jobid ∧ m.jobid ∉ s.ledger.filed
  | _ => True

/-- **The operations keep the books in agreement.** -/
theorem filed (hids : s.view.Ids) (hf : s.ledger.Filed) (hpre : o.Pre e s) (h : o.run e s = .ok s')
    (hask : o.AsksUnfiled s) : s'.ledger.Filed := by
  have hentries := entries hids hpre h
  cases o with
  | fill socket m user old =>
    refine (hentries.invariant (I := fun b => b.Filed ∧ (m.jobid ≠ 0 → m.jobid ∉ b.filed))
      ⟨hf, fun hm => (hask hm).2⟩ fun {b a} hI hb hg => ⟨hI.1.apply hg ?_, fun hm => ?_⟩).1
    · cases a with
      | insert k n next =>
        obtain ⟨rfl, -⟩ := hb
        show 0 < (if m.jobid ≠ 0 then m.jobid else b.jobids) ∧
          (if m.jobid ≠ 0 then m.jobid else b.jobids) ∉ b.filed
        split_ifs with hm
        · exact ⟨(hask hm).1, hI.2 hm⟩
        · exact ⟨hI.1.pos.trans_le hI.1.counter, hI.1.jobids_notMem⟩
      | _ => trivial
    · exact hb.notMem_filed id (hI.2 hm)
  | _ => exact hentries.invariant hf fun hf hb hg => hf.apply hg (hb.unfiled id)

/-- The submission leaves the choice of the id to the server. -/
def AsksNone : Op → Prop
  | fill _ m _ _ => m.jobid = 0
  | _ => True

theorem AsksNone.asksUnfiled (h : o.AsksNone) : o.AsksUnfiled s := by
  cases o with
  | fill socket m user old => exact fun hm => absurd h hm
  | _ => trivial

/-- **The operations keep the queue mirrored.** -/
theorem mirrored (hids : s.view.Ids) (hf : s.ledger.Filed) (hm : s.ledger.Mirrored)
    (hsort : s.ledger.sorts = false) (hpre : o.Pre e s) (h : o.run e s = .ok s') (hask : o.AsksNone) :
    s'.ledger.Mirrored ∧ s'.ledger.sorts = false := by
  have hentries := entries hids hpre h
  refine (hentries.invariant (I := fun b => b.Filed ∧ b.Mirrored ∧ b.sorts = false)
    ⟨hf, hm, hsort⟩ fun {b a} hI hb hg => ?_).2
  obtain ⟨hf, hm, hsort⟩ := hI
  have hnew : a.Unfiled b ∧ ¬a.Loses := by
    cases o with
    | fill socket m user old =>
      have hzero : ¬m.jobid ≠ 0 := not_not.2 hask
      cases a with
      | insert k n next =>
        obtain ⟨rfl, -⟩ := hb
        rw [if_neg hzero]
        exact ⟨⟨hf.pos.trans_le hf.counter, hf.jobids_notMem⟩, id⟩
      | lose k => exact absurd hb.1 hzero
      | _ => exact ⟨trivial, id⟩
    | _ => exact ⟨hb.unfiled id, hb.not_loses id⟩
  refine ⟨hf.apply hg hnew.1, hm.apply hf hg hnew.1 hsort hnew.2, ?_⟩
  cases a <;> exact hsort

end Op

/-! ### Steps -/

namespace Server

variable {e : Env} {s s' : Server} {sp sp' : Spool} {i : Input} {o : Op} {C : Config}

/-- Nobody has used the id that a client asks for: no finished job has it, and no active one whose
process has died. -/
def IdFree (e : Env) (sp : Spool) (m : NewJob) : Prop :=
  m.jobid ≠ 0 → 0 < m.jobid ∧ m.jobid ∉ sp.dbFinished.keys ∧
    ∀ p ∈ sp.activeJobs, p.pid ≠ 0 → p.jobid = m.jobid → 0 < p.pid → e.alive p.pid

/-- The ids that the clients ask for with this input are free. -/
def AsksFree (e : Env) (sp : Spool) : Input → Prop
  | .message _ (.newjob m) => IdFree e sp m
  | _ => True

theorem Performs.fill {socket : ℤ} {m : NewJob} {user : ℕ} {old : Option Job}
    (h : s.Performs e i (.fill socket m user old) sp) : ∃ index, i = .message index (.newjob m) := by
  cases i with
  | message index msg =>
    obtain h | h := h
    · exact h.elim
    · cases msg with
      | newjob m' =>
        obtain h | h | h := h
        · exact h.elim
        · exact ⟨index, by rw [h.2.1]⟩
        · exact h.elim
      | request r =>
        obtain h | ⟨-, -, h⟩ := h
        · cases r <;> exact h.elim
        · cases h
      | runjobOk oname pid => cases h
      | endjob r => obtain h | h | ⟨r', h⟩ := h <;> cases h
      | reconnect jobid pid => exact h.elim
      | removejob jobid => exact h.elim
      | killAll format jobid =>
        obtain ⟨r, h⟩ | h | ⟨socket, h⟩ | ⟨k, -, -, h⟩ | ⟨k, -, -, -, h⟩ := h
        · cases h
        · exact h.elim
        · cases h
        · exact h.elim
        · cases h
      | killServer => exact h.elim
      | unknown =>
        obtain ⟨-, h⟩ | ⟨-, h⟩ := h
        · exact h.elim
        · cases h
  | disconnect index =>
    obtain ⟨-, h⟩ | ⟨-, h⟩ := h
    · exact h.elim
    · cases h
  | health =>
    obtain ⟨jobid, h⟩ := h
    cases h
  | cleanup =>
    obtain ⟨jobid, p, h, -⟩ := h
    cases h
  | schedule =>
    obtain h | ⟨p, h⟩ := h
    · exact h.elim
    · cases h
  | accept socket uid =>
    obtain ⟨r, h⟩ := h
    cases h
  | restart => exact h.elim

/-- In a submission, only jobs whose process has died are finished. -/
theorem Performs.not_files {index : ℕ} {m : NewJob} {k : ℤ}
    (h : s.Performs e (.message index (.newjob m)) o sp)
    (halive : ∀ p ∈ sp.activeJobs, p.pid ≠ 0 → p.jobid = k → 0 < p.pid → e.alive p.pid) :
    ¬o.Files k ∧ ¬o.setsPid := by
  obtain h | h | h | h := h
  · cases o with
    | settings l t env dir b => exact ⟨id, id⟩
    | _ => exact h.elim
  · cases o with
    | finish r jobid =>
      refine ⟨?_, id⟩
      rintro rfl
      obtain ⟨p, hp, hdead, -⟩ := h
      simp only [Spool.isDead, decide_eq_true_eq] at hdead
      obtain ⟨-, hpos, hnot⟩ := hdead
      rw [halive p (Keyed.mem_of_lookup hp) hpos.ne' (Spool.findjob_jobid hp) hpos] at hnot
      cases hnot
    | relegate p | bottom ids | notify jobid | recount | dispatch uid p | wake p | send socket r =>
      exact ⟨id, id⟩
    | _ => exact h.elim
  · cases o with
    | send socket r | fill socket m' user old | delete jobid | unnotify socket => exact ⟨id, id⟩
    | _ => exact h.elim
  · cases o with
    | settings l t env dir b => exact ⟨id, id⟩
    | _ => exact h.elim

theorem Performs.asksFree (hids : sp.view.Ids) (h : s.Performs e i o sp) (hpre : o.Pre e sp)
    (hrun : o.run e sp = .ok sp') (hfree : AsksFree e sp i) : AsksFree e sp' i := by
  unfold AsksFree at hfree ⊢
  split at hfree
  · rename_i index m
    intro hm
    obtain ⟨hpos, hnot, halive⟩ := hfree hm
    obtain ⟨hfiles, hpid⟩ := h.not_files halive
    refine ⟨hpos, ?_, Op.pids (P := fun j n => j = m.jobid → 0 < n → e.alive n) hids hpre hrun hpid
      halive⟩
    exact (Op.entries hids hpre hrun).invariant (I := fun b => m.jobid ∉ b.filed) hnot
      fun hk hb _ => hb.notMem_filed hfiles hk
  · trivial

theorem Performs.asksUnfiled (h : s.Performs e i o sp) (hfree : AsksFree e sp i) :
    o.AsksUnfiled sp := by
  cases o with
  | fill socket m user old =>
    obtain ⟨index, rfl⟩ := h.fill
    exact fun hm => ⟨(hfree hm).1, (hfree hm).2.1⟩
  | _ => trivial

/-- **A step keeps the books in agreement** if the ids that a client asks for are free. -/
theorem Step.filed {l : Env × Input} (hs : s.Sound) (hf : s.ledger.Filed)
    (hfree : AsksFree l.1 s.toSpool l.2) (h : Step C s l s') : s'.ledger.Filed := by
  obtain ⟨-, hen, h⟩ := h
  by_cases hi : l.2 = .restart
  · rw [hi, step, Except.bind_eq_ok] at h
    obtain ⟨sp, hsp, h⟩ := h
    cases h
    obtain ⟨s₁, hops, hend⟩ := Spool.serverMain_ops hsp
    have h₁ := hops.invariant (I := fun s => s.view.Ids ∧ s.ledger.Filed)
      ⟨Spool.reload_reloaded.ids, Spool.filed_reload hf⟩ fun {s₁ s₂ o} hI ho hpre hr =>
        ⟨(Op.moves hI.1 hpre hr).ids hI.1, Op.filed hI.1 hI.2 hpre hr ?_⟩
    · obtain rfl | hend := hend
      · exact h₁.2
      · show sp.ledger.Filed
        rw [Spool.ledger_cgroupsRestoreAllCpuBind hend]
        exact h₁.2
    · cases o with
      | fill socket m user old => exact ho.elim
      | _ => trivial
  · exact ((step_ops hs hen hi h).invariant
      (I := fun sp => sp.view.Ids ∧ sp.ledger.Filed ∧ AsksFree l.1 sp l.2)
      ⟨hs.ids, hf, hfree⟩ fun {sp sp' o} hI ho hpre hr =>
        ⟨(Op.moves hI.1 hpre hr).ids hI.1,
          Op.filed hI.1 hI.2.1 hpre hr (ho.asksUnfiled hI.2.2),
          ho.asksFree hI.1 hpre hr hI.2.2⟩).2.1

/-- The clients leave the choice of the ids to the server. -/
def AsksNoId : Input → Prop
  | .message _ (.newjob m) => m.jobid = 0
  | _ => True

theorem AsksNoId.asksFree (h : AsksNoId i) : AsksFree e sp i := by
  unfold AsksNoId at h
  split at h
  · exact fun hm => absurd h hm
  · rename_i hnot
    unfold AsksFree
    split
    · rename_i index m
      exact absurd rfl (hnot index m)
    · trivial

theorem Performs.asksNone (h : s.Performs e i o sp) (hno : AsksNoId i) : o.AsksNone := by
  cases o with
  | fill socket m user old =>
    obtain ⟨index, rfl⟩ := h.fill
    exact hno
  | _ => trivial

/-- **A step keeps the queue mirrored** if the server chooses the ids, and if a new process knows all
rows and is not told to sort the queue. -/
theorem Step.mirrored {l : Env × Input} (hs : s.Sound) (hf : s.ledger.Filed)
    (hm : s.ledger.Mirrored) (hsort : s.jobsortFlag = false) (hno : AsksNoId l.2)
    (hknown : l.2 = .restart → l.1.tsSortjobs = 0 ∧ ∀ r ∈ s.dbJobs.rows, Spool.knownRow r)
    (h : Step C s l s') : s'.ledger.Mirrored ∧ s'.jobsortFlag = false := by
  obtain ⟨-, hen, h⟩ := h
  by_cases hi : l.2 = .restart
  · obtain ⟨hoff, hrows⟩ := hknown hi
    rw [hi, step, Except.bind_eq_ok] at h
    obtain ⟨sp, hsp, h⟩ := h
    cases h
    obtain ⟨s₁, hops, hend⟩ := Spool.serverMain_ops hsp
    have hflag : (s.reload l.1).ledger.sorts = false := by
      have hkeys : ∀ k ∈ s.dbJobs.keys, k < s.dbJobids := fun k hk =>
        (hf.known k (.inl (Table.isSome_order.2 hk))).2
      rw [Spool.ledger_reload hf.pos hkeys]
      simp [Spool.blankLedger, hoff]
    have h₁ := hops.invariant (I := fun s => s.view.Ids ∧ s.ledger.Filed ∧ s.ledger.Mirrored ∧
        s.ledger.sorts = false)
      ⟨Spool.reload_reloaded.ids, Spool.filed_reload hf, Spool.mirrored_reload hf hm hrows, hflag⟩
      fun {s₁ s₂ o} hI ho hpre hr => ?_
    · obtain rfl | hend := hend
      · exact h₁.2.2
      · show sp.ledger.Mirrored ∧ sp.ledger.sorts = false
        rw [Spool.ledger_cgroupsRestoreAllCpuBind hend]
        exact h₁.2.2
    · have hask : o.AsksNone := by
        cases o with
        | fill socket m user old => exact ho.elim
        | _ => trivial
      obtain ⟨hids, hf, hm, hsort⟩ := hI
      exact ⟨(Op.moves hids hpre hr).ids hids, Op.filed hids hf hpre hr hask.asksUnfiled,
        Op.mirrored hids hf hm hsort hpre hr hask⟩
  · refine ((step_ops hs hen hi h).invariant
      (I := fun sp => sp.view.Ids ∧ sp.ledger.Filed ∧ sp.ledger.Mirrored ∧ sp.ledger.sorts = false)
      ⟨hs.ids, hf, hm, hsort⟩ fun {sp sp' o} hI ho hpre hr => ?_).2.2
    have hask := ho.asksNone hno
    obtain ⟨hids, hf, hm, hsort⟩ := hI
    exact ⟨(Op.moves hids hpre hr).ids hids, Op.filed hids hf hpre hr hask.asksUnfiled,
      Op.mirrored hids hf hm hsort hpre hr hask⟩

/-! ### The counter -/

theorem jobids_of_ops {ok : Op → Spool → Prop} (hids : sp.view.Ids) (h : Ops e ok sp sp')
    (hok : ∀ o s, ok o s → ¬o.fills) : sp'.jobids = sp.jobids := by
  refine (h.invariant (I := fun s => s.view.Ids ∧ s.ledger.jobids = sp.ledger.jobids) ⟨hids, rfl⟩
    fun {s₁ s₂ o} hI ho hpre hr => ⟨(Op.moves hI.1 hpre hr).ids hI.1, ?_⟩).2
  refine (Op.entries hI.1 hpre hr).invariant (I := fun b => b.jobids = sp.ledger.jobids) hI.2
    fun {b a} hb hbook _ => ?_
  have hnot := hok o s₁ ho
  cases a with
  | insert k n next | count n =>
    cases o with
    | fill socket m user old => exact absurd trivial hnot
    | _ => exact hbook.elim
  | _ => exact hb

end Server

end TaskSpooler
