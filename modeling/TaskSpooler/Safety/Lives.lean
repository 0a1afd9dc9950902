import TaskSpooler.Lib.Life
import TaskSpooler.Ops.Runs
import TaskSpooler.Ops.Told
import TaskSpooler.Sched.States

/-!
# The lives of jobs

What the server does is measured here against a very small model of it: a job comes into being when
it is submitted, waits, is started, is over and is forgotten (`Life`).  `View.life` reads the stage of
a job id off the lists of active and finished jobs.

* `lives_only_advance`: in a run without a restart in which the server chooses the ids, every life only
  moves up.  So no job that was started ever waits for its first start again, whether it is paused,
  requeued, relegated or taken over by another connection; a job that is over is never active again;
  an id that has been forgotten is not given out again; and what a client asked for when it submitted
  the job (`Job.deed`: the command, the owner, the slots, the dependencies and so on) stays as it is
  from its submission until it is forgotten.
* `View.life_apply`: one move of the scheduler.
-/

namespace TaskSpooler

/-! ### The life of a job -/

/-- What a job was submitted with. -/
def Job.deed (p : Job) : Job :=
  { p.plain with
    state := .queued
    result := {}
    pid := 0
    wallTime := 0
    numAllocated := 0
    clientSocket := 0 }

/-- The stage of a job, by its state. -/
def Job.life (p : Job) : Life Job :=
  match p.state with
  | .queued | .holdingClient | .locked | .wait => .waiting p.deed
  | .running | .pause | .abnormal | .delink => .started p.deed
  | .finished | .skipped => .ended p.deed

/-- The life that belongs to an id: the active job, or the finished job, and otherwise what the
counter says. -/
def View.life (v : View) (jobid : ℤ) : Life Job :=
  match v.findjob jobid with
  | some p => p.life
  | none =>
    match v.findFinishedJob jobid with
    | some p => .ended p.deed
    | none => if jobid < v.jobids then .forgotten else .unborn

theorem plainFn_deed : PlainFn Job.deed := fun _ => rfl

namespace Job

variable {p p' : Job}

theorem deed_of_plain (h : p.plain = p'.plain) : p.deed = p'.deed := by
  rw [← plainFn_deed p, h, plainFn_deed]

theorem jobid_of_deed (h : p.deed = p'.deed) : p.jobid = p'.jobid := by
  have hid : p.deed.jobid = p'.deed.jobid := congrArg Job.jobid h
  exact hid

theorem deed_life (p : Job) : p.life.deed = some p.deed := by
  rw [life]
  cases p.state <;> rfl

theorem life_le_ended (p : Job) : p.life ≤ .ended p.deed :=
  Life.le_of_rank p.deed_life rfl (by rw [life]; cases p.state <;> simp [Life.rank])

theorem life_of_over (h : p.Over) : p.life = .ended p.deed := by
  rw [life]
  obtain h | h := h <;> rw [h]

theorem life_of_started (h : p.Started) : p.life = .started p.deed := by
  rw [life]
  obtain h | h | h := h <;> rw [h]

/-- With the same deed and state nothing has happened in the life of a job. -/
theorem life_congr (hdeed : p.deed = p'.deed) (hst : p.state = p'.state) : p.life = p'.life := by
  rw [life, life, hdeed, hst]

/-- A job that is not over may be started. -/
theorem life_le_started (hdeed : p.deed = p'.deed) (hp : ¬p.Over) (hp' : p'.Started) :
    p.life ≤ p'.life := by
  refine Life.le_of_rank p.deed_life (hdeed ▸ p'.deed_life) ?_
  rw [life_of_started hp', life]
  cases hst : p.state <;> simp only [Life.rank] <;> first | omega | skip
  · exact absurd (.inl hst) hp
  · exact absurd (.inr hst) hp

/-- A job that waits may wait for something else. -/
theorem life_of_waiting (h : p.state = .queued ∨ p.state = .holdingClient ∨ p.state = .locked) :
    p.life = .waiting p.deed := by
  rw [life]
  obtain h | h | h := h <;> rw [h]

end Job

namespace View

variable {v : View} {jobid : ℤ} {p x : Job}

theorem life_of_active (hids : v.Ids) (hp : p ∈ v.activeJobs) : v.life p.jobid = p.life := by
  have hfind : v.findjob p.jobid = some p := Keyed.lookup_of_mem hids.nodup hp
  rw [life, hfind]

/-- No two records have the same id, be they active or finished. -/
def Once (v : View) : Prop := ((v.activeJobs ++ v.finishedJobs).map Job.jobid).Nodup

theorem life_of_finished (honce : v.Once) (hx : x ∈ v.finishedJobs) : v.life x.jobid = .ended x.deed := by
  rw [Once, List.map_append] at honce
  obtain ⟨-, hnd, hapart⟩ := List.nodup_append.1 honce
  have hnone : v.findjob x.jobid = none := by
    refine Keyed.lookup_eq_none.2 fun p hp heq => ?_
    exact hapart _ (List.mem_map_of_mem hp) _ (List.mem_map_of_mem hx) heq
  have hfind : v.findFinishedJob x.jobid = some x := Keyed.lookup_of_mem hnd hx
  rw [life, hnone, hfind]

theorem life_of_none (hactive : ∀ p ∈ v.activeJobs, p.jobid ≠ jobid)
    (hfinished : ∀ x ∈ v.finishedJobs, x.jobid ≠ jobid) :
    v.life jobid = if jobid < v.jobids then .forgotten else .unborn := by
  have hnone : v.findjob jobid = none := Keyed.lookup_eq_none.2 hactive
  have hnone' : v.findFinishedJob jobid = none := Keyed.lookup_eq_none.2 hfinished
  rw [life, hnone, hnone']

/-- An id that has not been given out has no life yet. -/
theorem life_of_le (hids : v.Ids) (hset : v.Settled) (h : v.jobids ≤ jobid) :
    v.life jobid = .unborn := by
  rw [life_of_none (fun p hp => ?_) fun x hx => ?_, if_neg h.not_gt]
  · have := hids.lt p hp
    omega
  · have := (hset x hx).2
    omega

end View

/-! ### One move -/

namespace Act

variable {v : View} {a : Act}

/-- The move is not one of a request for an id of the client's choice. -/
def ServerChooses : Act → Prop
  | submit _ _ _ m _ => m.jobid = 0
  | reuse _ _ _ _ _ => False
  | _ => True

theorem ofUsage.serverChooses {e : Env} {late : Job → Prop} (h : a.ofUsage e late) :
    a.ServerChooses := by
  cases a with
  | submit p ds n m q | reuse old p ds m q =>
    obtain h | h | h := h
    · exact h.elim
    · cases h
    · exact h.1.elim
  | _ => trivial

/-- **The ids stay apart** as long as the server chooses them. -/
theorem once_apply (hids : v.Ids) (hset : v.Settled) (honce : v.Once) (hg : a.Guard v)
    (ha : a.ServerChooses) : (a.apply v).Once := by
  rw [View.Once] at honce ⊢
  by_cases hnew : ∀ p ds n m q, a ≠ submit p ds n m q
  · obtain ⟨l, hperm, hsub⟩ := ids_subperm hids hg hnew
    exact hperm.nodup_iff.1 (honce.sublist hsub)
  · -- a new job has an id that nobody had
    push Not at hnew
    obtain ⟨p, ds, n, m, q, rfl⟩ := hnew
    obtain ⟨-, -, -, -, -, -, -, -, -, -, hid, -⟩ := id hg
    have hm : m.jobid = 0 := ha
    rw [if_neg (by simp [hm])] at hid
    have hfresh : p.jobid ∉ (v.activeJobs ++ v.finishedJobs).map Job.jobid := by
      rw [List.map_append, List.mem_append]
      rintro (hmem | hmem)
      · obtain ⟨x, hx, hxid⟩ := List.mem_map.1 hmem
        have := hids.lt x hx
        omega
      · obtain ⟨x, hx, hxid⟩ := List.mem_map.1 hmem
        have := (hset x hx).2
        omega
    have hperm : (((submit p ds n m q).apply v).activeJobs.map Job.jobid).Perm
        (p.jobid :: v.activeJobs.map Job.jobid) := ids_perm hids hg
    have hfin := finished_subperm hids hg
    have hnone : (submit p ds n m q).shelved = [] := rfl
    rw [hnone, List.append_nil] at hfin
    rw [List.map_append] at honce hfresh ⊢
    obtain ⟨l, hl, hsub⟩ := ((List.subperm_append_left _).2 hfin).trans
      (hperm.append_right _).subperm
    exact hl.nodup_iff.1 ((List.nodup_cons.2 ⟨hfresh, honce⟩).sublist hsub)

/-- **The life of the job that a move changes.** -/
theorem life_new {p p' : Job} (hv : v.Proper) (hg : a.Guard v) (ha : a.ServerChooses)
    (hold : a.old v = some p) (hnew : a.new v = some p') : p.life ≤ p'.life := by
  have hproper : p.Proper := of_old plainFn_proper hg hv hold
  have hnot : p.Started → ¬p.Over := by
    rintro (h | h | h) (h' | h') <;> simp [h] at h'
  cases a with
  | pause p =>
    cases hold
    cases hnew
    exact Job.life_le_started rfl (hnot (hproper.started hg.2.1)) (.inr (.inl rfl))
  | relegate p requeue =>
    cases hold
    cases hnew
    have hst : p.Started := hg.2.1.imp_right .inl
    split_ifs
    · exact Job.life_le_started rfl (hnot hst) (.inr (.inl rfl))
    · exact Job.life_le_started rfl (hnot hst) (.inr (.inl rfl))
  | abnormal p =>
    cases hold
    cases hnew
    exact Job.life_le_started rfl (hnot (.inl hg.2.1)) (.inr (.inr rfl))
  | wall p w =>
    cases hold
    cases hnew
    exact (Job.life_congr rfl rfl).le
  | start p =>
    cases hold
    cases hnew
    exact Job.life_le_started rfl (hnot (.inr (.inl hg.2.1))) (.inl rfl)
  | dispatch uid p q =>
    cases hold
    cases hnew
    refine Job.life_le_started rfl ?_ (.inl rfl)
    obtain ⟨-, -, -, -, -, -, -, -, ⟨h, -⟩ | ⟨h, -⟩⟩ := hg
    · rintro (h' | h') <;> simp [h] at h'
    · exact hnot (.inr (.inl h))
  | asleep uid p q =>
    cases hold
    cases hnew
    refine Job.life_le_started rfl ?_ (.inr (.inl rfl))
    obtain ⟨-, -, -, -, -, -, h, -⟩ := hg
    rintro (h' | h') <;> simp [h] at h'
  | wake p =>
    cases hold
    cases hnew
    rw [Job.life_of_waiting (.inr (.inl hg.2)), Job.life_of_waiting (.inl rfl)]
    rfl
  | lock p =>
    cases hold
    cases hnew
    rw [Job.life_of_waiting (.inl hg.2), Job.life_of_waiting (.inr (.inr rfl))]
    rfl
  | unlock p =>
    cases hold
    cases hnew
    rw [Job.life_of_waiting (.inr (.inr hg.2)), Job.life_of_waiting (.inl rfl)]
    rfl
  | gone p =>
    cases hold
    cases hnew
    rw [Job.life_of_over (p := p.gone) (.inl rfl)]
    exact p.life_le_ended
  | pid p n =>
    cases hold
    cases hnew
    exact (Job.life_congr rfl rfl).le
  | reconnect p st socket =>
    obtain ⟨hold', hsame⟩ := new_reconnect hg hnew
    obtain rfl := Option.some.inj (hold'.symm.trans hold)
    rw [hsame hproper.state.2]
    exact (Job.life_congr rfl rfl).le
  | reuse p₀ p ds m q => exact ha.elim
  | submit p ds n m q => cases hold
  | _ => cases hnew

end Act

/-- What is known of the jobs as long as the server chooses the ids. -/
structure View.Neat (v : View) : Prop where
  ids : v.Ids
  settled : v.Settled
  proper : v.Proper
  once : v.Once

namespace Act

variable {v : View} {a : Act}

theorem neat_apply (hv : v.Neat) (hg : a.Guard v) (ha : a.ServerChooses) : (a.apply v).Neat :=
  ⟨ids_apply hv.ids hg, settled_apply hv.ids hv.settled hg, proper_apply hv.ids hv.proper hg,
    once_apply hv.ids hv.settled hv.once hg ha⟩

/-- An active job after a move was active before, at an earlier stage, or it is new. -/
theorem active_origin (hv : v.Neat) (hg : a.Guard v) (ha : a.ServerChooses) :
    ∀ p' ∈ (a.apply v).activeJobs,
      (∃ p ∈ v.activeJobs, p.jobid = p'.jobid ∧ p.life ≤ p'.life) ∨ v.jobids ≤ p'.jobid := by
  refine forall_apply (P := fun p' => (∃ p ∈ v.activeJobs, p.jobid = p'.jobid ∧ p.life ≤ p'.life) ∨
    v.jobids ≤ p'.jobid) (fun _ => rfl) hv.ids hg (fun p hp => .inl ⟨p, hp, rfl, le_refl _⟩)
    fun p' hnew => ?_
  cases hold : a.old v with
  | some p =>
    have hle := life_new hv.proper hg ha hold hnew
    exact .inl ⟨p.strip, (has_old hg hold).mem, (jobid_new hg hold hnew).symm, hle⟩
  | none =>
    obtain ⟨ds, n, m, q, rfl⟩ := new_of_old_none hold hnew
    obtain ⟨-, -, -, -, -, -, -, -, -, -, hid, -⟩ := hg
    have hm : m.jobid = 0 := ha
    rw [if_neg (by simp [hm])] at hid
    exact .inr hid.ge

/-- A finished job after a move was active or finished before. -/
theorem finished_origin (hv : v.Neat) (hg : a.Guard v) : ∀ x' ∈ (a.apply v).finishedJobs,
    (∃ p ∈ v.activeJobs, p.deed = x'.deed) ∨ ∃ x ∈ v.finishedJobs, x.deed = x'.deed := by
  refine forall_finished_apply (P := fun x' => (∃ p ∈ v.activeJobs, p.deed = x'.deed) ∨
    ∃ x ∈ v.finishedJobs, x.deed = x'.deed) (fun _ => rfl) hg hv.settled
    (fun x hx => .inr ⟨x, hx, rfl⟩) ?_ ?_ ?_
  · rintro r p p' max rfl
    have hdeed : p'.deed = (p.freed.done r).deed := Job.deed_of_plain (plain_finish hv.ids hg)
    exact .inl ⟨p.strip, hg.1.mem, hdeed.symm⟩
  · rintro p max p' rfl
    have hdeed : p'.deed = p.freed.deed := Job.deed_of_plain (hg.2.2 _ rfl).2.2
    exact .inl ⟨p.strip, hg.1.mem, hdeed.symm⟩
  · rintro p rfl y hy
    exact .inr ⟨y, hy, rfl⟩

end Act

/-- **A move only moves lives up.** -/
theorem View.life_apply {v : View} {a : Act} (hv : v.Neat) (hg : a.Guard v) (ha : a.ServerChooses)
    (jobid : ℤ) : v.life jobid ≤ (a.apply v).life jobid := by
  have hv' := Act.neat_apply hv hg ha
  by_cases hactive : ∃ p' ∈ (a.apply v).activeJobs, p'.jobid = jobid
  · obtain ⟨p', hp', rfl⟩ := hactive
    rw [life_of_active hv'.ids hp']
    obtain ⟨p, hp, hid, hle⟩ | hnew := Act.active_origin hv hg ha p' hp'
    · rw [← hid, life_of_active hv.ids hp]
      exact hle
    · rw [life_of_le hv.ids hv.settled hnew]
      exact Life.unborn_le
  · by_cases hfinished : ∃ x' ∈ (a.apply v).finishedJobs, x'.jobid = jobid
    · obtain ⟨x', hx', rfl⟩ := hfinished
      rw [life_of_finished hv'.once hx']
      obtain ⟨p, hp, hdeed⟩ | ⟨x, hx, hdeed⟩ := Act.finished_origin hv hg x' hx'
      · rw [← Job.jobid_of_deed hdeed, life_of_active hv.ids hp, ← hdeed]
        exact p.life_le_ended
      · rw [← Job.jobid_of_deed hdeed, life_of_finished hv.once hx, hdeed]
    · have hnone : (a.apply v).life jobid = _ := life_of_none (fun p hp hid => hactive ⟨p, hp, hid⟩)
        fun x hx hid => hfinished ⟨x, hx, hid⟩
      have hle := Act.jobids_apply hg
      rw [hnone]
      split_ifs with hlt
      · exact Life.le_forgotten
      · rw [life_of_le hv.ids hv.settled (by omega)]

/-! ### Runs -/

namespace Server

variable {s s' s₀ : Server} {C : Config} {l : Env × Input}

/-- The life that belongs to an id. -/
def life (s : Server) (jobid : ℤ) : Life Job := s.view.life jobid

theorem noRestart_of_noChosenId (h : noChosenId l s) : noRestart l s := by
  rw [noChosenId] at h
  rw [noRestart]
  split at h <;> simp_all

/-- The moves of a step leave the choice of ids to the server. -/
theorem serverChooses {K : View → Prop} {e : Env} {late : Job → Prop} {a : Act} {v : View}
    (hok : noChosenId l s) (h : s.Does K l.1 l.2 a v ∨ a.ofUsage e late) : a.ServerChooses := by
  obtain h | h := h
  · cases a with
    | submit p ds n m q =>
      obtain ⟨index, next, hi, -⟩ := h.submit
      rw [noChosenId, hi] at hok
      have hm : m.jobid = 0 := by simpa using hok
      exact hm
    | reuse old p ds m q =>
      obtain ⟨index, hi, -, -, hm, -⟩ := h.reuse
      rw [noChosenId, hi] at hok
      exact absurd (by simpa using hok) hm
    | _ => trivial
  · exact h.serverChooses

/-- **A step only moves lives up.** -/
theorem life_step (hs : s.Sound) (hv : s.view.Neat) (hok : noChosenId l s) (h : Step C s l s') :
    s'.view.Neat ∧ ∀ jobid, s.life jobid ≤ s'.life jobid := by
  have hmoves := (step_course (K := fun _ => True) hs h.2.1
    (ne_restart_of_noRestart (noRestart_of_noChosenId hok)) (fun _ _ => trivial) h.2.2).toMoves
  refine hmoves.invariant (I := fun w => w.Neat ∧ ∀ jobid, s.life jobid ≤ w.life jobid)
    ⟨hv, fun _ => le_refl _⟩ fun ⟨hw, hle⟩ ha hg => ?_
  have hchoose := serverChooses hok ha
  exact ⟨Act.neat_apply hw hg hchoose,
    fun jobid => (hle jobid).trans (View.life_apply hw hg hchoose jobid)⟩

theorem Fresh.neat (h : s.Fresh) : s.view.Neat := by
  refine ⟨h.sound.ids, h.settled, h.tidy.proper, ?_⟩
  have hfinished : s.view.finishedJobs = [] := by
    show s.finishedJobs.map Job.strip = []
    rw [h.finishedJobs, List.map_nil]
  rw [View.Once, h.view_activeJobs, hfinished]
  exact List.nodup_nil

theorem Run.neat_life (jobid : ℤ) (h₀ : s₀.Fresh) (h : Run (Step C) noChosenId s₀ s)
    (h' : Run (Step C) noChosenId s s') : s'.view.Neat ∧ s.life jobid ≤ s'.life jobid := by
  have hs : s.Sound ∧ s.view.Neat :=
    h.invariant (I := fun s => s.Sound ∧ s.view.Neat) ⟨h₀.sound, h₀.neat⟩ fun hI hok hst =>
      ⟨hst.sound hI.1, (life_step hI.1 hI.2 hok hst).1⟩
  have hend : s'.Sound ∧ s'.view.Neat ∧ s.life jobid ≤ s'.life jobid :=
    h'.invariant (I := fun r => r.Sound ∧ r.view.Neat ∧ s.life jobid ≤ r.life jobid)
      ⟨hs.1, hs.2, le_refl _⟩ fun hI hok hst => by
        obtain ⟨hneat, hle⟩ := life_step hI.1 hI.2.1 hok hst
        exact ⟨hst.sound hI.1, hneat, hI.2.2.trans (hle jobid)⟩
  exact hend.2

/-- **Lives only advance**: whatever happens in a run without a restart in which the server chooses
the ids, no stage of a job comes back, and its deed stays the same. -/
theorem lives_only_advance (h₀ : s₀.Fresh) (h : Run (Step C) noChosenId s₀ s)
    (h' : Run (Step C) noChosenId s s') (jobid : ℤ) : s.life jobid ≤ s'.life jobid :=
  (Run.neat_life jobid h₀ h h').2

/-- Every operation is allowed. -/
def anyOp (_ : Env) (_ : Op) (_ : Spool) : Prop := True

theorem run_oneQueued : Run (Step plainConfig) noChosenId started oneQueued := by
  have haccept : OpStep plainConfig anyOp started (world 1, .accept 5 1000) _ := opStep_accept
  have hqueued : OpStep plainConfig anyOp _ _ oneQueued := opStep_oneQueued trivial fun _ _ _ => trivial
  exact (Run.start.next (by decide) haccept.1).next (by decide) hqueued.1

theorem run_oneFinished : Run (Step plainConfig) noChosenId oneQueued oneFinished := by
  have hrunning : OpStep plainConfig anyOp oneQueued _ _ := opStep_oneRunning fun _ _ => trivial
  have hpid : OpStep plainConfig anyOp oneRunning _ _ := opStep_oneWithPid trivial
  have hend : OpStep plainConfig anyOp oneWithPid _ oneFinished :=
    opStep_oneFinished trivial (fun _ _ => trivial) fun _ _ => trivial
  exact ((Run.start.next (by decide) hrunning.1).next (by decide) hpid.1).next (by decide) hend.1

/-- A job that waits, and in the end is over. -/
theorem one_life_advances : ∃ d, oneQueued.life 1000 = .waiting d ∧ oneFinished.life 1000 = .ended d ∧
    oneQueued.life 1000 ≤ oneFinished.life 1000 :=
  ⟨_, rfl, rfl, lives_only_advance fresh_started run_oneQueued run_oneFinished 1000⟩

end Server

end TaskSpooler
