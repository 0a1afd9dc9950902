import TaskSpooler.Ops.Times
import TaskSpooler.Ops.Aside

/-!
# Wall times

The sign of `wall_time` says that a job waits for another turn after a timeout, and its magnitude is
the limit.  Seven requests write to this field, and every one of them takes its absolute value.
`wall_times_in_range` says when all of it stays within 64 bits and the sign means what it should:

* no accepted submission asks for a negative wall time;
* no job is requeued whose limit is within a day of the largest number;
* nobody takes `2 ^ 63` from a job without a limit;
* `s_cont_job` marks only paused jobs as waiting.

The other operations keep the range by their own tests.
-/

namespace TaskSpooler

/-- The values of `int64_t`. -/
def IsInt64 (n : ℤ) : Prop := -2 ^ 63 ≤ n ∧ n < 2 ^ 63

instance {n : ℤ} : Decidable (IsInt64 n) := inferInstanceAs (Decidable (_ ∧ _))

/-- `i64abs` of the wall time is one as well. -/
def Job.WallFits (p : Job) : Prop := (p.wallTime.natAbs : ℤ) < 2 ^ 63

/-- The job may be relegated: another day is added to its limit. -/
def Job.Relegable (p : Job) : Prop := (p.wallTime.natAbs : ℤ) < 2 ^ 63 - 86400

instance {p : Job} : Decidable p.Relegable := inferInstanceAs (Decidable (_ < _))

/-- `s_add_wtime` computes nothing that is not within 64 bits. -/
def Job.AddFits (n : ℤ) (p : Job) : Prop :=
  (0 < n → IsInt64 (2 ^ 63 - 1 - n)) ∧
  (¬(0 < n ∧ 2 ^ 63 - 1 - n < (p.wallTime.natAbs : ℤ)) →
    IsInt64 (p.wallTime.natAbs + n) ∧ IsInt64 (((p.wallTime.natAbs : ℤ) + n).natAbs))

/-- Neither does `s_relegate_job`. -/
def Job.RelegateFits (p : Job) : Prop := IsInt64 (-(p.wallTime.natAbs : ℤ) - 86400)

namespace Times

variable {e : Env} {now : ℤ} {t t' : Times} {o : Op}

/-- The wall time has an absolute value, and its sign says that the job waits for another turn. -/
structure WallOk (t : Times) : Prop where
  fits : (t.wallTime.natAbs : ℤ) < 2 ^ 63
  sign : t.wallTime < 0 → t.state = .pause

/-- A job that has a process has not worked for longer than any limit that can be relegated. -/
structure Aged (now : ℤ) (t : Times) : Prop where
  work : t.pid ≠ 0 → now - (t.startTime + t.pauseDuration) < 2 ^ 63 - 86400
  paused : t.pid ≠ 0 → t.pauseTime ≠ 0 →
    t.pauseTime - (t.startTime + t.pauseDuration) < 2 ^ 63 - 86400

instance : Decidable (t.Aged now) :=
  decidable_of_iff ((t.pid ≠ 0 → now - (t.startTime + t.pauseDuration) < 2 ^ 63 - 86400) ∧
    (t.pid ≠ 0 → t.pauseTime ≠ 0 → t.pauseTime - (t.startTime + t.pauseDuration) < 2 ^ 63 - 86400))
    ⟨fun h => ⟨h.1, h.2⟩, fun h => ⟨h.work, h.paused⟩⟩

theorem Aged.of_eq (h : t.Aged now) (hpid : t'.pid = t.pid) (hstart : t'.startTime = t.startTime)
    (hpause : t'.pauseTime = t.pauseTime) (hdur : t'.pauseDuration = t.pauseDuration) :
    t'.Aged now := by
  constructor
  · rw [hpid, hstart, hdur]
    exact h.work
  · rw [hpid, hstart, hpause, hdur]
    exact h.paused

theorem Aged.halted (h : t.Aged now) : (t.halted now).Aged now := by
  rw [Times.halted]
  split_ifs
  · exact ⟨h.work, fun hpid _ => h.work hpid⟩
  · exact h

theorem Aged.resumed (h : t.Aged now) : (t.resumed now).Aged now := by
  rw [Times.resumed]
  split_ifs with hz
  · refine ⟨fun hpid => ?_, fun _ hne => absurd rfl hne⟩
    have hlt := h.paused hpid hz
    dsimp only
    omega
  · exact h

theorem Aged.started (h : t.Aged now) : (t.started now).Aged now :=
  h.resumed.of_eq rfl rfl rfl rfl

theorem Aged.relegated (h : t.Aged now) : (t.relegated now).Aged now := by
  rw [Times.relegated]
  split_ifs
  · exact h.halted.of_eq rfl rfl rfl rfl
  · exact h.of_eq rfl rfl rfl rfl

theorem Aged.filled {m : NewJob} (h : t.Aged now) : (t.filled e m).Aged now :=
  h.of_eq rfl rfl rfl rfl

/-- The clock stands still during a step, so no job gets older in it. -/
theorem Aged.retimes (h : t.Aged e.now) (ho : o.Retimes e t t') (hpid : ¬o.setsPid) :
    t'.Aged e.now := by
  cases o with
  | pause p =>
    obtain ⟨-, -, -, -, rfl⟩ := ho
    exact h.halted.of_eq rfl rfl rfl rfl
  | relegate p =>
    obtain ⟨-, rfl⟩ := ho
    exact h.relegated
  | dispatch uid p =>
    obtain ⟨-, rfl | ⟨-, -, rfl⟩⟩ := ho
    · exact h.started
    · exact h.of_eq rfl rfl rfl rfl
  | start p =>
    obtain ⟨-, -, rfl⟩ := ho
    exact h.started
  | fill socket m user old =>
    obtain ⟨-, rfl⟩ := ho
    exact h.filled
  | runjobOk jobid oname pid => exact absurd trivial hpid
  | wake p | unlock p | lock p =>
    obtain ⟨-, rfl⟩ := ho
    exact h.of_eq rfl rfl rfl rfl
  | health jobid =>
    obtain rfl | ⟨-, rfl⟩ := ho
    · exact h
    · exact h.of_eq rfl rfl rfl rfl
  | absWall p =>
    obtain ⟨-, -, rfl⟩ := ho
    exact h.of_eq rfl rfl rfl rfl
  | addWtime socket jobid n =>
    obtain rfl | ⟨-, -, rfl⟩ := ho
    · exact h
    · exact h.of_eq rfl rfl rfl rfl
  | wall jobid w | reconnect p st socket =>
    cases ho
    exact h.of_eq rfl rfl rfl rfl
  | _ => exact ho.elim

end Times

namespace Op

/-- What an operation must be given for the wall times to stay in order. -/
def Calm (e : Env) (o : Op) (s : Spool) : Prop :=
  match o with
  | relegate p => p.Relegable
  | fill _ m user old => s.admits user m.numSlots →
      (∀ p, old = some p → p.state = .wait ∨ p.state = .locked) →
      0 ≤ min e.maxWallTime m.wallTime ∧ min e.maxWallTime m.wallTime < 2 ^ 63
  | addWtime _ jobid n => jobid ≠ 0 → IsInt64 n ∧
      ∀ p, s.findjob jobid = some p → n = -2 ^ 63 → p.wallTime ≠ 0
  | wall jobid w => ∀ p, s.findjob jobid = some p →
      w.natAbs = p.wallTime.natAbs ∧ (w < 0 → p.state = .pause)
  | _ => True

/-- **What an operation computes of wall times is within 64 bits.** -/
def InRange (o : Op) (s : Spool) : Prop :=
  (∀ p, p ∈ s.activeJobs ∨ p ∈ s.finishedJobs → p.WallFits) ∧
  match o with
  | relegate p => p.RelegateFits
  | addWtime _ jobid n => jobid ≠ 0 → ∀ p, s.findjob jobid = some p → p.AddFits n
  | _ => True

end Op

namespace Times

variable {e : Env} {t t' : Times} {o : Op}

theorem wallTime_halted {now : ℤ} : (t.halted now).wallTime = t.wallTime := by
  rw [halted]
  split_ifs <;> rfl

theorem wallOk_of_nonneg (hw : 0 ≤ t.wallTime) (hfits : t.wallTime < 2 ^ 63) : t.WallOk :=
  ⟨by omega, fun hneg => absurd hw hneg.not_ge⟩

theorem WallOk.nonneg (h : t.WallOk) (hst : t.state ≠ .pause) : 0 ≤ t.wallTime :=
  not_lt.1 fun hneg => hst (h.sign hneg)

theorem WallOk.abs (h : t.WallOk) {st : Jobstate} {pid start pause dur : ℤ} :
    WallOk ⟨st, pid, t.wallTime.natAbs, start, pause, dur⟩ :=
  wallOk_of_nonneg (Int.natCast_nonneg _) h.fits

/-- A job that is not paused may change its state. -/
theorem WallOk.setState (h : t.WallOk) (hst : t.state ≠ .pause) (st : Jobstate) :
    WallOk { t with state := st } :=
  ⟨h.fits, fun hneg => absurd (h.nonneg hst) (not_le.2 hneg)⟩

/-- **What a calm operation makes of a wall time is in order.** -/
theorem WallOk.retimes (h : t.WallOk) (ho : o.Retimes e t t')
    (hrel : ∀ p, o = .relegate p → (t.wallTime.natAbs : ℤ) < 2 ^ 63 - 86400)
    (hfill : ∀ socket m user old, o = .fill socket m user old → t.state ≠ .delink →
      0 ≤ min e.maxWallTime m.wallTime ∧ min e.maxWallTime m.wallTime < 2 ^ 63)
    (hwall : ∀ jobid w, o = .wall jobid w →
      w.natAbs = t.wallTime.natAbs ∧ (w < 0 → t.state = .pause)) : t'.WallOk := by
  cases o with
  | pause p =>
    obtain ⟨-, -, -, -, rfl⟩ := ho
    refine ⟨?_, fun _ => rfl⟩
    dsimp only
    rw [wallTime_halted]
    exact h.fits
  | relegate p =>
    obtain ⟨-, rfl⟩ := ho
    have hlt := hrel p rfl
    refine ⟨?_, fun _ => rfl⟩
    dsimp only [Times.relegated]
    omega
  | dispatch uid p =>
    obtain ⟨-, rfl | ⟨-, -, rfl⟩⟩ := ho
    · exact h.abs
    · exact ⟨h.fits, fun _ => rfl⟩
  | start p =>
    obtain ⟨-, -, rfl⟩ := ho
    exact h.abs
  | wake p | unlock p | lock p =>
    obtain ⟨hst, rfl⟩ := ho
    exact h.setState (by simp [hst]) _
  | fill socket m user old =>
    obtain ⟨hst, rfl⟩ := ho
    have hnot : t.state ≠ .pause := by
      obtain hst | hst | hst := hst <;> simp [hst]
    have hfits := h.fits
    have hnonneg := h.nonneg hnot
    by_cases hdel : t.state = .delink
    · refine wallOk_of_nonneg ?_ ?_ <;> simp only [Times.filled, hdel, if_true] <;> omega
    · obtain ⟨hpos, hlt⟩ := hfill _ _ _ _ rfl hdel
      refine wallOk_of_nonneg ?_ ?_ <;> simp only [Times.filled, hdel, if_false]
      · exact hpos
      · exact hlt
  | runjobOk jobid oname pid =>
    obtain ⟨-, rfl⟩ | ⟨hst, rfl⟩ := ho
    · exact h
    · exact ⟨h.fits, h.sign⟩
  | health jobid =>
    obtain rfl | ⟨hst, rfl⟩ := ho
    · exact h
    · exact h.setState (by simp [hst]) _
  | wall jobid w =>
    obtain ⟨habs, hsign⟩ := hwall jobid w rfl
    cases ho
    refine ⟨?_, hsign⟩
    dsimp only
    rw [habs]
    exact h.fits
  | absWall p =>
    obtain ⟨-, -, rfl⟩ := ho
    exact h.abs
  | addWtime socket jobid n =>
    obtain rfl | ⟨hpos, hover, rfl⟩ := ho
    · exact h
    · have hfits := h.fits
      -- the test for an overflow bounds the sum, and the sign is kept
      refine ⟨?_, fun hneg => h.sign ?_⟩
      · dsimp only
        split_ifs <;> omega
      · dsimp only at hneg
        split_ifs at hneg with hw
        · exact hw
        · omega
  | reconnect p st socket =>
    cases ho
    refine ⟨h.fits, fun hneg => ?_⟩
    have hst := h.sign hneg
    simp [hst]
  | _ => exact ho.elim

end Times

namespace Spool

variable {e : Env} {s s' : Spool} {o : Op}

/-- The jobs have not worked for too long. -/
def AgedAt (now : ℤ) (s : Spool) : Prop := ∀ k t, s.times k = some t → t.Aged now

/-- **The wall times are in order.** -/
structure Walls (s : Spool) : Prop where
  ids : s.view.Ids
  settled : s.view.Settled
  active : ∀ k t, s.times k = some t → t.WallOk
  finished : ∀ p ∈ s.finishedJobs, p.WallFits

theorem Walls.active_fits (h : s.Walls) : ∀ p ∈ s.activeJobs, p.WallFits := fun p hp =>
  (h.active p.jobid p.times (times_of_findjob (findjob_of_mem h.ids hp))).fits

theorem AgedAt.op (h : s.AgedAt e.now) (hids : s.view.Ids) (hpre : o.Pre e s)
    (hrun : o.run e s = .ok s') (hpid : ¬o.setsPid) : s'.AgedAt e.now := by
  intro k t' ht'
  obtain ⟨-, ht⟩ | ⟨-, t, ht, hret⟩ | ⟨socket, m, user, rfl, -, -, rfl⟩ :=
    Op.times_run hids hpre hrun ht'
  · exact h k t' ht
  · exact (h k t ht).retimes hret hpid
  · -- a new job has no process
    exact ⟨fun hne => absurd rfl hne, fun hne => absurd rfl hne⟩

/-! ### Finished jobs -/

/-- An operation that writes to the finished jobs leaves the wall times alone. -/
theorem wallTime_new {v : View} {a : Act} {x : Job} (ho : o.Stirs) (ha : o.Makes a)
    (hx : a.new v = some x) : ∃ p, a.old v = some p ∧ x.wallTime = p.wallTime := by
  cases o with
  | finish r jobid | notify jobid | clear user | wait socket p | unnotify socket
  | settings l t env dir b =>
    cases a <;> first | exact ha.elim | cases hx
  | removeActive p | removeFinished p =>
    cases a <;> first | exact ha.elim | (cases hx; done) | (cases hx; exact ⟨_, rfl, rfl⟩)
  | reconnect p st socket =>
    cases a with
    | reconnect p' st' socket' =>
      simp only [Act.new] at hx
      split_ifs at hx with hsome
      cases hx
      exact ⟨p', if_pos hsome, rfl⟩
    | _ => exact ha.elim
  | _ => exact ho.elim

/-- All jobs of a view fit. -/
def ViewFits (v : View) : Prop :=
  (∀ x ∈ v.activeJobs, x.WallFits) ∧ ∀ x ∈ v.finishedJobs, x.WallFits

theorem Walls.viewFits (h : s.Walls) : ViewFits s.view := by
  constructor
  · intro x hx
    obtain ⟨p, hp, rfl⟩ := List.mem_map.1 hx
    exact h.active_fits p hp
  · intro x hx
    obtain ⟨p, hp, rfl⟩ := List.mem_map.1 hx
    exact h.finished p hp

theorem ViewFits.apply {v : View} {a : Act} (h : ViewFits v) (hids : v.Ids) (hset : v.Settled)
    (hg : a.Guard v) (ho : o.Stirs) (ha : o.Makes a) : ViewFits (a.apply v) := by
  obtain ⟨hact, hfin⟩ := h
  have hplain : PlainFn Job.WallFits := fun _ => rfl
  refine ⟨Act.forall_apply hplain hids hg hact fun x hx => ?_,
    Act.forall_finished_apply hplain hg hset hfin ?_ ?_ ?_⟩
  · obtain ⟨p, hold, hw⟩ := wallTime_new ho ha hx
    have hp := Act.of_old hplain hg hact hold
    rw [Job.WallFits, hw]
    exact hp
  · rintro r p p' max rfl
    have hp : p.strip.WallFits := hact _ hg.1.mem
    rw [← hplain, Act.plain_finish hids hg, hplain]
    exact hp
  · rintro p max p' rfl
    obtain ⟨-, -, hp'⟩ := hg.2.2 _ rfl
    have hp : p.strip.WallFits := hact _ hg.1.mem
    rw [← hplain, hp', hplain]
    exact hp
  · rintro p rfl y hy
    exact hfin y hy

theorem Walls.finished_op (h : s.Walls) (hpre : o.Pre e s) (hrun : o.run e s = .ok s') :
    ∀ p ∈ s'.finishedJobs, p.WallFits := by
  by_cases ho : o.Stirs
  · have hend := (Op.moves h.ids hpre hrun).invariant
      (I := fun w => w.Ids ∧ w.Settled ∧ ViewFits w) ⟨h.ids, h.settled, h.viewFits⟩
      fun hI ha hg => ⟨Act.ids_apply hI.1 hg, Act.settled_apply hI.1 hI.2.1 hg,
        hI.2.2.apply hI.1 hI.2.1 hg ho ha⟩
    exact fun p hp => hend.2.2.2 p.strip (List.mem_map_of_mem hp)
  · rw [finishedJobs_of_aside (Op.aside_run hrun ho)]
    exact h.finished

/-- **A calm operation keeps the wall times in order.** -/
theorem Walls.op (h : s.Walls) (hcalm : o.Calm e s) (hpre : o.Pre e s)
    (hrun : o.run e s = .ok s') : s'.Walls := by
  have hmoves := Op.moves h.ids hpre hrun
  refine ⟨hmoves.ids h.ids, hmoves.settled h.ids h.settled, fun k t' ht' => ?_,
    h.finished_op hpre hrun⟩
  obtain ⟨-, ht⟩ | ⟨hk, t, ht, hret⟩ | ⟨socket, m, user, rfl, rfl, hnone, rfl⟩ :=
    Op.times_run h.ids hpre hrun ht'
  · exact h.active k t' ht
  · refine (h.active k t ht).retimes hret ?_ ?_ ?_
    · rintro p rfl
      obtain rfl : k = p.jobid := hk
      rw [times_of_findjob hpre.1, Option.some.injEq] at ht
      rw [← ht]
      exact hcalm
    · rintro socket m user old rfl hdel
      refine hcalm (Op.admits_of_fill h.ids hpre hrun hk ht') fun p hp => ?_
      subst hp
      obtain rfl : k = p.jobid := hk
      have hp : s.findjob p.jobid = some p := by
        have hold := hpre.2.1
        split_ifs at hold
        rw [← hold, findjob_jobid hold]
      rw [times_of_findjob hp, Option.some.injEq] at ht
      rw [← ht] at hdel
      exact (hpre.2.2 p rfl).resolve_left hdel
    · rintro jobid w rfl
      obtain rfl : k = jobid := hk
      obtain ⟨p, hp⟩ := Option.isSome_iff_exists.1 hpre
      rw [times, hp, Option.map_some, Option.some.injEq] at ht
      rw [← ht]
      exact hcalm p hp
  · obtain ⟨hpos, hlt⟩ := hcalm (Op.admits_of_fill h.ids hpre hrun rfl ht') fun p hp => by cases hp
    have hw : ((s.newjobptr m).times.filled e m).wallTime = min e.maxWallTime m.wallTime := by
      refine if_neg fun hdel => ?_
      have hst : (s.newjobptr m).state = .delink := hdel
      rw [newjobptr] at hst
      split_ifs at hst
    exact Times.wallOk_of_nonneg (hw ▸ hpos) (hw ▸ hlt)

theorem relegateFits {p : Job} (h : p.Relegable) : p.RelegateFits := by
  rw [Job.Relegable] at h
  rw [Job.RelegateFits, IsInt64]
  omega

theorem Walls.addFits {jobid n : ℤ} {p : Job} (h : s.Walls) (hn : IsInt64 n)
    (hp : s.findjob jobid = some p) (hzero : n = -2 ^ 63 → p.wallTime ≠ 0) : p.AddFits n := by
  obtain ⟨hlow, hhigh⟩ := hn
  have hfits : (p.wallTime.natAbs : ℤ) < 2 ^ 63 := h.active_fits p (Keyed.mem_of_lookup hp)
  refine ⟨fun hpos => ?_, fun hover => ⟨?_, ?_⟩⟩
  all_goals rw [IsInt64]
  all_goals omega

theorem Walls.fits {p : Job} (h : s.Walls) (hp : p ∈ s.activeJobs ∨ p ∈ s.finishedJobs) :
    p.WallFits := hp.elim (h.active_fits p) (h.finished p)

/-- A calm operation computes nothing that does not fit. -/
theorem Walls.inRange (h : s.Walls) (hcalm : o.Calm e s) : o.InRange s := by
  refine ⟨fun p hp => h.fits hp, ?_⟩
  cases o with
  | relegate p => exact relegateFits hcalm
  | addWtime socket jobid n =>
    exact fun hid p hp => h.addFits (hcalm hid).1 hp ((hcalm hid).2 p hp)
  | _ => trivial

/-! ### Steps -/

/-- An operation that keeps the wall times in order within a step. -/
def Quiet (e : Env) (o : Op) (s : Spool) : Prop :=
  match o with
  | .relegate p => timedOut e p ∨ p.Relegable
  | .runjobOk _ _ _ => False
  | o => o.Calm e s

theorem relegable_of_timedOut {p : Job} (hage : s.AgedAt e.now) (hp : s.findjob p.jobid = some p)
    (h : timedOut e p) : p.Relegable := by
  simp only [timedOut, checkTimeout, decide_eq_true_eq] at h
  obtain ⟨hrun, hpid, hlt, -⟩ := h
  rw [getWorkTimeByJob, if_neg (by simp [hrun]), if_neg (by simp [hrun])] at hlt
  exact hlt.trans ((hage _ _ (times_of_findjob hp)).work hpid)

theorem Quiet.calm (h : Quiet e o s) (hpre : o.Pre e s) (hage : s.AgedAt e.now) :
    o.Calm e s ∧ ¬o.setsPid := by
  cases o with
  | relegate p => exact ⟨h.elim (relegable_of_timedOut hage hpre.1) id, id⟩
  | runjobOk jobid oname pid => exact h.elim
  | _ => exact ⟨h, id⟩

theorem quiet_of_ofUsage (h : o.ofUsage e s) : Quiet e o s := by
  cases o <;> first | exact trivial | exact .inl h | exact h.elim

/-- **The operations of a step** keep the wall times in order and compute nothing that does not
fit. -/
theorem Walls.ops (h : s.Walls) (hage : s.AgedAt e.now) (hops : Ops e (Quiet e) s s') :
    (s'.Walls ∧ s'.AgedAt e.now) ∧ Ops e (fun o s => o.InRange s) s s' :=
  hops.refine (I := fun s => s.Walls ∧ s.AgedAt e.now) ⟨h, hage⟩ fun hI ho hpre hrun => by
    obtain ⟨hcalm, hpid⟩ := ho.calm hpre hI.2
    exact ⟨⟨hI.1.op hcalm hpre hrun, hI.2.op hI.1.ids hpre hrun hpid⟩, hI.1.inRange hcalm⟩

/-- The limit stays as it is, or `n` seconds are added to it. -/
def AddsTo (n w w' : ℤ) : Prop :=
  w' = w ∨ 0 < (w.natAbs : ℤ) + n ∧ (w'.natAbs : ℤ) = w.natAbs + n ∧ (w' < 0 ↔ w < 0)

theorem addsTo_sAddWtime {socket jobid n : ℤ} {p : Job} (hids : s.view.Ids)
    (hp : p ∈ s.activeJobs) : ∃ p' ∈ (s.sAddWtime socket jobid n).activeJobs,
      p'.jobid = p.jobid ∧ AddsTo n p.wallTime p'.wallTime := by
  have hids' := (Op.moves (e := Server.world 0) (o := .addWtime socket jobid n) hids trivial rfl).ids hids
  have ht := times_of_findjob (findjob_of_mem hids hp)
  obtain ht' | ⟨-, hpos, -, ht'⟩ := times_sAddWtime jobid socket n ht
  · obtain ⟨p', hp', hid, heq⟩ := (times_eq_some hids').1 ht'
    exact ⟨p', hp', hid, .inl (congrArg Times.wallTime heq)⟩
  · obtain ⟨p', hp', hid, heq⟩ := (times_eq_some hids').1 ht'
    have hpos' : 0 < (p.wallTime.natAbs : ℤ) + n := hpos
    have hw : p'.wallTime = if p.wallTime < 0 then -((p.wallTime.natAbs : ℤ) + n)
        else p.wallTime.natAbs + n := congrArg Times.wallTime heq
    refine ⟨p', hp', hid, .inr ⟨hpos', ?_, ?_⟩⟩
    all_goals
      rw [hw]
      split_ifs <;> omega

end Spool

namespace Server

variable {e : Env} {s s' s₀ : Server} {C : Config} {i : Input} {o : Op} {sp : Spool} {index : ℕ}

/-- The clock of the machine and the limit of all wall times are possible, and the request is none of
those that break the order of the wall times. -/
def KeepsWall (l : Env × Input) (s : Server) : Prop :=
  let e := l.1
  0 < e.maxWallTime ∧ e.maxWallTime < 2 ^ 63 ∧ (∀ p ∈ s.activeJobs, p.times.Aged e.now) ∧
  match l.2 with
  | .message index (.newjob m) => ∀ sp sp₁,
      (s.timeoutLock e).sCheckLocker e (s.clientCs index).user = (sp, false) →
      sp.sUpdateSlotsUsage e = .ok sp₁ → sp₁.admits (s.clientCs index).user m.numSlots →
      (∀ p, (if m.jobid = 0 then none else sp₁.findjob m.jobid) = some p →
        p.state = .wait ∨ p.state = .locked) → 0 ≤ m.wallTime
  | .message index (.request (.addWtime jobid n)) =>
      (s.clientCs index).user = 0 → jobid ≠ 0 → IsInt64 n ∧
        ∀ p, s.findjob jobid = some p → n = -2 ^ 63 → p.wallTime ≠ 0
  | .message index (.request (.requeueJob jobid)) =>
      ∀ p, s.findjob jobid = some p → s.ownerOrRoot (s.clientCs index).user p →
        p.state = .running ∨ p.state = .pause → p.Relegable
  | .message index (.request (.contJob jobid)) =>
      ∀ sp, (s.timeoutLock e).sUpdateSlotsUsage e = .ok sp → ∀ p, sp.findjob jobid = some p →
        p.state ≠ .queued → p.state ≠ .locked → sp.Marks (s.clientCs index).user p →
        p.state = .pause ∨ p.wallTime = 0
  | .restart => False
  | _ => True

/-- The request is none that writes to a wall time. -/
def sparesWall : Input → Prop
  | .message _ (.newjob _) | .message _ (.runjobOk _ _) | .message _ (.request (.addWtime _ _))
  | .message _ (.request (.requeueJob _)) | .message _ (.request (.contJob _)) => False
  | _ => True

theorem quiet_of_ofAnswer {socket : ℤ} {user : ℕ} {r : Request}
    (hi : sparesWall (.message index (.request r))) (ho : o.ofAnswer e socket user r sp) :
    Spool.Quiet e o sp := by
  cases o with
  | relegate p =>
    cases r <;> first | exact hi.elim | exact ho.elim | exact .inl ho
  | runjobOk jobid oname pid =>
    cases r <;> exact ho.elim
  | addWtime socket jobid n =>
    cases r <;> first | exact hi.elim | exact ho.elim
  | fill socket m user old =>
    cases r <;> exact ho.elim
  | wall jobid w =>
    cases r with
    | holdJob jobid' =>
      obtain ⟨rfl, p, hp, hst, -, rfl⟩ := ho
      intro p' hp'
      rw [hp, Option.some.injEq] at hp'
      subst hp'
      exact ⟨Int.natAbs_natCast _, fun _ => hst⟩
    | _ => first | exact hi.elim | exact ho.elim
  | _ => trivial

theorem quiet_of_performs (hi : sparesWall i) (ho : s.Performs e i o sp) : Spool.Quiet e o sp := by
  cases i with
  | message index m =>
    obtain ho | ho := ho
    · cases o <;> first | exact trivial | exact ho.elim
    cases m with
    | request r =>
      obtain ho | ⟨-, -, rfl⟩ := ho
      · exact quiet_of_ofAnswer hi ho
      · trivial
    | killAll format jobid =>
      obtain ⟨r, rfl⟩ | ho | ⟨socket, rfl⟩ | ⟨k, -, -, ho⟩ | ⟨k, -, -, -, rfl⟩ := ho
      · trivial
      · exact Spool.quiet_of_ofUsage ho
      · trivial
      · cases o <;> first | exact trivial | exact ho.elim
      · trivial
    | endjob r =>
      obtain rfl | rfl | ⟨r', rfl⟩ := ho <;> trivial
    | unknown =>
      obtain ⟨-, ho⟩ | ⟨-, rfl⟩ := ho
      · cases o <;> first | exact trivial | exact ho.elim
      · trivial
    | newjob m => exact hi.elim
    | runjobOk oname pid => exact hi.elim
    | killServer => exact ho.elim
    | reconnect jobid pid => cases o <;> first | exact trivial | exact ho.elim
    | removejob jobid => cases o <;> first | exact trivial | exact ho.elim
  | disconnect index =>
    obtain ⟨-, ho⟩ | ⟨-, rfl⟩ := ho
    · cases o <;> first | exact trivial | exact ho.elim
    · trivial
  | health =>
    obtain ⟨jobid, rfl⟩ := ho
    trivial
  | cleanup =>
    obtain ⟨jobid, p, rfl, -⟩ := ho
    trivial
  | schedule =>
    obtain ho | ⟨p, rfl⟩ := ho
    · exact Spool.quiet_of_ofUsage ho.ofUsage
    · trivial
  | accept socket uid =>
    obtain ⟨r, rfl⟩ := ho
    trivial
  | restart => exact ho.elim

theorem quiet_of_unlocks (ho : o.unlocks e sp) : Spool.Quiet e o sp := by
  cases o <;> first | exact trivial | exact ho.elim

/-- A request begins with the timeout of the lock. -/
theorem quiet_timeoutLock : Ops e (Spool.Quiet e) sp (sp.timeoutLock e) :=
  timeoutLock_ops fun _ _ => quiet_of_unlocks

theorem newjob_quiet {m : NewJob} (hs : s.Sound) (hok : KeepsWall (e, .message index (.newjob m)) s)
    (hen : (index : ℤ) < s.nconnections) (h : s.step e (.message index (.newjob m)) = .ok s') :
    Ops e (Spool.Quiet e) s.toSpool s'.toSpool := by
  obtain ⟨hpos, hlt, -, hsub⟩ := hok
  rw [step, clientRead] at h
  have hs₁ : (s.onSpool fun sp => sp.timeoutLock e).Sound := hs.timeoutLock
  refine quiet_timeoutLock.trans (newjob_ops_of hs₁.ids (hs₁.users index hen)
    (fun _ _ => quiet_of_unlocks) (fun _ _ => trivial) (fun _ _ _ _ _ => trivial)
    (fun _ => trivial) (fun sp sp' id hlock hids huser hnew => ?_) h)
  refine sNewjob_ops_of hids huser (fun _ _ => Spool.quiet_of_ofUsage) (fun _ _ => trivial) ?_ hnew
  intro sp₁ husage old hold hadm hfree
  have hw : 0 ≤ m.wallTime := hsub sp sp₁ hlock husage hadm fun p hp => hfree p (hold ▸ hp)
  exact ⟨le_min hpos.le hw, (min_le_left _ _).trans_lt hlt⟩

theorem request_quiet {r : Request}
    (hans : ∀ sp, (s.timeoutLock e).answer e (s.clientCs index).socket (s.clientCs index).user r =
      .ok sp → Ops e (Spool.Quiet e) (s.timeoutLock e) sp)
    (h : s.step e (.message index (.request r)) = .ok s') :
    Ops e (Spool.Quiet e) s.toSpool s'.toSpool := by
  rw [step, clientRead] at h
  exact quiet_timeoutLock.trans (handleRequest_ops_of (fun _ _ _ => trivial) hans h)

theorem quiet_ops (hs : s.Sound) (hok : KeepsWall (e, i) s) (hen : s.Enabled i)
    (hi : ∀ index oname pid, i ≠ .message index (.runjobOk oname pid)) (h : s.step e i = .ok s') :
    Ops e (Spool.Quiet e) s.toSpool s'.toSpool := by
  have hq : (s.timeoutLock e).toQueue = s.toQueue := toQueue_timeoutLock
  have hids : (s.timeoutLock e).view.Ids := hs.timeoutLock.ids
  by_cases hspare : sparesWall i
  · refine (step_ops hs hen ?_ h).mono fun o sp => quiet_of_performs hspare
    rintro rfl
    exact hok.2.2.2
  cases i with
  | message index m =>
    cases m with
    | newjob m => exact newjob_quiet hs hok hen h
    | runjobOk oname pid => exact absurd rfl (hi index oname pid)
    | request r =>
      cases r with
      | addWtime jobid n =>
        refine request_quiet (fun sp hsp => ?_) h
        cases hsp
        split_ifs with hroot
        · refine .single (.addWtime _ jobid n) trivial (fun hid => ?_) rfl
          obtain ⟨hint, hmin⟩ := hok.2.2.2 hroot hid
          exact ⟨hint, by rwa [hq]⟩
        · exact .refl
      | requeueJob jobid =>
        refine request_quiet (fun sp hsp => ?_) h
        cases hsp
        refine Spool.sRequeueJob_ops_of hids (fun p hp hown hst => .inr ?_) (fun _ => trivial)
          fun _ _ => trivial
        rw [hq] at hp
        refine hok.2.2.2 p hp ?_ hst
        unfold Spool.ownerOrRoot at hown ⊢
        rwa [hq] at hown
      | contJob jobid =>
        refine request_quiet (fun sp hsp => ?_) h
        refine Spool.sContJob_ops_of hids (fun _ _ => Spool.quiet_of_ofUsage) (fun _ _ => trivial)
          (fun _ _ _ _ => trivial) (fun sp₁ husage p hp hnq hnl => ?_) hsp
        have hp' := Spool.findjob_jobid hp
        subst hp'
        refine Spool.contStarted_ops_of hp hnq hnl (fun _ _ => trivial) trivial
          (fun _ _ => trivial) (fun _ _ => trivial) fun hmark p' hp' => ?_
        rw [Spool.findjob_absWall hp, Option.some.injEq] at hp'
        subst hp'
        have hst := hok.2.2.2 sp₁ husage p hp hnq hnl hmark
        simp only [Job.setWallTime, Int.natAbs_neg, Int.natAbs_natCast, true_and]
        intro hneg
        refine hst.resolve_right ?_
        omega
      | _ => exact absurd trivial hspare
    | _ => exact absurd trivial hspare
  | _ => exact absurd trivial hspare

theorem agedAt_of_forall (hs : s.Sound) (h : ∀ p ∈ s.activeJobs, p.times.Aged e.now) :
    s.toSpool.AgedAt e.now := by
  intro k t ht
  obtain ⟨p, hp, -, rfl⟩ := (Spool.times_eq_some hs.ids).1 ht
  exact h p hp

/-- **A step keeps the wall times in order** and computes nothing that does not fit. -/
theorem walls_step (hs : s.Sound) (hw : s.toSpool.Walls) (hok : KeepsWall (e, i) s)
    (h : Step C s (e, i) s') :
    s'.toSpool.Walls ∧ Ops e (fun o sp => o.InRange sp) s.toSpool s'.toSpool := by
  obtain ⟨-, hen, hst⟩ := h
  by_cases hi : ∃ index oname pid, i = .message index (.runjobOk oname pid)
  · -- the operation with which a job gets older does not write to a wall time
    obtain ⟨index, oname, pid, rfl⟩ := hi
    have hi : Input.message index (.runjobOk oname pid) ≠ .restart := by simp
    obtain ⟨hend, hrange⟩ : s'.toSpool.Walls ∧ Ops e (fun o sp => o.InRange sp) s.toSpool s'.toSpool :=
      (step_ops hs hen hi hst).refine (I := Spool.Walls) hw fun {sp sp' o} hI ho hpre hrun => by
        have hcalm : o.Calm e sp := by
          obtain ho | rfl := ho
          · cases o <;> first | exact trivial | exact ho.elim
          · trivial
        exact ⟨hI.op hcalm hpre hrun, hI.inRange hcalm⟩
    exact ⟨hend, hrange⟩
  · have hquiet := quiet_ops hs hok hen (fun index oname pid heq => hi ⟨index, oname, pid, heq⟩) hst
    obtain ⟨⟨hend, -⟩, hrange⟩ := hw.ops (agedAt_of_forall hs hok.2.2.1) hquiet
    exact ⟨hend, hrange⟩

/-- **What a step computes of wall times fits.**  A step goes through states that are reached by quiet
operations (`quiet_ops`): there all wall times fit, and another day fits on the limit of every job that
`s_check_timeout` relegates.  So do the sums of the step's own `REQUEUE` or `ADD_WTIME`. -/
structure SumsFit (l : Env × Input) (s : Server) : Prop where
  times : ∀ sp, Ops l.1 (Spool.Quiet l.1) s.toSpool sp →
    ∀ p, p ∈ sp.activeJobs ∨ p ∈ sp.finishedJobs → p.WallFits
  timeouts : ∀ sp, Ops l.1 (Spool.Quiet l.1) s.toSpool sp →
    ∀ p ∈ sp.activeJobs, Spool.timedOut l.1 p → p.RelegateFits
  requeue : ∀ (index : ℕ) (jobid : ℤ), l.2 = .message index (.request (.requeueJob jobid)) →
    ∀ p, s.findjob jobid = some p → s.ownerOrRoot (s.clientCs index).user p →
      p.state = .running ∨ p.state = .pause → p.RelegateFits
  addWtime : ∀ (index : ℕ) (jobid n : ℤ), l.2 = .message index (.request (.addWtime jobid n)) →
    (s.clientCs index).user = 0 → jobid ≠ 0 → ∀ p, s.findjob jobid = some p → p.AddFits n

theorem sumsFit {l : Env × Input} (hs : s.Sound) (hw : s.toSpool.Walls) (hok : KeepsWall l s) :
    SumsFit l s := by
  obtain ⟨e, i⟩ := l
  have hage := agedAt_of_forall hs hok.2.2.1
  refine ⟨fun sp hops p hp => (hw.ops hage hops).1.1.fits hp, fun sp hops p hp hto => ?_, ?_, ?_⟩
  · obtain ⟨⟨hwalls, haged⟩, -⟩ := hw.ops hage hops
    exact Spool.relegateFits
      (Spool.relegable_of_timedOut haged (Spool.findjob_of_mem hwalls.ids hp) hto)
  · rintro index jobid heq p hp howner hst
    cases heq
    exact Spool.relegateFits (hok.2.2.2 p hp howner hst)
  · rintro index jobid n heq hroot hid p hp
    cases heq
    obtain ⟨hn, hzero⟩ := hok.2.2.2 hroot hid
    exact hw.addFits hn hp (hzero p hp)

theorem Fresh.walls (h : s.Fresh) : s.toSpool.Walls := by
  refine ⟨h.sound.ids, h.settled, fun k t ht => ?_, fun p hp => ?_⟩
  · obtain ⟨p, hp, -⟩ := (Spool.times_eq_some h.sound.ids).1 ht
    rw [h.activeJobs] at hp
    exact absurd hp List.not_mem_nil
  · rw [h.finishedJobs] at hp
    exact absurd hp List.not_mem_nil

/-- **Wall times stay within 64 bits, and their sign marks the jobs that wait for another turn**, in
every run whose requests keep them in order.  `ADD_WTIME` adds what it says or nothing. -/
theorem wall_times_in_range (h₀ : s₀.Fresh) (h : Run (Step C) KeepsWall s₀ s) :
    (∀ p ∈ s.activeJobs, p.wallTime < 0 → p.state = .pause) ∧
    (∀ l s', KeepsWall l s → Step C s l s' →
      Ops l.1 (fun o sp => o.InRange sp) s.toSpool s'.toSpool ∧ SumsFit l s) ∧
    ∀ socket jobid n, ∀ p ∈ s.activeJobs, ∃ p' ∈ (s.sAddWtime socket jobid n).activeJobs,
      p'.jobid = p.jobid ∧ Spool.AddsTo n p.wallTime p'.wallTime := by
  obtain ⟨hs, hw⟩ := h.invariant (I := fun s => s.Sound ∧ s.toSpool.Walls)
    ⟨h₀.sound, h₀.walls⟩ fun {s s' l} hI hok hst =>
      ⟨hst.sound hI.1, (walls_step hI.1 hI.2 hok hst).1⟩
  refine ⟨fun p hp hneg => ?_, fun l s' hok hst => ⟨(walls_step hs hw hok hst).2, sumsFit hs hw hok⟩,
    fun socket jobid n p hp => Spool.addsTo_sAddWtime hs.ids hp⟩
  exact (hw.active _ _ (Spool.times_of_findjob (Spool.findjob_of_mem hs.ids hp))).sign hneg

/-- A choice of requests that keeps the wall times in order and is easy to test. -/
def mildInput (l : Env × Input) (s : Server) : Prop :=
  (decide (0 < l.1.maxWallTime ∧ l.1.maxWallTime < 2 ^ 63) &&
    s.activeJobs.all (fun p => p.times.Aged l.1.now) &&
    match l.2 with
    | .message _ (.newjob m) => decide (0 ≤ m.wallTime)
    | .message _ (.request (.addWtime _ n)) => decide (IsInt64 n ∧ n ≠ -2 ^ 63)
    | .message _ (.request (.requeueJob _)) => s.activeJobs.all fun p => p.Relegable
    | .message _ (.request (.contJob _)) | .restart => false
    | _ => true) = true

instance : ∀ l s, Decidable (mildInput l s) := fun _ _ => inferInstanceAs (Decidable (_ = true))

theorem keepsWall_of_mild {l : Env × Input} (h : mildInput l s) : KeepsWall l s := by
  obtain ⟨e, i⟩ := l
  rw [mildInput, Bool.and_eq_true, Bool.and_eq_true, decide_eq_true_eq, List.all_eq_true] at h
  obtain ⟨⟨hmax, hage⟩, hi⟩ := h
  refine ⟨hmax.1, hmax.2, fun p hp => of_decide_eq_true (hage p hp), ?_⟩
  cases i with
  | message index m =>
    cases m with
    | newjob m => exact fun _ _ _ _ _ _ => of_decide_eq_true hi
    | request r =>
      cases r with
      | addWtime jobid n =>
        obtain ⟨hint, hmin⟩ := of_decide_eq_true hi
        exact fun _ _ => ⟨hint, fun _ _ hn => absurd hn hmin⟩
      | requeueJob jobid =>
        exact fun p hp _ _ => of_decide_eq_true (List.all_eq_true.1 hi p (Keyed.mem_of_lookup hp))
      | contJob jobid => cases hi
      | _ => trivial
    | _ => trivial
  | restart => cases hi
  | _ => trivial

/-- A job runs, and its owner requeues it: the day is added, and the sign says that it waits. -/
theorem requeued_job_in_range : ∃ s : Server, s.activeJobs.map Job.wallTime = [-90000] ∧
    (∀ p ∈ s.activeJobs, p.wallTime < 0 → p.state = .pause) ∧
    (∀ l s', KeepsWall l s → Step plainConfig s l s' →
      Ops l.1 (fun o sp => o.InRange sp) s.toSpool s'.toSpool ∧ SumsFit l s) ∧
    ∀ socket jobid n, ∀ p ∈ s.activeJobs, ∃ p' ∈ (s.sAddWtime socket jobid n).activeJobs,
      p'.jobid = p.jobid ∧ Spool.AddsTo n p.wallTime p'.wallTime := by
  obtain ⟨s, hr, hP⟩ := exists_run plainConfig mildInput started
    (fun s => s.activeJobs.map Job.wallTime = [-90000])
    [(world 1, .accept 5 1000), (world 2, .message 0 (.newjob { wallTime := 3600 })),
      (world 3, .schedule), (world 4, .message 0 (.runjobOk none 100)), (world 5, .accept 6 1000),
      (world 6, .message 1 (.request (.requeueJob 1000)))]
    (by simp [world]) (by decide +kernel)
  exact ⟨s, of_decide_eq_true hP, wall_times_in_range fresh_started
    (hr.mono fun l s h => keepsWall_of_mild h)⟩

/-- A submission with the limit `-5` leaves a queued job with a negative wall time. -/
theorem negative_limit_kept : ¬∀ (C : Config) (s₀ s : Server), s₀.Fresh →
    Run (Step C) anyInput s₀ s → ∀ p ∈ s.activeJobs, p.wallTime < 0 → p.state = .pause := by
  intro hall
  obtain ⟨s, hr, hP⟩ := exists_run plainConfig anyInput started
    (fun s => ∃ p ∈ s.activeJobs, p.wallTime < 0 ∧ p.state ≠ .pause)
    [(world 1, .accept 5 1000), (world 2, .message 0 (.newjob { wallTime := -5 }))]
    (by simp [world]) (by decide +kernel)
  obtain ⟨p, hp, hneg, hst⟩ := of_decide_eq_true hP
  exact hst (hall _ _ _ fresh_started hr p hp hneg)

end Server

end TaskSpooler
