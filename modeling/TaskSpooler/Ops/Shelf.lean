import TaskSpooler.Ops.Aside
import TaskSpooler.Sched.Waiters

/-!
# The shelf of the finished jobs

The list of the finished jobs by their ids, with the mark that a job is to be kept (`Queue.shelf`).

* `Op.shelf_run`: only the end of a job, the removal of a job, `s_clear_finished` and
  `check_notify_list` change it.
* `Spool.ending_spec`: what the end of a job does, together with the `check_notify_list` that
  follows.
-/

namespace TaskSpooler

open Waiting

/-! ### Lists that drop their oldest -/

section RollsOn

variable {α : Type*} {max : ℕ} {l l' l'' : List α} {x : α}

/-- Elements are added behind, and while the list is full the oldest ones may go. -/
def RollsOn (max : ℕ) (l l' : List α) : Prop :=
  ∃ t new, t <:+ l ∧ l' = t ++ new ∧ (t = l ∨ max ≤ l'.length + 1)

theorem RollsOn.refl : RollsOn max l l := ⟨l, [], List.suffix_refl l, (List.append_nil l).symm, .inl rfl⟩

theorem RollsOn.of_eq (h : l' = l) : RollsOn max l l' := h ▸ .refl

theorem RollsOn.trans (h : RollsOn max l l') (h' : RollsOn max l' l'') : RollsOn max l l'' := by
  obtain ⟨t, new, ht, rfl, hfull⟩ := h
  obtain ⟨t', new', ht', rfl, hfull'⟩ := h'
  obtain rfl | hfull' := hfull'
  · refine ⟨t, new ++ new', ht, List.append_assoc .., hfull.imp id fun hfull => ?_⟩
    rw [List.length_append]
    omega
  · -- what is left of the first list is what is left of its end
    refine ⟨t'.take (t'.length - new.length), t'.drop (t'.length - new.length) ++ new', ?_, ?_,
      .inr hfull'⟩
    · obtain ⟨d, hd⟩ := ht'
      have hlen := congrArg List.length hd
      rw [List.length_append, List.length_append] at hlen
      refine List.IsSuffix.trans ?_ ht
      by_cases hle : new.length ≤ t'.length
      · refine ⟨d, ?_⟩
        have htake := congrArg (List.take t.length) hd
        rw [List.take_left] at htake
        rw [List.take_append, List.take_of_length_le (by omega : d.length ≤ t.length)] at htake
        rw [← htake]
        congr 2
        omega
      · rw [Nat.sub_eq_zero_of_le (by omega), List.take_zero]
        exact List.nil_suffix
    · rw [← List.append_assoc, List.take_append_drop]

theorem RollsOn.subset (h : RollsOn max l l') (hx : x ∈ l) : x ∈ l' ∨ max ≤ l'.length + 1 := by
  obtain ⟨t, new, -, rfl, rfl | hfull⟩ := h
  · exact .inl (List.mem_append_left new hx)
  · exact .inr hfull

end RollsOn

/-! ### The shelf -/

/-- The id of a job, and whether the job is to be kept when it is over. -/
def Job.tag (p : Job) : ℤ × Bool := (p.jobid, p.shouldKeepFinished)

theorem Job.tag_of_plain {p p' : Job} (h : p.plain = p'.plain) : p.tag = p'.tag := by
  have htag := congrArg Job.tag h
  exact htag

/-- The finished jobs, oldest first. -/
def Queue.shelf (q : Queue) : List (ℤ × Bool) := q.finishedJobs.map Job.tag

theorem Queue.tags_of_plain {l l' : List Job} (h : l.map Job.plain = l'.map Job.plain) :
    l.map Job.tag = l'.map Job.tag := by
  have htags : ∀ l : List Job, l.map Job.tag = (l.map Job.plain).map Job.tag := fun l => by
    rw [List.map_map]
    rfl
  rw [htags, h, ← htags]

theorem Spool.view_shelf {s : Spool} : s.view.shelf = s.shelf := by
  show (s.finishedJobs.map Job.strip).map Job.tag = s.finishedJobs.map Job.tag
  rw [List.map_map]
  rfl

namespace Act

variable {v : View} {a : Act}

/-- The move puts a job on the shelf or takes jobs from it. -/
def Shelves : Act → Prop
  | finish .. | drop _ (some _) | forget _ => True
  | _ => False

theorem shelf_apply (ha : ¬a.Shelves) : (a.apply v).shelf = v.shelf := by
  refine (Queue.tags_of_plain finished_apply).trans ?_
  cases a with
  | finish r p p' max | forget l => exact absurd trivial ha
  | drop p x =>
    cases x with
    | none => rfl
    | some x => exact absurd trivial ha
  | goneFinished p => exact Keyed.map_modifyFirst fun _ _ _ => rfl
  | reconnect p st socket =>
    simp only [finished]
    split_ifs
    · rfl
    · exact Keyed.map_modifyFirst fun _ _ _ => rfl
  | _ => rfl

end Act

namespace Op

variable {e : Env} {s s' : Spool} {o : Op}

/-- The operation puts a job on the shelf or takes jobs from it. -/
def Shelves : Op → Prop
  | finish .. | notify _ | removeActive _ | removeFinished _ | clear _ => True
  | _ => False

theorem Makes.not_shelves {a : Act} (h : o.Makes a) (ho : ¬o.Shelves) : ¬a.Shelves := by
  intro ha
  cases o with
  | finish r jobid | notify jobid | removeActive p | removeFinished p | clear user => exact ho trivial
  | fill socket m user old =>
    obtain ⟨next, id, h⟩ := h
    cases a with
    | drop p x =>
      obtain ⟨-, -, -, rfl⟩ := h
      exact ha
    | finish r p p' max | forget l => exact h
    | _ => exact ha
  | _ =>
    cases a with
    | finish r p p' max | forget l => exact h
    | drop p x => exact h
    | _ => exact ha

/-- **The other operations leave the shelf alone.** -/
theorem shelf_run (hids : s.view.Ids) (hpre : o.Pre e s) (h : o.run e s = .ok s')
    (ho : ¬o.Shelves) : s'.shelf = s.shelf := by
  have hshelf : s'.view.shelf = s.view.shelf := (moves hids hpre h).invariant
    (I := fun v => v.shelf = s.view.shelf) rfl
    fun hI ha _ => (Act.shelf_apply (ha.not_shelves ho)).trans hI
  rwa [Spool.view_shelf, Spool.view_shelf] at hshelf

end Op

theorem Ops.shelf {e : Env} {ok : Op → Spool → Prop} {s s' : Spool} (h : Ops e ok s s')
    (hids : s.view.Ids) (hok : ∀ o s, ok o s → ¬o.Shelves) : s'.shelf = s.shelf :=
  (h.invariant (I := fun s₁ => s₁.view.Ids ∧ s₁.shelf = s.shelf) ⟨hids, rfl⟩
    fun hI ho hpre hr => ⟨(Op.moves hI.1 hpre hr).ids hI.1,
      (Op.shelf_run hI.1 hpre hr (hok _ _ ho)).trans hI.2⟩).2

/-! ### The end of a job -/

theorem rollsOn_kept {max : ℕ} {l : List Job} (new : List (ℤ × Bool)) :
    RollsOn max (l.map Job.tag) ((Queue.kept max l).map Job.tag ++ new) := by
  refine ⟨(Queue.kept max l).map Job.tag, new, List.IsSuffix.map _ ?_, rfl, ?_⟩
  · rw [Queue.kept]
    split_ifs
    · exact List.tail_suffix l
    · exact List.suffix_refl l
  · rw [List.length_append, List.length_map, Queue.kept]
    split_ifs with hfull
    · right
      rw [List.length_tail]
      omega
    · exact .inl rfl

namespace Spool

variable {e : Env} {s s₁ s₂ : Spool} {r : Result} {k : ℤ} {p : Job}

theorem aside_newFinishedJob :
    (s.newFinishedJob e p).aside = (s.onQueue fun q => q.pushFinished e.maxFinished p).aside := by
  rw [newFinishedJob, aside_defrag, aside_freeAlloc, aside_cgroupsCleanJob, aside_insertFinishedDb]

theorem finishedJobs_newFinishedJob :
    (s.newFinishedJob e p).finishedJobs = (s.pushFinished e.maxFinished p).finishedJobs :=
  finishedJobs_of_aside aside_newFinishedJob

theorem notifies_jobFinished (h : s.jobFinished e r k = .ok s₁) : s₁.notifies = s.notifies := by
  rw [jobFinished] at h
  split_ifs at h
  split at h
  · cases h
  · dsimp only at h
    split at h
    · cases h
    · cases h
      exact (notifies_of_aside aside_newFinishedJob).trans rfl

/-- What `job_finished` does to the job `p`: its record `x` is put behind the finished jobs `l`, and
the other jobs stay active. -/
structure EndOf (e : Env) (s s₁ : Spool) (p : Job) (l : List Job) (x : Job) : Prop where
  findjob : s.findjob p.jobid = some p
  finishedJobs : s₁.finishedJobs = l ++ [x]
  older : l.map Job.tag = (Queue.kept e.maxFinished s.finishedJobs).map Job.tag
  tag : x.tag = p.tag
  isOver : x.Over
  active : ∀ q' ∈ s₁.activeJobs, ∃ q ∈ s.activeJobs, q.plain = q'.plain ∧ q.jobid ≠ p.jobid
  notifies : s₁.notifies = s.notifies

theorem endOf_jobFinished (hids : s.view.Ids) (h : s.jobFinished e r k = .ok s₁) :
    ∃ p l x, p.jobid = k ∧ EndOf e s s₁ p l x := by
  obtain ⟨p, p', hp, -, hg, hv⟩ := jobFinished_spec h
  obtain rfl := findjob_jobid hp
  have hfin : s₁.view.finishedJobs.map Job.plain =
      (Queue.kept e.maxFinished s.view.finishedJobs ++ [p']).map Job.plain := by
    rw [hv]
    exact Act.finished_apply
  have hplain : ∀ l : List Job, (l.map Job.strip).map Job.plain = l.map Job.plain := fun l => by
    rw [List.map_map]
    rfl
  have hview : ∀ s : Spool, s.view.finishedJobs = s.finishedJobs.map Job.strip := fun _ => rfl
  rw [hview, hview, hplain, List.map_append, ← Queue.map_kept, hplain] at hfin
  obtain ⟨l, m, hl, hkept, hm⟩ := List.map_eq_append_iff.1 hfin
  obtain ⟨x, rfl, hx⟩ := List.map_eq_singleton_iff.1 hm
  have hpx : x.plain = (p.freed.done r).plain := hx.trans (Act.plain_finish hids hg)
  refine ⟨p, l, x, rfl, hp, hl, Queue.tags_of_plain hkept, (Job.tag_of_plain hpx).trans rfl, ?_,
    fun q' hq' => ?_, notifies_jobFinished h⟩
  · rw [← plainFn_over, hpx, plainFn_over]
    exact Job.over_done r _
  · have hperm : (p.plain :: s₁.view.plain).Perm s.view.plain := hv ▸ Act.perm_apply hids hg
    have hids' : ((p.plain :: s₁.view.plain).map Job.jobid).Nodup := by
      rw [(hperm.map Job.jobid).nodup_iff]
      exact (List.map_map ..).symm ▸ hids.nodup
    have hmem : q'.plain ∈ s₁.view.plain := List.mem_map.2 ⟨q'.strip, List.mem_map_of_mem hq', rfl⟩
    obtain ⟨y, hy, hyq⟩ := List.mem_map.1 (hperm.subset (List.mem_cons_of_mem _ hmem))
    obtain ⟨q, hq, rfl⟩ := List.mem_map.1 hy
    refine ⟨q, hq, hyq, fun heq => ?_⟩
    rw [List.map_cons, List.nodup_cons] at hids'
    have hid : q.jobid = q'.jobid := Job.jobid_of_plain hyq
    exact hids'.1 (List.mem_map.2 ⟨_, hmem, (hid.symm.trans heq : q'.jobid = _)⟩)

namespace EndOf

variable {l : List Job} {x : Job}

theorem jobid (h : EndOf e s s₁ p l x) : x.jobid = p.jobid := congrArg Prod.fst h.tag

theorem keep (h : EndOf e s s₁ p l x) : x.shouldKeepFinished = p.shouldKeepFinished :=
  congrArg Prod.snd h.tag

theorem mem_shelf (h : EndOf e s s₁ p l x) {j : Job} (hj : j ∈ l) : j.tag ∈ s.shelf :=
  ((Queue.kept_sublist _ _).map Job.tag).subset (h.older ▸ List.mem_map_of_mem hj)

theorem shelf (h : EndOf e s s₁ p l x) :
    s₁.shelf = (Queue.kept e.maxFinished s.finishedJobs).map Job.tag ++ [x.tag] := by
  rw [Queue.shelf, h.finishedJobs, List.map_append, h.older, List.map_singleton]

theorem getJob (h : EndOf e s s₁ p l x) : s₁.getJob p.jobid = s₁.findFinishedJob p.jobid := by
  have hnone : s₁.findjob p.jobid = none := Keyed.lookup_eq_none.2 fun q' hq' heq => by
    obtain ⟨q, -, hplain, hne⟩ := h.active q' hq'
    exact hne ((Job.jobid_of_plain hplain).trans heq)
  rw [Queue.getJob, hnone, Option.none_or]

end EndOf

theorem checkNotifyList_of_not_over {j : Job} (hget : s.getJob k = some j) (hover : ¬j.Over) :
    s.checkNotifyList k = .ok s := by
  rw [checkNotifyList]
  induction s.notifies.filter (fun n => n.2 = k) with
  | nil => rfl
  | cons n l ih =>
    have hover' : ¬(j.state = .finished ∨ j.state = .skipped) := hover
    rw [List.foldlM_cons, notifyWaiter, hget]
    simp only [if_neg hover']
    exact ih

/-- The clients that wait for the job have been told, if there are any. -/
def Told (s s₂ : Spool) (k : ℤ) : Prop :=
  s₂.notifies = s.notifies ∨ s₂.notifies = served k s.notifies

/-- A job that is to be kept stays on the shelf. -/
theorem EndOf.stays {l : List Job} {x : Job} (h : EndOf e s s₁ p l x)
    (hkept : ∀ y ∈ s.shelf, y.2 = true) (hkeep : p.shouldKeepFinished = true)
    (h₂ : s₁.checkNotifyList p.jobid = .ok s₂) :
    s₂.toQueue = s₁.toQueue ∧ Told s s₂ p.jobid := by
  have hmem : p.jobid ∈ s₁.finishedJobs.map Job.jobid := by
    rw [h.finishedJobs, List.map_append, List.mem_append]
    exact .inr (List.mem_singleton.2 h.jobid.symm)
  obtain ⟨j, hj⟩ := Option.isSome_iff_exists.1 (Keyed.isSome_lookup.2 hmem)
  have hjid : j.jobid = p.jobid := Keyed.key_of_lookup hj
  have hget : s₁.getJob p.jobid = some j := h.getJob.trans hj
  -- it may be an older job with the same id that the clients are told of
  have hjkeep : j.shouldKeepFinished = true := by
    have hj' := Keyed.mem_of_lookup hj
    rw [h.finishedJobs, List.mem_append, List.mem_singleton] at hj'
    obtain hj' | rfl := hj'
    · exact hkept _ (h.mem_shelf hj')
    · exact h.keep.trans hkeep
  by_cases hover : j.Over
  · have heq := checkNotifyList_eq (hjid.symm ▸ hget) hover
    rw [if_neg (by simp [hjkeep]), hjid, h₂] at heq
    cases heq
    exact ⟨toQueue_tell, .inr (by rw [notifies_toldOf, hjid, h.notifies])⟩
  · rw [checkNotifyList_of_not_over hget hover] at h₂
    cases h₂
    exact ⟨rfl, .inl h.notifies⟩

/-- A job that is not to be kept leaves the shelf, if nobody else has its id and all who wait for it
are told. -/
theorem EndOf.leaves {l : List Job} {x : Job} (h : EndOf e s s₁ p l x)
    (hfree : p.jobid ∉ s.shelf.map Prod.fst) (hserves : s.ServesAll p.jobid)
    (hdrop : p.shouldKeepFinished = false) (h₂ : s₁.checkNotifyList p.jobid = .ok s₂) :
    s₂.activeJobs = s₁.activeJobs ∧ Told s s₂ p.jobid ∧
      s₂.shelf = (Queue.kept e.maxFinished s.finishedJobs).map Job.tag := by
  have hnot : ∀ j ∈ l, ¬j.jobid = p.jobid := fun j hj heq =>
    hfree (heq ▸ List.mem_map_of_mem (f := Prod.fst) (h.mem_shelf hj))
  have hlookup : s₁.findFinishedJob p.jobid = some x := by
    rw [Queue.findFinishedJob, h.finishedJobs, Keyed.lookup, List.find?_append,
      List.find?_eq_none.2 (by simpa using hnot), Option.none_or]
    simp [h.jobid]
  have hget : s₁.getJob x.jobid = some x := by
    rw [h.jobid]
    exact h.getJob.trans hlookup
  have hserves₁ : s₁.ServesAll x.jobid := by
    rw [ServesAll, h.notifies, h.jobid]
    exact hserves
  have heq := checkNotifyList_eq hget h.isOver
  have htold : (s₁.toldOf x).findFinishedJob p.jobid = some x := by
    rw [toldOf, toQueue_tell, hlookup]
  rw [if_pos ⟨hserves₁, h.keep.trans hdrop⟩, h.jobid, h₂, destroyFinishedJob, htold] at heq
  cases heq
  refine ⟨?_, .inr ?_, ?_⟩
  · show (s₁.toldOf x).activeJobs = _
    rw [toldOf, toQueue_tell]
  · show (s₁.toldOf x).notifies = _
    rw [notifies_toldOf, h.jobid, h.notifies]
  · show (Keyed.remove Job.jobid p.jobid (s₁.toldOf x).finishedJobs).map Job.tag = _
    rw [toldOf, toQueue_tell, h.finishedJobs, Keyed.remove,
      List.eraseP_append_right _ (by simpa using hnot), List.eraseP_cons_of_pos (by simp [h.jobid]),
      List.append_nil, h.older]

/-- **A job that ends**, with the `check_notify_list` that follows: it stays on the shelf exactly if it
is to be kept, provided that otherwise somebody waits for it and all who do are told. -/
theorem ending_spec (hids : s.view.Ids) (hkept : ∀ y ∈ s.shelf, y.2 = true)
    (hwait : ∀ p, s.findjob k = some p → p.shouldKeepFinished = false →
      k ∉ s.shelf.map Prod.fst ∧ s.ServesAll k)
    (h₁ : s.jobFinished e r k = .ok s₁) (h₂ : s₁.checkNotifyList k = .ok s₂) :
    (∀ q' ∈ s₂.activeJobs, ∃ q ∈ s.activeJobs, q.plain = q'.plain ∧ q.jobid ≠ k) ∧ Told s s₂ k ∧
      ∃ new, s₂.shelf = (Queue.kept e.maxFinished s.finishedJobs).map Job.tag ++ new ∧
        ∀ y ∈ new, y = (k, true) := by
  obtain ⟨p, l, x, rfl, h⟩ := endOf_jobFinished hids h₁
  by_cases hkeep : p.shouldKeepFinished = true
  · obtain ⟨hq, htold⟩ := h.stays hkept hkeep h₂
    refine ⟨hq ▸ h.active, htold, [x.tag], hq ▸ h.shelf, fun y hy => ?_⟩
    rw [List.mem_singleton.1 hy, ← hkeep]
    exact h.tag
  · rw [Bool.not_eq_true] at hkeep
    obtain ⟨hfree, hserves⟩ := hwait p h.findjob hkeep
    obtain ⟨hactive, htold, hshelf⟩ := h.leaves hfree hserves hkeep h₂
    exact ⟨hactive ▸ h.active, htold, [], hshelf.trans (List.append_nil _).symm, by simp⟩

end Spool

end TaskSpooler
