import TaskSpooler.Sched.Slots

/-!
# The finished jobs

What the moves do to the list of finished jobs.  Only the end of a job and the removal of one that
had a process add a record to it (`Act.finished_apply`), and the record has the state `FINISHED` or
`SKIPPED`: `View.Settled` is kept by every move.
-/

namespace TaskSpooler

namespace Queue

variable {q : Queue} {jobid : ℤ} {p : Job} {r : Result}

/-- The finished jobs that are left when another one comes. -/
def kept (max : ℕ) (l : List Job) : List Job := if max ≤ l.length then l.tail else l

theorem kept_sublist (max : ℕ) (l : List Job) : (kept max l).Sublist l := by
  rw [kept]
  split_ifs
  · exact List.tail_sublist l
  · exact .refl l

theorem map_kept {f : Job → Job} (max : ℕ) (l : List Job) : (kept max l).map f = kept max (l.map f) := by
  rw [kept, kept, List.length_map]
  split_ifs
  · exact List.map_tail
  · rfl

theorem map_finished_notifyErrorlevel {β : Type*} {g : Job → β}
    (hg : ∀ n x, g (Job.addErrorlevel n x) = g x) :
    (q.notifyErrorlevel p).finishedJobs.map g = q.finishedJobs.map g := by
  have hfold : ∀ (l : List ℤ) (q : Queue),
      (l.foldl (fun q jobid =>
        q.modAnyJob jobid (Job.addErrorlevel p.result.errorlevel)) q).finishedJobs.map g =
          q.finishedJobs.map g := by
    intro l
    induction l with
    | nil => exact fun q => rfl
    | cons jobid l ih =>
      intro q
      rw [List.foldl_cons, ih, modAnyJob]
      split_ifs
      · rfl
      · exact Keyed.map_modifyFirst fun x _ _ => hg _ x
  exact hfold _ _

theorem finished_notifyErrorlevel :
    (q.notifyErrorlevel p).finishedJobs.map Job.plain = q.finishedJobs.map Job.plain :=
  map_finished_notifyErrorlevel fun _ _ => rfl

theorem finishedJobs_freeCores : (q.freeCores p).finishedJobs = q.finishedJobs := by
  rw [freeCores]
  split_ifs
  · rfl
  · cases p.user <;> rfl

theorem finishedJobs_start : (q.start p).finishedJobs = q.finishedJobs := by
  rw [start]
  cases p.user <;> rfl

theorem finishedJobs_modUser {u : Option ℕ} {f : User → User} :
    (q.modUser u f).finishedJobs = q.finishedJobs := by
  cases u <;> rfl

theorem finished_finish :
    (q.finish r p).finishedJobs.map Job.plain = q.finishedJobs.map Job.plain := by
  refine finished_notifyErrorlevel.trans ?_
  show (q.freeCores p).finishedJobs.map Job.plain = _
  rw [finishedJobs_freeCores]

end Queue

namespace Act

variable {v : View} {a : Act}

/-- The finished jobs after a move. -/
def finished (v : View) : Act → List Job
  | finish _ _ p' max => Queue.kept max v.finishedJobs ++ [p']
  | drop _ (some (max, p')) => Queue.kept max v.finishedJobs ++ [p']
  | goneFinished p => Keyed.modifyFirst Job.jobid p.jobid Job.gone v.finishedJobs
  | forget l => l
  | reconnect p st socket =>
    if (v.findjob p.jobid).isSome then v.finishedJobs
    else Keyed.modifyFirst Job.jobid p.jobid (Job.reconnected st socket) v.finishedJobs
  | _ => v.finishedJobs

theorem plain_push (max : ℕ) {l l' : List Job} (p : Job) (h : l.map Job.plain = l'.map Job.plain) :
    (Queue.kept max l ++ [{ p.strip with cpuAlloc := none }]).map Job.plain =
      (Queue.kept max l' ++ [p]).map Job.plain := by
  rw [List.map_append, List.map_append, Queue.map_kept, Queue.map_kept, h]
  rfl

/-- **The finished jobs after a move**, up to what notifications write to them. -/
theorem finished_apply : (a.apply v).finishedJobs.map Job.plain = (a.finished v).map Job.plain := by
  cases a with
  | pause p =>
    show (v.freeCores p).finishedJobs.map _ = _
    rw [Queue.finishedJobs_freeCores]
    rfl
  | abnormal p =>
    show (v.freeCores p).finishedJobs.map _ = _
    rw [Queue.finishedJobs_freeCores]
    rfl
  | relegate p requeue =>
    simp only [apply]
    split_ifs
    · show (v.freeCores p).finishedJobs.map _ = _
      rw [Queue.finishedJobs_freeCores]
      rfl
    · rfl
  | start p =>
    show (v.start p).finishedJobs.map _ = _
    rw [Queue.finishedJobs_start]
    rfl
  | dispatch uid p q =>
    simp only [apply]
    split_ifs
    · show ((v.uncountQueued (some uid)).start p).finishedJobs.map _ = _
      rw [Queue.finishedJobs_start]
      rfl
    · show (v.start p).finishedJobs.map _ = _
      rw [Queue.finishedJobs_start]
      rfl
  | lock p =>
    show (v.uncountQueued p.user).finishedJobs.map _ = _
    rw [Queue.uncountQueued, Queue.finishedJobs_modUser]
    rfl
  | unlock p =>
    show (v.countQueued p.user).finishedJobs.map _ = _
    rw [Queue.countQueued, Queue.finishedJobs_modUser]
    rfl
  | submit p ds n m q =>
    simp only [apply]
    show (Queue.countQueued _ p.user).finishedJobs.map _ = _
    rw [Queue.countQueued, Queue.finishedJobs_modUser]
    rfl
  | reuse p₀ p ds m q =>
    simp only [apply]
    by_cases hlocked : p.state = .locked
    · simp only [hlocked, if_true]
      rfl
    · simp only [hlocked, if_false]
      show (Queue.countQueued _ p.user).finishedJobs.map _ = _
      rw [Queue.countQueued, Queue.finishedJobs_modUser]
      rfl
  | finish r p p' max => exact plain_push max p' Queue.finished_finish
  | gone p => exact Queue.finished_notifyErrorlevel
  | drop p shelf =>
    cases shelf with
    | none => rfl
    | some x =>
      refine plain_push x.1 x.2 ?_
      rw [Queue.finishedJobs_freeCores]
      rfl
  | goneFinished p => exact Queue.finished_notifyErrorlevel
  | reconnect p st socket =>
    simp only [apply, finished]
    show (Queue.modAnyJob _ _ _).finishedJobs.map _ = _
    rw [Queue.modAnyJob]
    split_ifs <;> rfl
  | recount =>
    simp only [apply]
    split_ifs <;> rfl
  | _ => rfl

/-- The record that a job leaves when it ends. -/
theorem plain_finish {r : Result} {p p' : Job} {max : ℕ} (hids : v.Ids)
    (hg : (finish r p p' max).Guard v) : p'.plain = (p.freed.done r).plain := by
  obtain ⟨hhas, hp'⟩ := hg
  have hfin : (v.toQueue.finish r p).plain = ((v.freeCores p).modJob p.jobid (Job.done r)).plain :=
    Queue.plain_notifyErrorlevel
  have hfind : ((v.freeCores p).modJob p.jobid (Job.done r)).findjob p.jobid =
      some (p.strip.freed.done r) := by
    rw [Queue.findjob, Queue.activeJobs_freeCores_modJob hids.nodup hhas,
      Keyed.lookup_modify (c := Job.jobid) (f := fun p => p.freed.done r) (fun _ h => h),
      if_pos rfl]
    exact congrArg (Option.map fun p : Job => p.freed.done r) hhas
  have h := Queue.findjob_plain p.jobid (q := v.toQueue.finish r p)
  rw [hp', hfin, ← Queue.findjob_plain, hfind] at h
  exact Option.some.inj h

/-- A finished job after a move was one before, or the move has written it. -/
theorem mem_finished {x : Job} (hx : x ∈ a.finished v) :
    x ∈ v.finishedJobs ∨
    (∃ r p max, a = finish r p x max) ∨ (∃ p max, a = drop p (some (max, x))) ∨
    (∃ p, ∃ y ∈ v.finishedJobs, a = goneFinished p ∧ x = y.gone) ∨
    (∃ l, a = forget l ∧ x ∈ l) ∨
    ∃ p st socket, ∃ y ∈ v.finishedJobs, a = reconnect p st socket ∧ v.findjob p.jobid = none ∧
      y.jobid = p.jobid ∧ x = y.reconnected st socket := by
  have hpush : ∀ {max p'}, x ∈ Queue.kept max v.finishedJobs ++ [p'] →
      x ∈ v.finishedJobs ∨ x = p' := by
    intro max p' h
    rw [List.mem_append, List.mem_singleton] at h
    exact h.imp_left fun h => (Queue.kept_sublist _ _).subset h
  cases a with
  | finish r p p' max =>
    obtain h | rfl := hpush hx
    · exact .inl h
    · exact .inr (.inl ⟨r, p, max, rfl⟩)
  | drop p shelf =>
    cases shelf with
    | none => exact .inl hx
    | some y =>
      obtain h | rfl := hpush hx
      · exact .inl h
      · exact .inr (.inr (.inl ⟨p, y.1, rfl⟩))
  | goneFinished p =>
    obtain h | ⟨y, hy, -, rfl⟩ := Keyed.mem_modifyFirst hx
    · exact .inl h
    · exact .inr (.inr (.inr (.inl ⟨p, y, hy, rfl, rfl⟩)))
  | forget l => exact .inr (.inr (.inr (.inr (.inl ⟨l, rfl, hx⟩))))
  | reconnect p st socket =>
    simp only [finished] at hx
    split_ifs at hx with hsome
    · exact .inl hx
    · obtain h | ⟨y, hy, hid, rfl⟩ := Keyed.mem_modifyFirst hx
      · exact .inl h
      · exact .inr (.inr (.inr (.inr (.inr ⟨p, st, socket, y, hy, rfl,
          Option.not_isSome_iff_eq_none.1 hsome, hid, rfl⟩))))
  | _ => exact .inl hx

end Act

/-! ### Finished jobs are over -/

/-- A job that is over. -/
def Job.Over (p : Job) : Prop := p.state = .finished ∨ p.state = .skipped

theorem plainFn_over : PlainFn Job.Over := fun _ => rfl

theorem Job.over_done (r : Result) (p : Job) : (p.done r).Over := by
  rw [Job.done]
  show (if r.skipped then _ else _) = _ ∨ (if r.skipped then _ else _) = _
  split_ifs
  · exact .inr rfl
  · exact .inl rfl

/-- The finished jobs are over, and their ids have been given out. -/
def View.Settled (v : View) : Prop := ∀ x ∈ v.finishedJobs, x.Over ∧ x.jobid < v.jobids

namespace Act

variable {v : View} {a : Act}

/-- **A fact about every finished job** is kept, if it holds of the records that are written. -/
theorem forall_finished_apply {P : Job → Prop} (hP : PlainFn P) (hg : a.Guard v)
    (hset : v.Settled) (h : ∀ x ∈ v.finishedJobs, P x)
    (hfinish : ∀ r p p' max, a = finish r p p' max → P p')
    (hdrop : ∀ p max p', a = drop p (some (max, p')) → P p')
    (hgone : ∀ p, a = goneFinished p → ∀ y ∈ v.finishedJobs, P y.gone) :
    ∀ x ∈ (a.apply v).finishedJobs, P x := by
  intro x hx
  have hmem : x.plain ∈ (a.apply v).finishedJobs.map Job.plain := List.mem_map_of_mem hx
  rw [finished_apply] at hmem
  obtain ⟨y, hy, hyx⟩ := List.mem_map.1 hmem
  suffices hPy : P y by
    rw [← hP, hyx, hP] at hPy
    exact hPy
  obtain hy | ⟨r, p, max, rfl⟩ | ⟨p, max, rfl⟩ | ⟨p, z, hz, rfl, rfl⟩ | ⟨l, rfl, hl⟩ |
    ⟨p, st, socket, z, hz, rfl, hnone, hid, rfl⟩ := mem_finished hy
  · exact h y hy
  · exact hfinish r p y max rfl
  · exact hdrop p max y rfl
  · exact hgone p rfl z hz
  · exact h y (List.Sublist.subset hg hl)
  · -- nobody connects to a job that is over
    have hget := hg.1
    rw [Queue.getJob, hnone, Option.none_or] at hget
    obtain ⟨hover, -⟩ := hset _ (Keyed.mem_of_lookup hget)
    have hst : p.state = .finished ∨ p.state = .skipped := hover
    have hmay := hg.2.1
    obtain hst | hst := hst <;> simp [Server.mayReconnect, hst] at hmay

/-- **Finished jobs are over.** -/
theorem settled_apply (hids : v.Ids) (hset : v.Settled) (hg : a.Guard v) : (a.apply v).Settled := by
  have hle := jobids_apply hg
  refine forall_finished_apply (fun _ => rfl) hg hset (fun x hx => ?_) ?_ ?_ ?_
  · exact ⟨(hset x hx).1, (hset x hx).2.trans_le hle⟩
  · rintro r p p' max rfl
    have hp' := plain_finish hids hg
    refine ⟨?_, ?_⟩
    · rw [← plainFn_over, hp', plainFn_over]
      exact Job.over_done r _
    · have hid := Job.jobid_of_plain hp'
      change p'.jobid = p.jobid at hid
      exact (hid.trans_lt (hids.lt_of_has hg.1)).trans_le hle
  · rintro p max p' rfl
    obtain ⟨-, hst, hp'⟩ := hg.2.2 _ rfl
    refine ⟨?_, ?_⟩
    · rw [← plainFn_over, hp', plainFn_over]
      exact .inl hst
    · have hid := Job.jobid_of_plain hp'
      change p'.jobid = p.jobid at hid
      exact (hid.trans_lt (hids.lt_of_has hg.1)).trans_le hle
  · rintro p rfl y hy
    exact ⟨.inl rfl, (hset y hy).2.trans_le hle⟩

end Act

theorem Moves.settled {ok : Act → View → Prop} {v v' : View} (h : Moves ok v v') (hids : v.Ids)
    (hset : v.Settled) : v'.Settled :=
  (h.invariant (I := fun w => w.Ids ∧ w.Settled) ⟨hids, hset⟩ fun hI _ hg =>
    ⟨Act.ids_apply hI.1 hg, Act.settled_apply hI.1 hI.2 hg⟩).2

theorem Server.Fresh.settled {s : Server} (h : s.Fresh) : s.view.Settled := by
  intro x hx
  have hnil : s.view.finishedJobs = [] := by
    show s.finishedJobs.map Job.strip = []
    rw [h.finishedJobs, List.map_nil]
  rw [hnil] at hx
  exact absurd hx List.not_mem_nil

end TaskSpooler
