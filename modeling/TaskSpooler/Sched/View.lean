import TaskSpooler.Server.Basic

/-!
# What scheduling sees of the server

Most of what the server does leaves the queue alone: it answers, writes to the database or to a
control group, or fills in fields of a job that no decision depends on.  `Spool.view` forgets all
that.  What is left are the globals of `jobs.c` with the jobs reduced to their `Job.strip`, and the
log of events.

The lemmas here say of the small functions of the model what they are on the view: either nothing,
or a function of `Queue` on the stripped queue.
-/

namespace TaskSpooler

/-! ### Jobs -/

/-- A job without the fields that only displays, the health check and CPU binding use. -/
def Job.strip (p : Job) : Job :=
  { p with outputFilename := none, info := {}, healthState := 0, cpuAlloc := none }

/-- A job without what notifications write to it. -/
def Job.plain (p : Job) : Job :=
  { p.strip with notifyErrorlevelTo := [], dependencyErrorlevel := 0 }

namespace Queue

variable (q : Queue)

/-- The queue with stripped jobs. -/
def strip : Queue :=
  { q with
    activeJobs := q.activeJobs.map Job.strip
    finishedJobs := q.finishedJobs.map Job.strip }

variable {q} {jobid : ℤ} {f g : Job → Job}

theorem strip_findjob : q.strip.findjob jobid = (q.findjob jobid).map Job.strip :=
  Keyed.lookup_map fun _ => rfl

theorem strip_findFinishedJob :
    q.strip.findFinishedJob jobid = (q.findFinishedJob jobid).map Job.strip :=
  Keyed.lookup_map fun _ => rfl

theorem strip_getJob : q.strip.getJob jobid = (q.getJob jobid).map Job.strip := by
  rw [getJob, getJob, strip_findjob, strip_findFinishedJob, Option.map_or]

theorem strip_modJob (h : ∀ p, g p.strip = (f p).strip) :
    (q.modJob jobid f).strip = q.strip.modJob jobid g := by
  have := Keyed.modify_map (c := Job.jobid) (d := Job.jobid) (k := jobid) (f := f)
    (l := q.activeJobs) (h := Job.strip) (fun _ => rfl) h
  simp only [strip, modJob, this]

theorem strip_modJob_quiet (h : ∀ p, (f p).strip = p.strip) : (q.modJob jobid f).strip = q.strip := by
  have := Keyed.map_modify (c := Job.jobid) (k := jobid) (f := f) (l := q.activeJobs)
    (g := Job.strip) fun p _ _ => h p
  simp only [strip, modJob, this]

theorem strip_modAnyJob (h : ∀ p, g p.strip = (f p).strip) :
    (q.modAnyJob jobid f).strip = q.strip.modAnyJob jobid g := by
  rw [modAnyJob, modAnyJob, strip_findjob, Option.isSome_map]
  split_ifs
  · exact strip_modJob h
  · have := Keyed.modifyFirst_map (c := Job.jobid) (d := Job.jobid) (k := jobid) (f := f)
      (l := q.finishedJobs) (h := Job.strip) (fun _ => rfl) h
    simp only [strip, this]

theorem strip_dropJob : (q.dropJob jobid).strip = q.strip.dropJob jobid := by
  have := Keyed.remove_map (c := Job.jobid) (d := Job.jobid) (k := jobid)
    (l := q.activeJobs) (h := Job.strip) (fun _ => rfl)
  simp only [strip, dropJob, this]

theorem strip_modUser {u : Option ℕ} {f : User → User} :
    (q.modUser u f).strip = q.strip.modUser u f := by
  cases u <;> rfl

theorem strip_countQueued (u : Option ℕ) : (q.countQueued u).strip = q.strip.countQueued u :=
  strip_modUser

theorem strip_uncountQueued (u : Option ℕ) : (q.uncountQueued u).strip = q.strip.uncountQueued u :=
  strip_modUser

theorem strip_freeCores (p : Job) : (q.freeCores p).strip = q.strip.freeCores p := by
  rw [freeCores, freeCores]
  split_ifs
  · rfl
  · rw [strip_modJob (g := Job.freed) fun _ => rfl]
    cases p.user <;> rfl

theorem strip_start (p : Job) : (q.start p).strip = q.strip.start p := by
  rw [start, start, strip_modJob (g := Job.started) fun _ => rfl]
  cases p.user <;> rfl

theorem strip_notifyErrorlevel (p : Job) :
    (q.notifyErrorlevel p).strip = q.strip.notifyErrorlevel p := by
  have hfold : ∀ (l : List ℤ) (q : Queue),
      (l.foldl (fun q jobid => q.modAnyJob jobid (Job.addErrorlevel p.result.errorlevel)) q).strip =
        l.foldl (fun q jobid => q.modAnyJob jobid (Job.addErrorlevel p.result.errorlevel))
          q.strip := by
    intro l
    induction l with
    | nil => exact fun q => rfl
    | cons jobid l ih =>
      intro q
      rw [List.foldl_cons, List.foldl_cons, ih,
        strip_modAnyJob (g := Job.addErrorlevel p.result.errorlevel) fun _ => rfl]
  exact hfold _ _

theorem strip_finish (r : Result) (p : Job) : (q.finish r p).strip = q.strip.finish r p := by
  rw [finish, finish, strip_notifyErrorlevel, ← strip_freeCores,
    ← strip_modJob (f := Job.done r) fun _ => rfl]
  rfl

theorem strip_pushFinished (max : ℕ) (p : Job) :
    (q.pushFinished max p).strip = q.strip.pushFinished max p.strip := by
  simp only [strip, pushFinished, List.length_map]
  split_ifs <;> simp [Job.strip]

theorem strip_depsReady (p : Job) : q.strip.depsReady p = q.depsReady p := by
  simp only [depsReady]
  congr 1
  funext d
  rw [strip_getJob]
  cases q.getJob d <;> rfl

theorem runningSlots_strip (l : List Job) : runningSlots (l.map Job.strip) = runningSlots l := by
  simp only [runningSlots, List.filter_map, List.map_map]
  rfl

theorem strip_recount : q.recount.strip = q.strip.recount := by
  have hown : ∀ u, (q.strip.activeJobs.filter fun p => p.user = some u) =
      (q.activeJobs.filter fun p => p.user = some u).map Job.strip := by
    intro u
    rw [strip, List.filter_map]
    rfl
  have huser : q.recountUser = q.strip.recountUser := by
    funext u
    simp only [recountUser, hown, runningSlots_strip, List.filter_map, List.length_map]
    rfl
  simp only [recount, strip, runningSlots_strip]
  rw [huser]
  rfl

end Queue

/-! ### The view -/

/-- The scheduling data and the log. -/
structure View extends Queue where
  events : List Event := []

namespace View

variable (v : View)

/-- Change the queue and nothing else. -/
def onQueue (f : Queue → Queue) : View := { v with toQueue := f v.toQueue }

/-- Extend the log. -/
def log (ev : Event) : View := { v with events := ev :: v.events }

@[simp] theorem onQueue_toQueue (f : Queue → Queue) : (v.onQueue f).toQueue = f v.toQueue := rfl

@[simp] theorem onQueue_events (f : Queue → Queue) : (v.onQueue f).events = v.events := rfl

@[simp] theorem onQueue_onQueue (f g : Queue → Queue) :
    (v.onQueue f).onQueue g = v.onQueue fun q => g (f q) := rfl

@[simp] theorem log_toQueue (ev : Event) : (v.log ev).toQueue = v.toQueue := rfl

@[simp] theorem log_events (ev : Event) : (v.log ev).events = ev :: v.events := rfl

end View

namespace Spool

variable (e : Env) (s : Spool)

/-- What scheduling sees of the server. -/
def view : View where
  toQueue := s.toQueue.strip
  events := s.events

variable {s} {f : Queue → Queue} {jobid : ℤ}

theorem view_onQueue (g : Queue → Queue) (h : (f s.toQueue).strip = g s.toQueue.strip) :
    (s.onQueue f).view = s.view.onQueue g := by
  simp only [view, onQueue, View.onQueue, h]

theorem view_modJob {f g : Job → Job} (h : ∀ p, g p.strip = (f p).strip) :
    (s.modJob jobid f).view = s.view.onQueue fun q => q.modJob jobid g :=
  view_onQueue _ (Queue.strip_modJob h)

theorem view_modJob_quiet {f : Job → Job} (h : ∀ p, (f p).strip = p.strip) :
    (s.modJob jobid f).view = s.view := by
  simp only [view, modJob, onQueue, Queue.strip_modJob_quiet h]

theorem view_freeCores (p : Job) :
    (s.freeCores p).view = s.view.onQueue fun q => q.freeCores p :=
  view_onQueue _ (Queue.strip_freeCores p)

theorem view_countQueued (u : Option ℕ) :
    (s.onQueue fun q => q.countQueued u).view = s.view.onQueue fun q => q.countQueued u :=
  view_onQueue _ (Queue.strip_countQueued u)

theorem view_uncountQueued (u : Option ℕ) :
    (s.onQueue fun q => q.uncountQueued u).view = s.view.onQueue fun q => q.uncountQueued u :=
  view_onQueue _ (Queue.strip_uncountQueued u)

theorem view_dropJob :
    (s.onQueue fun q => q.dropJob jobid).view = s.view.onQueue fun q => q.dropJob jobid :=
  view_onQueue _ Queue.strip_dropJob

@[simp] theorem view_log (ev : Event) : (s.log ev).view = s.view.log ev := rfl

@[simp] theorem view_users : s.view.users = s.users := rfl

@[simp] theorem view_nusers : s.view.nusers = s.nusers := rfl

@[simp] theorem view_busySlots : s.view.busySlots = s.busySlots := rfl

@[simp] theorem view_maxSlots : s.view.maxSlots = s.maxSlots := rfl

@[simp] theorem view_events : s.view.events = s.events := rfl

theorem view_findjob : s.view.findjob jobid = (s.findjob jobid).map Job.strip :=
  Queue.strip_findjob

theorem view_getJob : s.view.getJob jobid = (s.getJob jobid).map Job.strip :=
  Queue.strip_getJob

/-! ### Functions that do not touch the view -/

@[simp] theorem view_send (socket : ℤ) (r : Reply) : (s.send socket r).view = s.view := rfl

@[simp] theorem view_sendLine (socket : ℤ) (text : String) :
    (s.sendLine socket text).view = s.view := rfl

@[simp] theorem view_updateDb (f : Job → Job) : (s.updateDb jobid f).view = s.view := rfl

@[simp] theorem view_insertJobsDb (p : Job) : (s.insertJobsDb p).view = s.view := rfl

@[simp] theorem view_replaceJobsDb (p : Job) : (s.replaceJobsDb p).view = s.view := rfl

@[simp] theorem view_deleteJobsDb : (s.deleteJobsDb jobid).view = s.view := rfl

@[simp] theorem view_deleteFinishedDb : (s.deleteFinishedDb jobid).view = s.view := rfl

@[simp] theorem view_insertFinishedDb (p : Job) : (s.insertFinishedDb p).view = s.view := by
  unfold insertFinishedDb
  split <;> rfl

@[simp] theorem view_movetopDb : (s.movetopDb jobid).view = s.view := rfl

@[simp] theorem view_movebottomDb : (s.movebottomDb jobid).view = s.view := rfl

@[simp] theorem view_swapDb (jobid' : ℤ) : (s.swapDb jobid jobid').view = s.view := by
  unfold swapDb
  split <;> rfl

@[simp] theorem view_setJobidsDb (n : ℤ) : (s.setJobidsDb n).view = s.view := rfl

@[simp] theorem view_modCgroup (pid : ℤ) (f : Cgroup → Cgroup) :
    (s.modCgroup jobid pid f).view = s.view := rfl

@[simp] theorem view_mkdirCgroup (pid : ℤ) : (s.mkdirCgroup jobid pid).view = s.view := by
  unfold mkdirCgroup
  split <;> rfl

@[simp] theorem view_cgroupsFreezeJob (p : Job) : (s.cgroupsFreezeJob p).view = s.view := rfl

@[simp] theorem view_cgroupsThawJob (p : Job) : (s.cgroupsThawJob p).view = s.view := rfl

@[simp] theorem view_cgroupsCreateJob (p : Job) : (s.cgroupsCreateJob p).view = s.view := by
  unfold cgroupsCreateJob
  split_ifs
  · rfl
  · exact view_mkdirCgroup _

@[simp] theorem view_cgroupsCleanJob (p : Job) : (s.cgroupsCleanJob p).view = s.view := by
  unfold cgroupsCleanJob
  split_ifs <;> rfl

@[simp] theorem view_cgroupsSetCpuset (pid : ℤ) (a : CpuBind.CpuAlloc) :
    (s.cgroupsSetCpuset e jobid pid a).view = s.view := by
  unfold cgroupsSetCpuset
  split_ifs
  · rfl
  · rw [view_modCgroup, view_mkdirCgroup]

@[simp] theorem view_freeAlloc (ptr : Option ℕ) : (s.freeAlloc e ptr).view = s.view := by
  unfold freeAlloc
  cases ptr with
  | none => rfl
  | some ptr =>
    dsimp only
    split <;> rfl

@[simp] theorem view_freeBind (p : Job) : (s.freeBind e p).view = s.view := by
  rw [freeBind, view_modJob_quiet, view_freeAlloc]
  exact fun _ => rfl

@[simp] theorem view_bindCpus (p : Job) : (s.bindCpus e p).view = s.view := by
  unfold bindCpus
  split
  · rw [view_cgroupsSetCpuset, view_modJob_quiet]
    · rfl
    · exact fun _ => rfl
  · rw [view_modJob_quiet]
    · rfl
    · exact fun _ => rfl

@[simp] theorem view_defragIo (a : CpuBind.CpuAlloc) : (s.defragIo e a).view = s.view := by
  unfold defragIo
  cases s.findjob a.jobid with
  | none => rfl
  | some p =>
    dsimp only
    split
    · rw [view_modCgroup, view_mkdirCgroup]
    · rfl

/-- A loop whose body does not touch the view does not touch it either. -/
theorem view_foldl {α : Type*} {f : Spool → α → Spool} (h : ∀ s a, (f s a).view = s.view)
    (l : List α) (s : Spool) : (l.foldl f s).view = s.view := by
  induction l generalizing s with
  | nil => rfl
  | cons a l ih => rw [List.foldl_cons, ih, h]

@[simp] theorem view_defrag : (s.defrag e).view = s.view := by
  unfold defrag
  split_ifs
  · rw [view_foldl fun s a => view_defragIo e a]
    rfl
  · rfl

@[simp] theorem view_pauseJobConfig (p : Job) : (s.pauseJobConfig e p).view = s.view := by
  unfold pauseJobConfig
  split_ifs
  · rw [view_updateDb, view_modJob_quiet]
    exact fun _ => rfl
  · rfl

@[simp] theorem view_rerunJobConfig (p : Job) : (s.rerunJobConfig e p).view = s.view := by
  unfold rerunJobConfig
  split_ifs
  · rw [view_updateDb, view_modJob_quiet]
    exact fun _ => rfl
  · rfl

@[simp] theorem view_sRemoveNotification (socket : ℤ) :
    (s.sRemoveNotification socket).view = s.view := rfl

@[simp] theorem view_timeoutLock : (s.timeoutLock e).view = s.view := by
  unfold timeoutLock
  cases s.userLocker with
  | none => rfl
  | some u =>
    dsimp only
    split_ifs <;> rfl

@[simp] theorem view_sCheckLocker (u : ℕ) : (s.sCheckLocker e u).1.view = s.view := by
  unfold sCheckLocker
  dsimp only
  split_ifs <;> rfl

theorem view_sCheckHoldon : (s.sCheckHoldon e).view = s.view := by
  refine view_foldl (fun s p => ?_) _ _
  split_ifs <;> rfl

/-! ### Functions that change the queue -/

theorem view_configRunning (p : Job) :
    (s.configRunning e p).view = s.view.onQueue fun q => q.start p := by
  have hthaw : (if s.isSleep e p = 1 then s.cgroupsThawJob p else s).view = s.view := by
    split_ifs <;> rfl
  rw [configRunning, apply_ite view, view_bindCpus, ite_self, view_rerunJobConfig, view_updateDb,
    view_onQueue (fun q => q.start p) (Queue.strip_start p), hthaw]

theorem view_safePauseJob (p : Job) :
    (s.safePauseJob e p).view = s.view.onQueue fun q => q.freeCores p := by
  rw [safePauseJob, view_pauseJobConfig, view_freeBind, view_freeCores, view_cgroupsFreezeJob]

theorem view_newFinishedJob (p : Job) :
    (s.newFinishedJob e p).view = s.view.onQueue fun q => q.pushFinished e.maxFinished p.strip := by
  rw [newFinishedJob, view_defrag, view_freeAlloc, view_cgroupsCleanJob, view_insertFinishedDb,
    view_onQueue (fun q => q.pushFinished e.maxFinished p.strip) (Queue.strip_pushFinished _ p)]

end Spool

end TaskSpooler
