import TaskSpooler.CpuBind.IoThread

/-!
# Batches of the defragmentation thread are blocks

At any time one of three things is true (`Phase`): nobody is busy, the server has set the flag and is
about to create a thread, or exactly one thread is not over and the server neither freezes nor thaws nor
writes a CPU set.  The mutex tells who is inside (`Sound`).  Among these operations, what a thread has
done so far stands at the end of the log as one piece, and stays in one piece when it is over (`Block`).

* `batches_are_blocks`: every batch is carried out completely and as one block,
* `wait_ends`: a server that waits has a thread to wait for, which can go on or will be able to.
-/

namespace TaskSpooler

namespace IoThread

variable {s s' : IoThread} {l : Event} {w v : ℕ} {x y : Worker} {m : Option Owner} {b : Bool}
  {place : Place}

/-! ### Who is where -/

namespace Place

/-- The server has the mutex. -/
def holds : Place → Bool
  | .test _ | .unlock _ | .startSet _ | .startUnlock _ | .failClear | .failUnlock => true
  | _ => false

/-- Where the server can be while no thread is there and the flag is not set. -/
def free : Place → Bool
  | .waiting _ | .startUnlock _ | .create _ | .failLock | .failClear => false
  | _ => true

/-- Where the server is between setting the flag and creating the thread. -/
def marked : Place → Bool
  | .startUnlock _ | .create _ | .failLock | .failClear => true
  | _ => false

/-- Where the server can be while a thread is there. -/
def away : Place → Bool
  | .idle | .lock _ | .test _ | .waiting _ => true
  | _ => false

end Place

/-- The thread is there and not over. -/
def Unfinished (s : IoThread) (w : ℕ) : Prop := ∃ x, s.workers[w]? = some x ∧ x.place ≠ .ended

/-- What the flag stands for. -/
inductive Phase (s : IoThread) : Prop
  | free (hbusy : s.busy = false) (hmain : s.main.free = true) (hover : ∀ w, ¬s.Unfinished w)
  | marked (hbusy : s.busy = true) (hmain : s.main.marked = true) (hover : ∀ w, ¬s.Unfinished w)
  | handed {w : ℕ} (hbusy : s.busy = true) (hmain : s.main.away = true)
      (honly : ∀ v, s.Unfinished v ↔ v = w)

/-- The flag and the mutex are right. -/
structure Sound (s : IoThread) : Prop where
  mainHolds : s.mutex = some .main ↔ s.main.holds = true
  workerHolds : ∀ w, s.mutex = some (.worker w) ↔
    ∃ x todo, s.workers[w]? = some x ∧ x.place = .working todo
  phase : s.Phase

theorem sound_empty : Sound {} :=
  ⟨by decide, fun w => by simp, .free rfl rfl fun w hw => by
    obtain ⟨x, hx, -⟩ := hw
    simp at hx⟩

/-! ### The flag -/

/-- The server takes the mutex when it is free, and gives back only its own. -/
theorem Turn.holds (h : s.Turn l m b place) (hs : s.Sound) :
    (m = some .main ↔ place.holds = true) ∧
      ∀ w, m = some (.worker w) ↔ s.mutex = some (.worker w) := by
  have hmain := hs.mainHolds
  cases h with
  | call h | createFails h | wake h | pass h _ | startSet h | failClear h =>
    rw [h] at hmain
    exact ⟨hmain, fun _ => Iff.rfl⟩
  | lock h hfree | startLock h hfree | failLock h hfree | stall _ h hfree =>
    rw [hfree]
    exact ⟨⟨fun _ => rfl, fun _ => rfl⟩, fun w => ⟨fun h => (by cases h), fun h => (by cases h)⟩⟩
  | wait h _ | io h | start h | startUnlock h | failUnlock h =>
    rw [h] at hmain
    rw [hmain.2 rfl]
    exact ⟨⟨fun h => (by cases h), fun h => (by cases h)⟩,
      fun w => ⟨fun h => (by cases h), fun h => (by cases h)⟩⟩

/-- A thread that is not over has had its first turn, or will soon have it. -/
theorem working_of_prompt (hok : Prompt .stall s) (hs : s.Sound) (hw : s.Unfinished w) :
    s.mutex ≠ none := by
  obtain ⟨x, hx, hover⟩ := hw
  have hlock := hok rfl x (List.mem_of_getElem? hx)
  cases hplace : x.place with
  | lock => exact absurd hplace hlock
  | ended => exact absurd hplace hover
  | working todo =>
    rw [(hs.workerHolds w).2 ⟨x, todo, hx, hplace⟩]
    exact fun h => by cases h

theorem Turn.phase (h : s.Turn l m b place) (hs : s.Sound) (hok : Prompt l s) :
    Phase { s with mutex := m, busy := b, main := place } := by
  obtain ⟨hbusy, hmain, hover⟩ | ⟨hbusy, hmain, hover⟩ | ⟨hbusy, hmain, honly⟩ := hs.phase
  · -- no thread, and the flag is not set
    cases h with
    | wait _ hset =>
      rw [hbusy] at hset
      cases hset
    | startSet _ => exact .marked rfl rfl hover
    | startUnlock h | createFails h | failLock h _ | failClear h | wake h | stall _ h _ =>
      rw [h] at hmain
      cases hmain
    | _ => exact .free hbusy rfl hover
  · -- no thread yet
    cases h with
    | startUnlock _ | createFails _ | failLock _ _ => exact .marked hbusy rfl hover
    | failClear _ => exact .free rfl rfl hover
    | call h | lock h _ | wait h _ | pass h _ | io h | start h | startLock h _ | startSet h
    | failUnlock h | wake h | stall _ h _ =>
      rw [h] at hmain
      cases hmain
  · -- one thread
    cases h with
    | call _ | lock _ _ | wait _ _ | wake _ => exact .handed hbusy rfl honly
    | pass _ hclear =>
      rw [hbusy] at hclear
      cases hclear
    | stall hl _ hfree =>
      -- the server waits only as long as a thread is inside
      subst hl
      exact absurd hfree (working_of_prompt hok hs ((honly _).2 rfl))
    | io h | start h | startLock h _ | startSet h | startUnlock h | createFails h | failLock h _
    | failClear h | failUnlock h =>
      rw [h] at hmain
      cases hmain

/-! ### Threads -/

theorem getElem?_workers_set (hx : s.workers[w]? = some x) :
    (s.workers.set w y)[v]? = if v = w then some y else s.workers[v]? := by
  obtain ⟨hlt, -⟩ := List.getElem?_eq_some_iff.1 hx
  by_cases hv : v = w
  · rw [if_pos hv, hv, List.getElem?_set_self hlt]
  · rw [if_neg hv, List.getElem?_set_ne (Ne.symm hv)]

theorem getElem?_workers_append : (s.workers ++ [y])[v]? =
    if v = s.workers.length then some y else s.workers[v]? := by
  by_cases hv : v = s.workers.length
  · rw [if_pos hv, hv, List.getElem?_concat_length]
  · rw [if_neg hv]
    by_cases hlt : v < s.workers.length
    · rw [List.getElem?_append_left hlt]
    · rw [List.getElem?_eq_none (by simp; omega), List.getElem?_eq_none (by omega)]

/-- The thread that is not over is the one that the flag stands for. -/
theorem handed_of_unfinished (hs : s.Sound) (hw : s.Unfinished w) :
    s.busy = true ∧ s.main.away = true ∧ ∀ v, s.Unfinished v ↔ v = w := by
  obtain ⟨-, -, hover⟩ | ⟨-, -, hover⟩ | ⟨hbusy, hmain, honly⟩ := hs.phase
  · exact absurd hw (hover w)
  · exact absurd hw (hover w)
  · obtain rfl := (honly w).1 hw
    exact ⟨hbusy, hmain, honly⟩

/-- When the server is at a cgroup, every thread is over. -/
theorem ended_of_io {op : IoOp} (hs : s.Sound) (h : s.main = .io op) (hx : s.workers[w]? = some x) :
    x.place = .ended := by
  by_contra hover
  obtain ⟨-, haway, -⟩ := handed_of_unfinished hs ⟨x, hx, hover⟩
  rw [h] at haway
  cases haway

/-- A thread goes on and is not over. -/
theorem Sound.of_set (hs : s.Sound) (hx : s.workers[w]? = some x) (hplace : x.place ≠ .ended)
    {todo : List IoOp} (hmutex : s.mutex = none ∨ s.mutex = some (.worker w))
    {log : List Entry} : Sound { s with
      mutex := some (.worker w)
      workers := s.workers.set w { x with place := .working todo }
      log := log } := by
  have hw : s.Unfinished w := ⟨x, hx, hplace⟩
  obtain ⟨hbusy, hmain, honly⟩ := handed_of_unfinished hs hw
  have hother : ∀ v, v ≠ w → s.mutex ≠ some (.worker v) := by
    intro v hv h
    rw [h] at hmutex
    obtain hmutex | hmutex := hmutex
    · cases hmutex
    · cases hmutex
      exact hv rfl
  refine ⟨⟨fun h => (by cases h), fun h => ?_⟩, fun v => ?_, .handed (w := w) hbusy hmain fun v => ?_⟩
  · have h := hs.mainHolds.2 h
    rw [h] at hmutex
    obtain hmutex | hmutex := hmutex
    · cases hmutex
    · cases hmutex
  · show some (Owner.worker w) = some (.worker v) ↔
      ∃ z rest, (s.workers.set w _)[v]? = some z ∧ z.place = .working rest
    rw [getElem?_workers_set hx]
    by_cases hv : v = w
    · rw [if_pos hv, hv]
      exact ⟨fun _ => ⟨_, todo, rfl, rfl⟩, fun _ => rfl⟩
    · rw [if_neg hv, ← hs.workerHolds v]
      refine ⟨fun h => ?_, fun h => absurd h (hother v hv)⟩
      cases h
      exact absurd rfl hv
  · rw [← honly v]
    show (∃ z, (s.workers.set w _)[v]? = some z ∧ z.place ≠ .ended) ↔ _
    rw [getElem?_workers_set hx]
    by_cases hv : v = w
    · rw [if_pos hv, hv]
      exact ⟨fun _ => hw, fun _ => ⟨_, rfl, fun h => by cases h⟩⟩
    · rw [if_neg hv]
      exact Iff.rfl

theorem main_broadcast : s.broadcast.main = (match s.main with
    | .waiting goal => .lock goal
    | place => place) := by
  unfold broadcast
  cases hmain : s.main with
  | waiting goal => rfl
  | _ => exact hmain

/-- A new thread is there: the flag has been set for it. -/
theorem Sound.of_create {jobs : List IoJob} (hs : s.Sound) (h : s.main = .create jobs) :
    Sound { s with main := .idle, workers := s.workers ++ [⟨jobs, .lock⟩] } := by
  have hmain := hs.mainHolds
  rw [h] at hmain
  obtain ⟨-, hfree, -⟩ | ⟨hbusy, -, hover⟩ | ⟨-, haway, -⟩ := hs.phase
  · rw [h] at hfree
    cases hfree
  · refine ⟨hmain, fun w => ?_, .handed (w := s.workers.length) hbusy rfl fun v => ?_⟩
    · rw [hs.workerHolds w]
      show _ ↔ ∃ z todo, (s.workers ++ [⟨jobs, .lock⟩])[w]? = some z ∧ z.place = .working todo
      rw [getElem?_workers_append]
      by_cases hv : w = s.workers.length
      · -- the new thread has not begun, and nobody had its number before
        rw [if_pos hv, hv, List.getElem?_eq_none (Nat.le_refl _)]
        constructor
        · rintro ⟨z, todo, hz, -⟩
          cases hz
        · rintro ⟨z, todo, hz, hplace⟩
          cases hz
          cases hplace
      · rw [if_neg hv]
    · show (∃ z, (s.workers ++ [⟨jobs, .lock⟩])[v]? = some z ∧ z.place ≠ .ended) ↔ _
      rw [getElem?_workers_append]
      by_cases hv : v = s.workers.length
      · rw [if_pos hv]
        exact ⟨fun _ => hv, fun _ => ⟨_, rfl, fun h => by cases h⟩⟩
      · rw [if_neg hv]
        exact ⟨fun hw => absurd hw (hover v), fun h => absurd h hv⟩
  · rw [h] at haway
    cases haway

/-- The last call of a thread: nobody is busy any more. -/
theorem Sound.of_finish (hs : s.Sound) (hx : s.workers[w]? = some x) (h : x.place = .working []) :
    Sound { s.broadcast with
      mutex := none
      busy := false
      workers := s.workers.set w { x with place := .ended } } := by
  have hmutex : s.mutex = some (.worker w) := (hs.workerHolds w).2 ⟨x, [], hx, h⟩
  have hholds : s.main.holds ≠ true := by
    rw [Ne, ← hs.mainHolds, hmutex]
    exact fun h => by cases h
  obtain ⟨-, haway, honly⟩ := handed_of_unfinished hs ⟨x, hx, by rw [h]; exact fun h => by cases h⟩
  refine ⟨⟨fun h => (by cases h), fun hplace => ?_⟩, fun v => ?_, .free rfl ?_ fun v => ?_⟩
  · change s.broadcast.main.holds = true at hplace
    rw [main_broadcast] at hplace
    split at hplace
    · cases hplace
    · exact absurd hplace hholds
  · refine ⟨fun h => (by cases h), ?_⟩
    rintro ⟨z, todo, hz, hplace⟩
    rw [getElem?_workers_set hx] at hz
    by_cases hv : v = w
    · rw [if_pos hv] at hz
      cases hz
      cases hplace
    · rw [if_neg hv] at hz
      have hvw := (hs.workerHolds v).2 ⟨z, todo, hz, hplace⟩
      rw [hmutex] at hvw
      cases hvw
      exact absurd rfl hv
  · show s.broadcast.main.free = true
    rw [main_broadcast]
    cases hmain : s.main with
    | idle | lock goal | test goal | waiting goal => rfl
    | _ =>
      rw [hmain] at haway
      cases haway
  · rintro ⟨z, hz, hplace⟩
    rw [getElem?_workers_set hx] at hz
    by_cases hv : v = w
    · rw [if_pos hv] at hz
      cases hz
      exact hplace rfl
    · rw [if_neg hv] at hz
      exact hv ((honly v).1 ⟨z, hz, hplace⟩)

theorem Does.sound (h : s.Does l s') (hs : s.Sound) (hok : Prompt l s) : s'.Sound := by
  cases h with
  | turn h =>
    obtain ⟨hmain, hworker⟩ := h.holds hs
    exact ⟨hmain, fun w => (hworker w).trans (hs.workerHolds w), h.phase hs hok⟩
  | io h =>
    have hmain := hs.mainHolds
    have hphase := hs.phase
    rw [h] at hmain
    refine ⟨hmain, hs.workerHolds, ?_⟩
    obtain ⟨hbusy, -, hover⟩ | ⟨-, hmarked, -⟩ | ⟨-, haway, -⟩ := hphase
    · exact .free hbusy rfl hover
    · rw [h] at hmarked
      cases hmarked
    · rw [h] at haway
      cases haway
  | aside h =>
    refine ⟨hs.mainHolds, hs.workerHolds, ?_⟩
    obtain ⟨hbusy, hmain, hover⟩ | ⟨hbusy, hmain, hover⟩ | ⟨hbusy, hmain, honly⟩ := hs.phase
    · exact .free hbusy hmain hover
    · exact .marked hbusy hmain hover
    · exact .handed hbusy hmain honly
  | create h => exact hs.of_create h
  | begin hx h hfree => exact hs.of_set hx (by rw [h]; exact fun h => by cases h) (.inl hfree)
  | @op w x op todo hx h =>
    have hmutex : s.mutex = some (.worker w) := (hs.workerHolds w).2 ⟨x, op :: todo, hx, h⟩
    have hsound : Sound { s with
        mutex := some (.worker w)
        workers := s.workers.set w { x with place := .working todo }
        log := .io (.worker w) op :: s.log } :=
      hs.of_set hx (by rw [h]; exact fun h => by cases h) (.inr hmutex)
    rwa [← hmutex] at hsound
  | finish hx h => exact hs.of_finish hx h

/-! ### The log -/

/-- The freezes, CPU sets and thaws of the log, with those who did them. -/
def waited (log : List Entry) : List (Owner × IoOp) :=
  log.filterMap fun
    | .io owner op => some (owner, op)
    | .aside _ => none

@[simp] theorem waited_io {owner : Owner} {op : IoOp} {log : List Entry} :
    waited (.io owner op :: log) = (owner, op) :: waited log := rfl

@[simp] theorem waited_aside {op : Aside} {log : List Entry} : waited (.aside op :: log) = waited log :=
  rfl

/-- Nothing of the thread. -/
def Without (w : ℕ) (log : List (Owner × IoOp)) : Prop := ∀ y ∈ log, y.1 ≠ .worker w

/-- The batch of the thread stands in the log, as a whole and in one piece. -/
def Whole (w : ℕ) (jobs : List IoJob) (log : List (Owner × IoOp)) : Prop :=
  ∃ later earlier, log = later ++ (ioOps jobs).reverse.map (Prod.mk (.worker w)) ++ earlier ∧
    Without w later ∧ Without w earlier

/-- What a thread has done stands at the end of the log in one piece. -/
def Block (log : List (Owner × IoOp)) (w : ℕ) (x : Worker) : Prop :=
  match x.place with
  | .lock => Without w log
  | .working todo => ∃ done earlier, done ++ todo = ioOps x.jobs ∧
      log = done.reverse.map (Prod.mk (.worker w)) ++ earlier ∧ Without w earlier
  | .ended => Whole w x.jobs log

theorem Without.cons {log : List (Owner × IoOp)} {a : Owner × IoOp} (h : Without w log)
    (ha : a.1 ≠ .worker w) : Without w (a :: log) := by
  intro y hy
  obtain rfl | hy := List.mem_cons.1 hy
  · exact ha
  · exact h y hy

/-- Others write behind the batch. -/
theorem Block.cons {log : List (Owner × IoOp)} {a : Owner × IoOp} (h : Block log w x)
    (hover : x.place = .ended) (ha : a.1 ≠ .worker w) : Block (a :: log) w x := by
  unfold Block at h ⊢
  simp only [hover] at h ⊢
  obtain ⟨later, earlier, rfl, hlater, hearlier⟩ := h
  exact ⟨a :: later, earlier, rfl, hlater.cons ha, hearlier⟩

/-- Every thread has its block, and there is nothing else of threads in the log. -/
structure Blocks (s : IoThread) : Prop where
  block : ∀ w x, s.workers[w]? = some x → Block (waited s.log) w x
  known : ∀ w, s.workers.length ≤ w → Without w (waited s.log)

theorem blocks_empty : Blocks {} :=
  ⟨fun w x hx => by simp at hx, fun _ _ _ hy => absurd hy List.not_mem_nil⟩

/-- One thread goes on, and writes something at the end of the log or nothing. -/
theorem Blocks.of_set (hs : s.Blocks) (hx : s.workers[w]? = some x)
    {log : List Entry} {place' : WorkerPlace}
    (hblock : Block (waited log) w { x with place := place' })
    (hother : ∀ v z, v ≠ w → s.workers[v]? = some z → Block (waited s.log) v z → Block (waited log) v z)
    (hknown : ∀ v, v ≠ w → Without v (waited s.log) → Without v (waited log)) : Blocks { s with
      mutex := m, busy := b, main := place
      workers := s.workers.set w { x with place := place' }
      log := log } := by
  obtain ⟨hlt, -⟩ := List.getElem?_eq_some_iff.1 hx
  refine ⟨fun v z hz => ?_, fun v hv => ?_⟩
  · change (s.workers.set w _)[v]? = some z at hz
    rw [getElem?_workers_set hx] at hz
    by_cases hvw : v = w
    · rw [if_pos hvw] at hz
      cases hz
      exact hvw ▸ hblock
    · rw [if_neg hvw] at hz
      exact hother v z hvw hz (hs.block v z hz)
  · change (s.workers.set w _).length ≤ v at hv
    rw [List.length_set] at hv
    exact hknown v (by omega) (hs.known v hv)

theorem Does.blocks (h : s.Does l s') (hs : s.Sound) (hb : s.Blocks) : s'.Blocks := by
  cases h with
  | turn _ => exact ⟨hb.block, hb.known⟩
  | aside _ => exact ⟨hb.block, hb.known⟩
  | @io op h =>
    have hmain : ∀ w, (Owner.main, op).1 ≠ .worker w := fun w h => by cases h
    exact ⟨fun w x hx => (hb.block w x hx).cons (ended_of_io hs h hx) (hmain w),
      fun w hw => (hb.known w hw).cons (hmain w)⟩
  | @create jobs h =>
    refine Blocks.mk (fun w x hx => ?_) fun w hw => hb.known w ?_
    · change (s.workers ++ [⟨jobs, .lock⟩])[w]? = some x at hx
      rw [getElem?_workers_append] at hx
      by_cases hw : w = s.workers.length
      · rw [if_pos hw] at hx
        cases hx
        exact hb.known w (Nat.le_of_eq hw.symm)
      · rw [if_neg hw] at hx
        exact hb.block w x hx
    · change (s.workers ++ [Worker.mk jobs .lock]).length ≤ w at hw
      rw [List.length_append, List.length_singleton] at hw
      omega
  | @begin w x hx h hfree =>
    have hblock := hb.block w x hx
    unfold Block at hblock
    simp only [h] at hblock
    have hfirst : Block (waited s.log) w { x with place := .working (ioOps x.jobs) } :=
      ⟨[], waited s.log, rfl, rfl, hblock⟩
    exact hb.of_set hx hfirst (fun _ _ _ _ hz => hz) fun _ _ hv => hv
  | @op w x op todo hx h =>
    obtain ⟨-, -, honly⟩ :=
      handed_of_unfinished hs ⟨x, hx, by rw [h]; exact fun h => by cases h⟩
    have hne : ∀ v, v ≠ w → (Owner.worker w, op).1 ≠ .worker v := by
      intro v hv h
      cases h
      exact hv rfl
    have hblock := hb.block w x hx
    unfold Block at hblock
    simp only [h] at hblock
    obtain ⟨done, earlier, hdone, hlog, hearlier⟩ := hblock
    have hnext : Block ((.worker w, op) :: waited s.log) w { x with place := .working todo } := by
      refine ⟨done ++ [op], earlier, ?_, ?_, hearlier⟩
      · rw [List.append_assoc, List.singleton_append]
        exact hdone
      · rw [hlog, List.reverse_append, List.reverse_singleton, List.singleton_append, List.map_cons,
          List.cons_append]
    refine hb.of_set hx hnext (fun v z hv hz hblock => ?_) fun v hv hwithout =>
      hwithout.cons (hne v hv)
    -- nobody else is there who could have begun
    refine hblock.cons ?_ (hne v hv)
    by_contra hover
    exact hv ((honly v).1 ⟨z, hz, hover⟩)
  | @finish w x hx h =>
    have hblock := hb.block w x hx
    unfold Block at hblock
    simp only [h] at hblock
    obtain ⟨done, earlier, hdone, hlog, hearlier⟩ := hblock
    obtain ⟨place, hplace⟩ : ∃ place, s.broadcast = { s with main := place } := by
      unfold broadcast
      cases hmain : s.main with
      | waiting goal => exact ⟨_, rfl⟩
      | _ => exact ⟨s.main, rfl⟩
    rw [List.append_nil] at hdone
    have hlast : Block (waited s.log) w { x with place := .ended } := by
      refine ⟨[], earlier, ?_, fun y hy => absurd hy List.not_mem_nil, hearlier⟩
      rw [List.nil_append, ← hdone]
      exact hlog
    rw [hplace]
    exact hb.of_set hx hlast (fun _ _ _ _ hz => hz) fun _ _ hv => hv

/-! ### Runs -/

theorem sound_run (h : Run Step Prompt {} s) : s.Sound ∧ s.Blocks :=
  h.invariant (I := fun s => s.Sound ∧ s.Blocks) ⟨sound_empty, blocks_empty⟩ fun hI hok hst =>
    ⟨(step_does hst).sound hI.1 hok, (step_does hst).blocks hI.1 hI.2⟩

/-- **Every batch is one block.**  However the threads take turns, a batch of the defragmentation
thread that is over has been carried out as a whole, freezing, writing and thawing in this order, and
nothing else has been frozen, written or thawed in between; and when the server is about to do one of
these, every batch is over. -/
theorem batches_are_blocks (h : Run Step Prompt {} s) :
    (∀ w x, s.workers[w]? = some x → x.place = .ended → Whole w x.jobs (waited s.log)) ∧
      ∀ op, s.main = .io op → ∀ x ∈ s.workers, x.place = .ended := by
  obtain ⟨hs, hb⟩ := sound_run h
  refine ⟨fun w x hx hover => ?_, fun op hmain x hx => ?_⟩
  · have hblock := hb.block w x hx
    unfold Block at hblock
    simp only [hover] at hblock
    exact hblock
  · obtain ⟨w, hw⟩ := List.mem_iff_getElem?.1 hx
    exact ended_of_io hs hmain hw

/-- A job that is moved. -/
def movedJob : IoJob where
  jobid := 7
  pid := 70
  state := .running
  isSleep := false
  cpusStr := some "0-3"
  memsStr := none

/-- A batch is handed over, and the server wants to freeze a job in the meantime. -/
def wantsFreeze : List Event :=
  [.call (.start [movedJob])] ++ List.replicate 7 .move ++ [.call (.io (.freeze movedJob))] ++
    List.replicate 2 .move

/-- The batch is carried out, and then the job is frozen. -/
def frozenThen : List Event := List.replicate 5 (.work 0) ++ List.replicate 4 .move

/-- The server waits for the batch. -/
def waitingServer : IoThread := (Run.follow step {} wantsFreeze).getD {}

def frozenAfter : IoThread := (Run.follow step {} (wantsFreeze ++ frozenThen)).getD {}

theorem run_waitingServer : Run Step Prompt {} waitingServer := by
  refine Run.of_follow (fun _ _ _ hst => hst) (fun l hl s hstall => ?_)
    (rfl : Run.follow step {} wantsFreeze = _)
  subst hstall
  exact absurd hl (by decide)

theorem run_frozenAfter : Run Step Prompt {} frozenAfter := by
  refine Run.of_follow (fun _ _ _ hst => hst) (fun l hl s hstall => ?_)
    (rfl : Run.follow step {} (wantsFreeze ++ frozenThen) = _)
  subst hstall
  exact absurd hl (by decide)

theorem batches_are_blocks_frozenAfter : Whole 0 [movedJob] (waited frozenAfter.log) ∧
    frozenAfter.log.head? = some (.io .main (.freeze movedJob)) :=
  ⟨(batches_are_blocks run_frozenAfter).1 0 ⟨[movedJob], .ended⟩ (by decide +kernel) rfl,
    by decide +kernel⟩

/-- The job ends during a batch, and its cgroup is removed between two operations of the thread. -/
example : (Run.follow step {} ([.call (.start [movedJob])] ++ List.replicate 7 .move ++
    List.replicate 2 (.work 0) ++ [.aside (.clean 7 70), .work 0])).map log =
      some [.io (.worker 0) (.cpuset movedJob), .aside (.clean 7 70),
        .io (.worker 0) (.freeze movedJob)] := by
  decide +kernel

/-- Who has the mutex can go on. -/
theorem step_of_mutex (hs : s.Sound) (hw : s.mutex = some (.worker w)) :
    (s.step (.work w)).isSome = true := by
  obtain ⟨x, todo, hx, hplace⟩ := (hs.workerHolds w).1 hw
  rw [step, hx, Option.bind_some, work, hplace]
  cases todo with
  | nil => rfl
  | cons op todo => rfl

/-- **Nobody is stuck.**  If the server has something to do, it can go on, or a thread can: it never
waits on the condition variable for a thread that is over, and never for a mutex that nobody gives
back. -/
theorem wait_ends (h : Run Step Prompt {} s) : s.main = .idle ∨ (s.step .move).isSome = true ∨
    ∃ w, (s.step (.work w)).isSome = true := by
  obtain ⟨hs, -⟩ := sound_run h
  have hmutex : s.main.holds = false → s.mutex = none ∨ ∃ w, s.mutex = some (.worker w) := by
    intro hholds
    cases hm : s.mutex with
    | none => exact .inl rfl
    | some owner =>
      cases owner with
      | main =>
        rw [hs.mainHolds.1 hm] at hholds
        cases hholds
      | worker w => exact .inr ⟨w, rfl⟩
  -- a place before `pthread_mutex_lock` is left by the server or by the thread that has it
  have hlocks : s.main.holds = false → (s.mutex = none → (s.step .move).isSome = true) →
      (s.step .move).isSome = true ∨ ∃ w, (s.step (.work w)).isSome = true := by
    intro hholds hmove
    obtain hnone | ⟨w, hw⟩ := hmutex hholds
    · exact .inl (hmove hnone)
    · exact .inr ⟨w, step_of_mutex hs hw⟩
  cases hmain : s.main with
  | idle => exact .inl rfl
  | lock goal | startLock jobs | failLock =>
    refine .inr (hlocks (by rw [hmain]; rfl) fun hnone => ?_)
    rw [step, move, hmain]
    simp only [hnone]
    rfl
  | test goal =>
    refine .inr (.inl ?_)
    rw [step, move, hmain]
    dsimp only
    split_ifs <;> rfl
  | waiting goal =>
    refine .inr (.inr ?_)
    obtain ⟨-, hfree, -⟩ | ⟨-, hmarked, -⟩ | @⟨w, -, -, honly⟩ := hs.phase
    · rw [hmain] at hfree
      cases hfree
    · rw [hmain] at hmarked
      cases hmarked
    -- the thread that is waited for is not over, so it takes the mutex or has it
    · obtain hnone | ⟨v, hv⟩ := hmutex (by rw [hmain]; rfl)
      · obtain ⟨x, hx, hover⟩ := (honly w).2 rfl
        refine ⟨w, ?_⟩
        rw [step, hx, Option.bind_some, work]
        cases hplace : x.place with
        | lock =>
          simp only [hnone]
          rfl
        | working todo =>
          have hw := (hs.workerHolds w).2 ⟨x, todo, hx, hplace⟩
          rw [hnone] at hw
          cases hw
        | ended => exact absurd hplace hover
      · exact ⟨v, step_of_mutex hs hv⟩
  | _ =>
    refine .inr (.inl ?_)
    rw [step, move, hmain]
    rfl

/-- The server waits, and the thread can go on. -/
theorem wait_ends_waitingServer : waitingServer.main = .waiting (.io (.freeze movedJob)) ∧
    (waitingServer.main = .idle ∨ (waitingServer.step .move).isSome = true ∨
      ∃ w, (waitingServer.step (.work w)).isSome = true) :=
  ⟨by decide +kernel, wait_ends run_waitingServer⟩

end IoThread

end TaskSpooler
