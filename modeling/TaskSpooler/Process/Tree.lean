import TaskSpooler.Lib.Descend
import TaskSpooler.Lib.Strtok
import TaskSpooler.Store.RoundTrip

/-!
# The processes of a job (`/proc/<pid>/task`)

A job is one process for the queue; the processes below it are found in `/proc`.  There are two ways
down.  `is_descendant_pid` and `count_child_pids` read the children of the main thread, with one
`read` into a buffer.  `kill_pids` reads the children of every thread, with `fscanf`, and signals a
process when it is back from those below it.

`Processes` is what the kernel knows at one moment, and `Processes.procFs` how it prints that.  On it
`kill_pids` signals the process and everything below it, once each, children first
(`Processes.killPids_order`), and `is_descendant_pid` decides who is below the main threads, as long
as each list of children fits into the buffer (`Processes.isDescendantPid_iff`).
-/

namespace TaskSpooler

namespace Process

open Relation Descend Sql CpuBind

/-! ### What is read -/

/-- The files below `/proc` that the walks read. -/
structure ProcFs where
  /-- The names in `/proc/<pid>/task`, if it can be opened. -/
  task : ℤ → Option (List (List Char))
  /-- The text of `/proc/<pid>/task/<tid>/children`, if it can be opened. -/
  children : ℤ → ℤ → Option (List Char)

/-- The characters that `fscanf` skips. -/
def isspace (c : Char) : Bool := c ∈ [' ', '\t', '\n', '\x0b', '\x0c', '\r']

/-- `fscanf(file, "%d", &n)`. -/
def scanInt : Reader Char ℤ := fun text =>
  match text.dropWhile isspace with
  | '-' :: cs => (digits.run cs).map fun (n, cs) => (-(n : ℤ), cs)
  | '+' :: cs => (digits.run cs).map fun (n, cs) => ((n : ℤ), cs)
  | cs => (digits.run cs).map fun (n, cs) => ((n : ℤ), cs)

/-- At most `n` calls of `fscanf`, until one of them fails. -/
def scanIntsWithin : ℕ → List Char → List ℤ
  | 0, _ => []
  | n + 1, text => (scanInt.run text).elim [] fun r => r.1 :: scanIntsWithin n r.2

/-- The numbers that `fscanf` delivers; each is taken from at least one character. -/
def scanInts (text : List Char) : List ℤ := scanIntsWithin text.length text

/-! ### The walks -/

variable (fs : ProcFs)

/-- The children of the main thread, from one `read` into `char buf[4096]`. -/
def readChildren (pid : ℤ) : List ℤ :=
  match fs.children pid pid with
  | none => []
  | some text => (Strtok.tokens (fun c => c = ' ') (text.take 4095)).map atoi

/-- `is_descendant_pid`, for at most `n` levels. -/
def isDescendantPid : ℕ → ℤ → ℤ → Bool
  | 0, _, _ => false
  | n + 1, parent, target =>
    (readChildren fs parent).any fun child => child = target || isDescendantPid n child target

/-- `count_child_pids`. -/
def countChildPids (parent : ℤ) : ℕ := (readChildren fs parent).length

/-- What `kill_pids` does to a process. -/
inductive Blow where
  | kill (pid signal : ℤ)
  | system (command : List Char)
  deriving DecidableEq, Repr

/-- The end of `kill_pids`: the process itself gets the signal, and the command is run for it, from
`char buf[1024]`. -/
def blows (signal : ℤ) (cmd : Option (List Char)) (pid : ℤ) : List Blow :=
  (if 0 ≤ signal then [.kill pid signal] else []) ++
  match cmd with
  | none => []
  | some cmd => [.system ((cmd ++ ' ' :: decimal pid).take 1023)]

/-- `kill_pids`, for at most `n` levels. -/
def killPids (signal : ℤ) (cmd : Option (List Char)) : ℕ → ℤ → List Blow
  | 0, _ => []
  | n + 1, parent =>
    match fs.task parent with
    | none => []
    | some entries =>
      ((entries.filter fun name => name ≠ ['.'] ∧ name ≠ ['.', '.']).flatMap fun name =>
        match fs.children parent (atoi name) with
        | none => []
        | some text => (scanInts text).flatMap (killPids signal cmd n)) ++ blows signal cmd parent

/-! ### What the kernel knows -/

/-- Threads and the children they have started. -/
structure Threads where
  /-- The threads of a process; there are none if there is no such process. -/
  threads : ℤ → List ℤ
  started : ℤ → ℤ → List ℤ

namespace Threads

variable (t : Threads) (pid : ℤ)

/-- The children of a process. -/
def kids : List ℤ := (t.threads pid).flatMap (t.started pid)

/-- The children that the main thread has started. -/
def mainKids : List ℤ := if pid ∈ t.threads pid then t.started pid pid else []

end Threads

/-- The processes at one moment. -/
structure Processes extends Threads where
  /-- The main thread is there as long as the process is. -/
  main : ∀ pid, threads pid ≠ [] → pid ∈ threads pid
  /-- A child has not been reaped. -/
  alive : ∀ pid, ∀ c ∈ toThreads.kids pid, threads c ≠ []
  /-- Every process has one parent. -/
  forest : Forest toThreads.kids
  /-- The generations below a process. -/
  rank : ℤ → ℕ
  ranked : Descending toThreads.kids rank

/-- The kernel prints a number and a blank for each child. -/
def childrenText (pids : List ℤ) : List Char := pids.flatMap fun c => decimal c ++ [' ']

namespace Processes

variable {P : Processes} {pid parent target signal : ℤ} {cmd : Option (List Char)} {n : ℕ}

/-- How the kernel shows it. -/
def procFs (P : Processes) : ProcFs where
  task pid := if P.threads pid = [] then none
    else some (['.'] :: ['.', '.'] :: (P.threads pid).map decimal)
  children pid tid := if tid ∈ P.threads pid then some (childrenText (P.started pid tid)) else none

end Processes

/-! ### Reading what the kernel prints -/

theorem isspace_of_isDigit {c : Char} (h : c.isDigit = true) : isspace c = false := by
  have hne : ∀ d : Char, d.isDigit = false → c ≠ d := by
    rintro d hd rfl
    rw [h] at hd
    cases hd
  simp [isspace, hne ' ' rfl, hne '\t' rfl, hne '\n' rfl, hne '\x0b' rfl, hne '\x0c' rfl,
    hne '\r' rfl]

/-- A number between blanks. -/
theorem scanInt_decimal (lead : List Char) (hlead : ∀ c ∈ lead, isspace c = true) (z : ℤ)
    (rest : List Char) : scanInt.run (lead ++ (decimal z ++ ' ' :: rest)) = some (z, ' ' :: rest) := by
  have hskip : (lead ++ (decimal z ++ ' ' :: rest)).dropWhile isspace =
      (decimal z ++ ' ' :: rest).dropWhile isspace := List.dropWhile_append_of_pos hlead
  have hdigits : digits.run (Nat.toDigits 10 z.natAbs ++ ' ' :: rest) =
      some (z.natAbs, ' ' :: rest) := digits_toDigits z.natAbs (by simp)
  rw [StateT.run, scanInt, hskip]
  by_cases hz : z < 0
  · have hminus : isspace '-' = false := rfl
    rw [decimal_of_neg hz, List.cons_append, List.dropWhile_cons_of_neg (by simp [hminus])]
    change (digits.run (Nat.toDigits 10 z.natAbs ++ ' ' :: rest)).map _ = _
    rw [hdigits, Option.map_some]
    simp only [Option.some.injEq, Prod.mk.injEq, and_true]
    omega
  · obtain ⟨d, ds, hds, hd⟩ := toDigits_eq_cons z.natAbs
    have hne : ∀ c : Char, c.isDigit = false → d ≠ c := by
      rintro c hc rfl
      rw [hd] at hc
      cases hc
    rw [decimal_of_nonneg (not_lt.1 hz), hds, List.cons_append,
      List.dropWhile_cons_of_neg (by simp [isspace_of_isDigit hd])]
    rw [hds, List.cons_append] at hdigits
    split
    · rename_i h
      exact absurd (List.cons.inj h).1 (hne '-' rfl)
    · rename_i h
      exact absurd (List.cons.inj h).1 (hne '+' rfl)
    · rw [hdigits, Option.map_some]
      simp only [Option.some.injEq, Prod.mk.injEq, and_true]
      omega

/-- No number is left behind the last blank. -/
theorem scanInt_blank (lead : List Char) (hlead : ∀ c ∈ lead, isspace c = true) :
    scanInt.run lead = none := by
  rw [StateT.run, scanInt, List.dropWhile_eq_nil_iff.2 hlead]
  rfl

theorem scanIntsWithin_childrenText (pids : List ℤ) (lead : List Char)
    (hlead : ∀ c ∈ lead, isspace c = true) (hn : pids.length ≤ n) :
    scanIntsWithin n (lead ++ childrenText pids) = pids := by
  induction pids generalizing n lead with
  | nil =>
    cases n with
    | zero => rfl
    | succ n => rw [childrenText, List.flatMap_nil, List.append_nil, scanIntsWithin,
        scanInt_blank lead hlead, Option.elim_none]
  | cons z pids ih =>
    obtain ⟨n, rfl⟩ : ∃ m, n = m + 1 := ⟨n - 1, by simp only [List.length_cons] at hn; omega⟩
    have hrest : scanIntsWithin n ([' '] ++ childrenText pids) = pids :=
      ih [' '] (by simp [isspace]) (Nat.le_of_succ_le_succ hn)
    rw [childrenText, List.flatMap_cons, List.append_assoc, List.singleton_append, scanIntsWithin,
      scanInt_decimal lead hlead, Option.elim_some]
    exact congrArg (z :: ·) hrest

theorem length_le_childrenText (pids : List ℤ) : pids.length ≤ (childrenText pids).length := by
  induction pids with
  | nil => exact Nat.le_refl 0
  | cons z pids ih =>
    simp only [childrenText, List.flatMap_cons, List.length_append, List.length_cons,
      List.length_nil] at ih ⊢
    omega

/-- **`fscanf` reads the children back.** -/
theorem scanInts_childrenText (pids : List ℤ) : scanInts (childrenText pids) = pids := by
  have h := scanIntsWithin_childrenText pids [] (by simp) (length_le_childrenText pids)
  rwa [List.nil_append] at h

/-- **`strtok_r` and `atoi` read the children back** as well. -/
theorem tokens_childrenText (pids : List ℤ) :
    (Strtok.tokens (fun c => c = ' ') (childrenText pids)).map atoi = pids := by
  have hpieces : ∀ p ∈ pids.map decimal, p ≠ [] ∧ ∀ c ∈ p, decide (c = ' ') = false := by
    intro p hp
    obtain ⟨z, -, rfl⟩ := List.mem_map.1 hp
    refine ⟨decimal_ne_nil z, fun c hc => decide_eq_false ?_⟩
    rintro rfl
    exact notMem_decimal z rfl (by decide) hc
  have htext : childrenText pids = (pids.map decimal).flatMap (· ++ [' ']) := by
    rw [childrenText, List.flatMap_map]
  have htokens : Strtok.tokens (fun c => c = ' ') (childrenText pids) = pids.map decimal := by
    rw [htext]
    refine Strtok.tokens_flatMap ?_ hpieces
    exact decide_eq_true rfl
  rw [htokens, List.map_map]
  exact (List.map_congr_left fun z _ => atoi_decimal z).trans (List.map_id pids)

/-! ### Signals -/

namespace Processes

variable {P : Processes} {pid parent target signal : ℤ} {cmd : Option (List Char)} {n : ℕ}

theorem task_procFs (halive : P.threads pid ≠ []) :
    P.procFs.task pid = some (['.'] :: ['.', '.'] :: (P.threads pid).map decimal) := if_neg halive

/-- The names of the threads are what is left of the directory. -/
theorem filter_entries (tids : List ℤ) :
    (['.'] :: ['.', '.'] :: tids.map decimal).filter
      (fun name => name ≠ ['.'] ∧ name ≠ ['.', '.']) = tids.map decimal := by
  rw [List.filter_cons_of_neg (by simp), List.filter_cons_of_neg (by simp), List.filter_eq_self]
  intro name hname
  obtain ⟨z, -, rfl⟩ := List.mem_map.1 hname
  have hdot : '.' ∉ decimal z := notMem_decimal z rfl (by decide)
  refine decide_eq_true ⟨?_, ?_⟩
  · intro h
    exact hdot (by rw [h]; simp)
  · intro h
    exact hdot (by rw [h]; simp)

/-- One level of `kill_pids`. -/
theorem killPids_succ (halive : P.threads pid ≠ []) :
    killPids P.procFs signal cmd (n + 1) pid =
      (P.kids pid).flatMap (killPids P.procFs signal cmd n) ++ blows signal cmd pid := by
  rw [killPids, task_procFs halive]
  dsimp only
  rw [filter_entries, List.flatMap_map, Threads.kids, List.flatMap_assoc]
  refine congrArg (· ++ _) (List.flatMap_congr fun tid htid => ?_)
  have hfile : P.procFs.children pid (atoi (decimal tid)) =
      some (childrenText (P.started pid tid)) := by
    rw [atoi_decimal]
    exact if_pos htid
  rw [hfile]
  dsimp only
  rw [scanInts_childrenText]

/-- `kill_pids` goes through the processes in postorder. -/
theorem killPids_eq_postorder (halive : P.threads pid ≠ []) :
    killPids P.procFs signal cmd n pid = (postorder P.kids n pid).flatMap (blows signal cmd) := by
  induction n generalizing pid with
  | zero => rfl
  | succ n ih =>
    rw [killPids_succ halive, postorder, List.flatMap_append, List.flatMap_assoc,
      List.flatMap_singleton]
    exact congrArg (· ++ _) (List.flatMap_congr fun c hc => ih (P.alive pid c hc))

/-- **`kill_pids` reaches the process and everything below it**, through any thread; nobody is
signalled twice, and nobody before somebody below him. -/
theorem killPids_order (P : Processes) (halive : P.threads pid ≠ []) (hn : P.rank pid < n) :
    ∃ order : List ℤ, killPids P.procFs signal cmd n pid = order.flatMap (blows signal cmd) ∧
      (∀ x, x ∈ order ↔ ReflTransGen (Child P.kids) pid x) ∧ order.Nodup ∧
      order.Pairwise fun x y => ¬TransGen (Child P.kids) x y :=
  ⟨postorder P.kids n pid, killPids_eq_postorder halive, fun _ => mem_postorder P.ranked hn,
    nodup_postorder P.ranked P.forest hn, pairwise_postorder P.ranked P.forest hn⟩

/-- Everybody below is signalled. -/
theorem kill_mem_killPids (halive : P.threads pid ≠ []) (hn : P.rank pid < n) (hsignal : 0 ≤ signal)
    (h : ReflTransGen (Child P.kids) pid target) :
    .kill target signal ∈ killPids P.procFs signal cmd n pid := by
  rw [killPids_eq_postorder halive]
  refine List.mem_flatMap.2 ⟨target, (mem_postorder P.ranked hn).2 h, ?_⟩
  unfold blows
  rw [if_pos hsignal]
  exact List.mem_append_left _ List.mem_cons_self

/-- A process with two threads and a child of each; the child of the second has a child as well. -/
def threeGenerations : Processes where
  threads pid := if pid = 77 then [77, 78] else if pid = 79 ∨ pid = 80 ∨ pid = 81 then [pid]
    else []
  started pid tid := if pid = 77 ∧ tid = 77 then [81] else if pid = 77 ∧ tid = 78 then [79]
    else if pid = 79 ∧ tid = 79 then [80] else []
  main pid h := by
    split_ifs at h ⊢ with h₁ h₂
    · simp [h₁]
    · simp
    · exact absurd rfl h
  alive pid c hc := by
    simp only [Threads.kids, List.mem_flatMap] at hc
    obtain ⟨tid, -, hc⟩ := hc
    split_ifs at hc
    · obtain rfl := List.mem_singleton.1 hc
      decide
    · obtain rfl := List.mem_singleton.1 hc
      decide
    · obtain rfl := List.mem_singleton.1 hc
      decide
    · cases hc
  forest := by
    refine ⟨fun pid => ?_, fun a a' b ha ha' => ?_⟩
    · simp only [Threads.kids]
      split_ifs with h₁ h₂
      · subst h₁
        decide
      · obtain rfl | rfl | rfl := h₂
        · decide
        · decide
        · decide
      · exact List.nodup_nil
    · simp only [Threads.kids, List.mem_flatMap] at ha ha'
      obtain ⟨tid, -, ha⟩ := ha
      obtain ⟨tid', -, ha'⟩ := ha'
      split_ifs at ha ha'
      all_goals simp_all
  rank pid := if pid = 77 then 2 else if pid = 79 then 1 else 0
  ranked a b hb := by
    simp only [Threads.kids, List.mem_flatMap] at hb
    obtain ⟨tid, -, hb⟩ := hb
    split_ifs at hb with h₁ h₂ h₃
    · obtain rfl := List.mem_singleton.1 hb
      rw [h₁.1]
      decide
    · obtain rfl := List.mem_singleton.1 hb
      rw [h₂.1]
      decide
    · obtain rfl := List.mem_singleton.1 hb
      rw [h₃.1]
      decide
    · cases hb

/-- The grandchild before its parent, the process itself last. -/
theorem killPids_order_threeGenerations :
    killPids threeGenerations.procFs 18 none 3 77 =
      [.kill 81 18, .kill 80 18, .kill 79 18, .kill 77 18] ∧
    ∃ order : List ℤ, killPids threeGenerations.procFs 18 none 3 77 =
        order.flatMap (blows 18 none) ∧
      (∀ x, x ∈ order ↔ ReflTransGen (Child threeGenerations.kids) 77 x) ∧ order.Nodup ∧
      order.Pairwise fun x y => ¬TransGen (Child threeGenerations.kids) x y :=
  ⟨by decide +kernel, killPids_order threeGenerations (by decide) (by decide)⟩

/-! ### The main threads -/

/-- The list of children fits into the buffer. -/
def Fits (P : Processes) (pid : ℤ) : Prop := (childrenText (P.mainKids pid)).length ≤ 4095

theorem mem_kids_of_mem_mainKids {c : ℤ} (h : c ∈ P.mainKids pid) : c ∈ P.kids pid := by
  rw [Threads.mainKids] at h
  split_ifs at h with hmain
  · exact List.mem_flatMap.2 ⟨pid, hmain, h⟩
  · exact absurd h List.not_mem_nil

theorem ranked_mainKids (P : Processes) : Descending P.mainKids P.rank :=
  fun a b hb => P.ranked a b (mem_kids_of_mem_mainKids hb)

/-- What is below the main threads is below. -/
theorem below_of_main (h : ReflTransGen (Child P.mainKids) parent target) :
    ReflTransGen (Child P.kids) parent target :=
  h.lift id fun _ _ hc => mem_kids_of_mem_mainKids hc

theorem children_procFs :
    P.procFs.children pid pid =
      if pid ∈ P.threads pid then some (childrenText (P.mainKids pid)) else none := by
  rw [Threads.mainKids]
  by_cases hmain : pid ∈ P.threads pid
  · rw [if_pos hmain, if_pos hmain]
    exact if_pos hmain
  · rw [if_neg hmain]
    exact if_neg hmain

/-- What fits is read as a whole. -/
theorem readChildren_procFs (hfit : P.Fits pid) : readChildren P.procFs pid = P.mainKids pid := by
  rw [readChildren, children_procFs]
  by_cases hmain : pid ∈ P.threads pid
  · rw [if_pos hmain]
    dsimp only
    rw [List.take_of_length_le hfit, tokens_childrenText]
  · rw [if_neg hmain, Threads.mainKids, if_neg hmain]

theorem isDescendantPid_eq_below (fs : ProcFs) :
    isDescendantPid fs n parent target = below (readChildren fs) n parent target := by
  induction n generalizing parent with
  | zero => rfl
  | succ n ih =>
    rw [isDescendantPid, below]
    exact congrArg _ (funext fun c => by rw [ih])

/-- **`is_descendant_pid` decides who is below the main threads**, as long as each list that it has to
read fits into the buffer. -/
theorem isDescendantPid_iff (P : Processes) (hn : P.rank parent ≤ n)
    (hfit : ∀ x, ReflTransGen (Child P.mainKids) parent x → P.Fits x) :
    isDescendantPid P.procFs n parent target = true ↔
      TransGen (Child P.mainKids) parent target := by
  rw [isDescendantPid_eq_below, below_congr fun x hx => readChildren_procFs (hfit x hx)]
  exact below_iff P.ranked_mainKids hn

/-- **`count_child_pids` is zero only if there are none**, also if the list does not fit. -/
theorem countChildPids_eq_zero : countChildPids P.procFs pid = 0 ↔ P.mainKids pid = [] := by
  rw [countChildPids, readChildren, children_procFs, List.length_eq_zero_iff]
  by_cases hmain : pid ∈ P.threads pid
  · rw [if_pos hmain]
    dsimp only
    rw [List.map_eq_nil_iff]
    refine ⟨fun h => ?_, fun h => by rw [h]; rfl⟩
    cases hkids : P.mainKids pid with
    | nil => rfl
    | cons c cs =>
      -- the first character of the first number is read
      obtain ⟨d, ds, hd⟩ := List.exists_cons_of_ne_nil (decimal_ne_nil c)
      have hblank : d ≠ ' ' := by
        rintro rfl
        exact notMem_decimal c (c := ' ') rfl (by decide) (by rw [hd]; exact List.mem_cons_self)
      rw [hkids, childrenText, List.flatMap_cons, hd, List.cons_append, List.cons_append,
        List.take_succ_cons, Strtok.tokens, List.length_cons, Strtok.tokensWithin_succ] at h
      cases hnext : Strtok.next (fun c => decide (c = ' '))
          (d :: ((ds ++ [' ']) ++ cs.flatMap fun c => decimal c ++ [' ']).take 4094) with
      | none =>
        exact absurd (of_decide_eq_true (Strtok.next_eq_none.1 hnext d List.mem_cons_self)) hblank
      | some r =>
        rw [hnext] at h
        cases h
  · rw [if_neg hmain, Threads.mainKids, if_neg hmain]

end Processes

end Process

end TaskSpooler
