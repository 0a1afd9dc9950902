import TaskSpooler.Lib.Waiting
import TaskSpooler.Lib.Except
import TaskSpooler.Jobs.Running

/-!
# The clients that wait for a job

`check_notify_list` of a job that is over tells every socket that waits for it.  Afterwards it
destroys the job if it is not to be kept, but only if somebody was told and nobody is left who waits
for it (`checkNotifyList_eq`).
-/

namespace TaskSpooler

open Waiting

namespace Spool

variable {s s' : Spool} {jobid : ℤ} {j : Job} {l : List (ℤ × ℤ)}

/-- Tell the sockets of some entries that a job is over.  Each loses its first entry. -/
def tell (errorlevel : ℤ) (l : List (ℤ × ℤ)) (s : Spool) : Spool :=
  l.foldl (fun s n => (s.send n.1 (.waitjobOk errorlevel)).sRemoveNotification n.1) s

/-- Everyone who waits for the job has been told. -/
def toldOf (j : Job) (s : Spool) : Spool :=
  s.tell j.result.errorlevel (s.notifies.filter fun n => n.2 = j.jobid)

/-- Somebody waits for the job, and nobody waits for another one before. -/
def ServesAll (jobid : ℤ) (s : Spool) : Prop :=
  (∃ n ∈ s.notifies, n.2 = jobid) ∧ FirstFor jobid s.notifies

instance : Decidable (s.ServesAll jobid) := inferInstanceAs (Decidable (_ ∧ _))

@[simp] theorem toQueue_tell {r : ℤ} : (s.tell r l).toQueue = s.toQueue := by
  induction l generalizing s with
  | nil => rfl
  | cons n l ih => exact ih

@[simp] theorem notifies_tell {r : ℤ} : (s.tell r l).notifies = removeFirsts l s.notifies := by
  induction l generalizing s with
  | nil => rfl
  | cons n l ih => exact ih

theorem notifies_toldOf : (s.toldOf j).notifies = served j.jobid s.notifies := notifies_tell

/-- A waiter is told, and the job is destroyed if he was the last one. -/
theorem notifyWaiter_eq {n : ℤ × ℤ} (hget : s.getJob jobid = some j)
    (hover : j.state = .finished ∨ j.state = .skipped) :
    s.notifyWaiter jobid n.1 =
      if (∀ m ∈ (s.tell j.result.errorlevel [n]).notifies, m.2 ≠ jobid) ∧
          j.shouldKeepFinished = false then
        (s.tell j.result.errorlevel [n]).destroyFinishedJob jobid
      else .ok (s.tell j.result.errorlevel [n]) := by
  have htell : s.tell j.result.errorlevel [n] =
      (s.send n.1 (.waitjobOk j.result.errorlevel)).sRemoveNotification n.1 := rfl
  simp only [notifyWaiter, hget, if_pos hover, htell, List.any_eq_false, decide_eq_true_eq, ne_eq]

theorem tell_cons {r : ℤ} {n : ℤ × ℤ} : s.tell r (n :: l) = (s.tell r [n]).tell r l := rfl

/-- Nobody is the last one while an entry remains in the end. -/
theorem notifyAll_told (hget : s.getJob jobid = some j)
    (hover : j.state = .finished ∨ j.state = .skipped)
    (hleft : j.shouldKeepFinished = true ∨ ∃ n ∈ removeFirsts l s.notifies, n.2 = jobid) :
    l.foldlM (fun s n => s.notifyWaiter jobid n.1) s = .ok (s.tell j.result.errorlevel l) := by
  induction l generalizing s with
  | nil => rfl
  | cons n l ih =>
    have hnot : ¬((∀ m ∈ (s.tell j.result.errorlevel [n]).notifies, m.2 ≠ jobid) ∧
        j.shouldKeepFinished = false) := by
      rintro ⟨hnone, hdrop⟩
      obtain hkeep | ⟨m, hm, hk⟩ := hleft
      · rw [hkeep] at hdrop
        cases hdrop
      · exact hnone m (removeFirsts_sublist.subset hm) hk
    rw [List.foldlM_cons, notifyWaiter_eq hget hover, if_neg hnot, tell_cons]
    exact ih hget hleft

/-- The last one is the one that is told last. -/
theorem notifyAll_last (hget : s.getJob jobid = some j)
    (hover : j.state = .finished ∨ j.state = .skipped) (hdrop : j.shouldKeepFinished = false)
    (hne : l ≠ []) (hlen : l.length ≤ s.notifies.countP fun n => n.2 = jobid)
    (hnone : ∀ n ∈ removeFirsts l s.notifies, n.2 ≠ jobid) :
    l.foldlM (fun s n => s.notifyWaiter jobid n.1) s =
      (s.tell j.result.errorlevel l).destroyFinishedJob jobid := by
  induction l generalizing s with
  | nil => exact absurd rfl hne
  | cons n l ih =>
    rw [List.foldlM_cons, notifyWaiter_eq hget hover]
    cases l with
    | nil =>
      rw [if_pos ⟨hnone, hdrop⟩]
      cases (s.tell j.result.errorlevel [n]).destroyFinishedJob jobid <;> rfl
    | cons m l =>
      -- one entry of the socket is removed, which need not be the one that is visited
      have hcount := countP_le_eraseP (fun m : ℤ × ℤ => m.1 = n.1) (fun m : ℤ × ℤ => m.2 = jobid)
        s.notifies
      have hlen' : (m :: l).length ≤
          (s.tell j.result.errorlevel [n]).notifies.countP fun n => n.2 = jobid := by
        show (m :: l).length ≤ (s.notifies.eraseP fun m => m.1 = n.1).countP _
        rw [List.length_cons] at hlen
        omega
      have hnot : ¬∀ m ∈ (s.tell j.result.errorlevel [n]).notifies, m.2 ≠ jobid := by
        intro hnone'
        have hzero : (s.tell j.result.errorlevel [n]).notifies.countP (fun n => n.2 = jobid) = 0 :=
          List.countP_eq_zero.2 fun x hx => by simpa using hnone' x hx
        rw [hzero] at hlen'
        exact absurd hlen' (by simp)
      rw [if_neg fun h => hnot h.1, tell_cons]
      exact ih hget (List.cons_ne_nil m l) hlen' hnone

/-- **What `check_notify_list` does for a job that is over.** -/
theorem checkNotifyList_eq (hget : s.getJob j.jobid = some j)
    (hover : j.state = .finished ∨ j.state = .skipped) :
    s.checkNotifyList j.jobid =
      if s.ServesAll j.jobid ∧ j.shouldKeepFinished = false then
        (s.toldOf j).destroyFinishedJob j.jobid
      else .ok (s.toldOf j) := by
  rw [checkNotifyList]
  split_ifs with hlast
  · obtain ⟨⟨⟨n, hn, hk⟩, hfirst⟩, hdrop⟩ := hlast
    refine notifyAll_last hget hover hdrop ?_ ?_ ?_
    · exact List.ne_nil_of_mem (List.mem_filter.2 ⟨hn, by simpa using hk⟩)
    · rw [List.countP_eq_length_filter]
    · exact fun m hm => ((mem_served hfirst).1 hm).2
  · by_cases hwait : ∃ n ∈ s.notifies, n.2 = j.jobid
    · refine notifyAll_told hget hover ?_
      by_cases hkeep : j.shouldKeepFinished = true
      · exact .inl hkeep
      · refine .inr (exists_served_iff.2 fun hfirst => hlast ⟨⟨hwait, hfirst⟩, ?_⟩)
        simpa using hkeep
    · have hnil : s.notifies.filter (fun n => n.2 = j.jobid) = [] :=
        List.filter_eq_nil_iff.2 fun n hn => by simpa using fun hk => hwait ⟨n, hn, hk⟩
      rw [toldOf, hnil]
      rfl

end Spool

end TaskSpooler
