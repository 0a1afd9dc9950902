import TaskSpooler.Jobs.Basic
import TaskSpooler.Lib.Ranked

/-!
# The tables

`Table.order` is what the order of the queue depends on: the column `order_id` of each job.  The
lemmas say what the statements of `sqlite.c` do to it, and which rows there are.
-/

namespace TaskSpooler

namespace Table

variable {t t' : Table} {k j : ℤ} {r : Row} {f : Row → Row}

/-- The job ids of the rows. -/
def keys (t : Table) : List ℤ := t.rows.map fun r => r.job.jobid

/-- The column `order_id` of a job. -/
def order (t : Table) (k : ℤ) : Option ℤ := (t.find? k).map Row.orderId

theorem mem_keys : k ∈ t.keys ↔ ∃ r ∈ t.rows, r.job.jobid = k := List.mem_map

theorem find?_eq_some : t.find? k = some r ↔ r ∈ t.rows ∧ r.job.jobid = k := by
  constructor
  · intro h
    exact ⟨List.mem_of_find?_eq_some h, by simpa using List.find?_some h⟩
  · rintro ⟨hr, rfl⟩
    exact Keyed.lookup_of_mem (c := fun r : Row => r.job.jobid) t.nodup hr

theorem isSome_order : (t.order k).isSome ↔ k ∈ t.keys := by
  rw [order, Option.isSome_map]
  exact Keyed.isSome_lookup (c := fun r : Row => r.job.jobid)

theorem order_eq_some {n : ℤ} : t.order k = some n ↔
    ∃ r ∈ t.rows, r.job.jobid = k ∧ r.orderId = n := by
  rw [order, Option.map_eq_some_iff]
  constructor
  · rintro ⟨r, hr, rfl⟩
    exact ⟨r, (find?_eq_some.1 hr).1, (find?_eq_some.1 hr).2, rfl⟩
  · rintro ⟨r, hr, hk, rfl⟩
    exact ⟨r, find?_eq_some.2 ⟨hr, hk⟩, rfl⟩

/-! ### `UPDATE` -/

theorem mem_update : r ∈ (t.update k f).rows ↔ ∃ r₀ ∈ t.rows, r =
    if r₀.job.jobid = k then { f r₀ with job := { (f r₀).job with jobid := r₀.job.jobid } }
    else r₀ := by
  simp only [update, List.mem_map]
  exact exists_congr fun r₀ => and_congr_right fun _ => eq_comm

theorem order_update (hf : ∀ r, (f r).orderId = r.orderId) : (t.update k f).order = t.order := by
  funext j
  refine Option.ext fun n => ?_
  show (t.update k f).order j = some n ↔ t.order j = some n
  rw [order_eq_some, order_eq_some]
  constructor
  · rintro ⟨r, hr, hj, hn⟩
    obtain ⟨r₀, hr₀, rfl⟩ := mem_update.1 hr
    refine ⟨r₀, hr₀, ?_⟩
    split_ifs at hj hn
    · exact ⟨hj, (hf r₀).symm.trans hn⟩
    · exact ⟨hj, hn⟩
  · rintro ⟨r₀, hr₀, hj, hn⟩
    refine ⟨_, mem_update.2 ⟨r₀, hr₀, rfl⟩, ?_⟩
    split_ifs
    · exact ⟨hj, (hf r₀).trans hn⟩
    · exact ⟨hj, hn⟩

theorem order_setOrder {n : ℤ} : (t.update k fun r => { r with orderId := n }).order = fun j =>
    (t.order j).map fun m => if j = k then n else m := by
  funext j
  refine Option.ext fun m => ?_
  show (t.update k _).order j = some m ↔ (t.order j).map _ = some m
  rw [order_eq_some, Option.map_eq_some_iff]
  constructor
  · rintro ⟨r, hr, rfl, rfl⟩
    obtain ⟨r₀, hr₀, rfl⟩ := mem_update.1 hr
    refine ⟨r₀.orderId, order_eq_some.2 ⟨r₀, hr₀, ?_, rfl⟩, ?_⟩
    · split_ifs <;> rfl
    · by_cases h₀ : r₀.job.jobid = k
      · simp only [if_pos h₀]
      · simp only [if_neg h₀]
  · rintro ⟨x, hx, rfl⟩
    obtain ⟨r₀, hr₀, rfl, rfl⟩ := order_eq_some.1 hx
    refine ⟨_, mem_update.2 ⟨r₀, hr₀, rfl⟩, ?_⟩
    split_ifs
    · exact ⟨rfl, rfl⟩
    · exact ⟨rfl, rfl⟩

/-! ### `DELETE`, `INSERT` -/

theorem keys_delete : (t.delete k).keys = t.keys.filter (· ≠ k) := by
  rw [keys, keys, List.filter_map]
  rfl

theorem order_delete : (t.delete k).order = fun j => if j = k then none else t.order j := by
  funext j
  refine Option.ext fun n => ?_
  show (t.delete k).order j = some n ↔ (if j = k then none else t.order j) = some n
  rw [order_eq_some]
  simp only [delete, List.mem_filter, decide_eq_true_eq]
  split_ifs with hj
  · subst hj
    simp only [iff_false]
    rintro ⟨r, ⟨-, hne⟩, hj, -⟩
    exact hne hj
  · rw [order_eq_some]
    constructor
    · rintro ⟨r, ⟨hr, -⟩, h⟩
      exact ⟨r, hr, h⟩
    · rintro ⟨r, hr, rfl, hn⟩
      exact ⟨r, ⟨hr, hj⟩, rfl, hn⟩

theorem insert_eq_some (h : t.insert r = some t') : r.job.jobid ∉ t.keys ∧ t'.rows = t.rows ++ [r] := by
  rw [insert] at h
  split_ifs at h with hk
  cases h
  exact ⟨hk, rfl⟩

theorem exists_insert (h : r.job.jobid ∉ t.keys) : ∃ t', t.insert r = some t' := by
  have h' : r.job.jobid ∉ t.rows.map fun r => r.job.jobid := h
  rw [insert, dif_neg h']
  exact ⟨_, rfl⟩

theorem insert_of_mem (h : r.job.jobid ∈ t.keys) : t.insert r = none := by
  have h' : r.job.jobid ∈ t.rows.map fun r => r.job.jobid := h
  rw [insert, dif_pos h']

theorem keys_of_append (h : t'.rows = t.rows ++ [r]) : t'.keys = t.keys ++ [r.job.jobid] := by
  rw [keys, keys, h, List.map_append, List.map_singleton]

theorem order_of_append (hk : r.job.jobid ∉ t.keys) (h : t'.rows = t.rows ++ [r]) :
    t'.order = fun j => if j = r.job.jobid then some r.orderId else t.order j := by
  funext j
  refine Option.ext fun n => ?_
  show t'.order j = some n ↔ (if j = r.job.jobid then some r.orderId else t.order j) = some n
  rw [order_eq_some, h]
  simp only [List.mem_append, List.mem_singleton]
  split_ifs with hj
  · constructor
    · rintro ⟨r', hr' | rfl, hid, hn⟩
      · exact absurd (mem_keys.2 ⟨r', hr', hid.trans hj⟩) hk
      · exact congrArg some hn
    · exact fun hn => ⟨r, .inr rfl, hj.symm, Option.some.inj hn⟩
  · rw [order_eq_some]
    constructor
    · rintro ⟨r', hr' | rfl, hid, hn⟩
      · exact ⟨r', hr', hid, hn⟩
      · exact absurd hid.symm hj
    · rintro ⟨r', hr', h⟩
      exact ⟨r', .inl hr', h⟩

theorem rows_replace : (t.replace r).rows = (t.delete r.job.jobid).rows ++ [r] := by
  have hk : r.job.jobid ∉ (t.delete r.job.jobid).keys := by
    rw [keys_delete]
    simp
  obtain ⟨t', ht'⟩ := exists_insert hk
  rw [replace, ht', Option.getD_some]
  exact (insert_eq_some ht').2

theorem order_replace : (t.replace r).order = fun j =>
    if j = r.job.jobid then some r.orderId else t.order j := by
  have hk : r.job.jobid ∉ (t.delete r.job.jobid).keys := by
    rw [keys_delete]
    simp
  rw [order_of_append hk rows_replace, order_delete]
  funext j
  dsimp only
  split_ifs <;> rfl

/-! ### The largest and the smallest order -/

theorem le_max (h : t.order k = some j) : j ≤ (t.rows.map Row.orderId).max?.getD 0 := by
  obtain ⟨r, hr, -, rfl⟩ := order_eq_some.1 h
  have hmem : r.orderId ∈ t.rows.map Row.orderId := List.mem_map_of_mem hr
  cases hmax : (t.rows.map Row.orderId).max? with
  | none =>
    rw [List.max?_eq_none_iff] at hmax
    rw [hmax] at hmem
    exact absurd hmem List.not_mem_nil
  | some m => exact (List.max?_eq_some_iff.1 hmax).2 _ hmem

theorem min_le (h : t.order k = some j) : (t.rows.map Row.orderId).min?.getD 0 ≤ j := by
  obtain ⟨r, hr, -, rfl⟩ := order_eq_some.1 h
  have hmem : r.orderId ∈ t.rows.map Row.orderId := List.mem_map_of_mem hr
  cases hmin : (t.rows.map Row.orderId).min? with
  | none =>
    rw [List.min?_eq_none_iff] at hmin
    rw [hmin] at hmem
    exact absurd hmem List.not_mem_nil
  | some m => exact (List.min?_eq_some_iff.1 hmin).2 _ hmem

end Table

end TaskSpooler
