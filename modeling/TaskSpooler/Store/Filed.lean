import TaskSpooler.Store.Entries

/-!
# Books that agree

Two invariants of the books.

* `Ledger.Filed`: every active job has a row in `Jobs`, no id is in both tables, and the saved
  counter is above all ids.
* `Ledger.Mirrored`: the rows of `Jobs` are those of the active jobs, in the order of the queue.

Every entry keeps them (`Filed.apply`, `Mirrored.apply`), but for a new job with an id that is filed
already, a job that is lost without its row, and `s_sort_jobs`.
-/

namespace TaskSpooler

/-- A new job has an id that is not filed. -/
def Entry.Unfiled (b : Ledger) : Entry → Prop
  | .insert k _ _ => 0 < k ∧ k ∉ b.filed
  | _ => True

/-- The job keeps its row when it leaves the queue. -/
def Entry.Loses : Entry → Prop
  | .lose _ => True
  | _ => False

namespace Ledger

variable {b : Ledger} {a : Entry} {k : ℤ}

/-- The tables and the counters agree with each other. -/
structure Filed (b : Ledger) : Prop where
  nodup : b.active.Nodup
  rows : ∀ k ∈ b.active, (b.order k).isSome
  apart : ∀ k, (b.order k).isSome → k ∉ b.filed
  shelf_nodup : b.shelf.Nodup
  shelf : b.shelf ⊆ b.filed
  known : ∀ k, (b.order k).isSome ∨ k ∈ b.filed → 0 < k ∧ k < b.dbJobids
  counter : b.dbJobids ≤ b.jobids
  pos : 0 < b.dbJobids

/-- The queue is mirrored in the table `Jobs`. -/
def Mirrored (b : Ledger) : Prop := Ranked b.order b.active

/-! ### The tables -/

theorem isSome_setOrder {n j : ℤ} : (b.setOrder k n j).isSome = (b.order j).isSome :=
  Option.isSome_map

theorem isSome_scrubOrder {j : ℤ} : (b.scrubOrder k j).isSome ↔ j ≠ k ∧ (b.order j).isSome := by
  rw [scrubOrder]
  split_ifs with h <;> simp [h]

theorem isSome_writeOrder {n j : ℤ} :
    (b.writeOrder k n j).isSome ↔ j = k ∨ (b.order j).isSome := by
  rw [writeOrder]
  split_ifs with h <;> simp [h]

theorem isSome_swapOrder {i j : ℤ} (hi : (b.order i).isSome) (hj : (b.order j).isSome) :
    (b.order (Equiv.swap i j k)).isSome ↔ (b.order k).isSome := by
  by_cases hk : k = i
  · subst hk
    rw [Equiv.swap_apply_left]
    exact ⟨fun _ => hi, fun _ => hj⟩
  · by_cases hk' : k = j
    · subst hk'
      rw [Equiv.swap_apply_right]
      exact ⟨fun _ => hj, fun _ => hi⟩
    · rw [Equiv.swap_apply_of_ne_of_ne hk hk']

theorem Filed.apart_active (h : b.Filed) (hk : k ∈ b.active) : k ∉ b.filed :=
  h.apart k (h.rows k hk)

/-- The next job id is not filed. -/
theorem Filed.jobids_notMem (h : b.Filed) : b.jobids ∉ b.filed := fun hmem =>
  absurd (h.known _ (.inr hmem)).2 (not_lt.2 h.counter)

/-- The books agree after a change that keeps the rows, the filed jobs and the counters. -/
theorem Filed.of_rows {b' : Ledger} (h : b.Filed) (hnd : b'.active.Nodup)
    (hactive : b'.active ⊆ b.active) (hrows : ∀ k, (b'.order k).isSome ↔ (b.order k).isSome)
    (hshelf : b'.shelf.Sublist b.shelf) (hfiled : b'.filed = b.filed)
    (hjobids : b.jobids ≤ b'.jobids) (hdb : b'.dbJobids = b.dbJobids) : b'.Filed where
  nodup := hnd
  rows k hk := (hrows k).2 (h.rows k (hactive hk))
  apart k hk := hfiled ▸ h.apart k ((hrows k).1 hk)
  shelf_nodup := h.shelf_nodup.sublist hshelf
  shelf k hk := hfiled ▸ h.shelf (hshelf.subset hk)
  known k hk := by
    rw [hrows, hfiled] at hk
    rw [hdb]
    exact h.known k hk
  counter := by
    rw [hdb]
    exact h.counter.trans hjobids
  pos := h.pos.trans_eq hdb.symm

theorem nodup_filter_append (h : b.active.Nodup) : (b.active.filter (· ≠ k) ++ [k]).Nodup := by
  refine List.nodup_append.2 ⟨h.filter _, List.nodup_singleton _, ?_⟩
  rintro x hx y hy rfl
  rw [List.mem_singleton] at hy
  subst hy
  simp at hx

theorem Filed.delete (h : b.Filed) : ((Entry.delete k).apply b).Filed where
  nodup := h.nodup.filter _
  rows j hj := by
    rw [Entry.apply, List.mem_filter, decide_eq_true_eq] at hj
    exact isSome_scrubOrder.2 ⟨hj.2, h.rows j hj.1⟩
  apart j hj := h.apart j (isSome_scrubOrder.1 hj).2
  shelf_nodup := h.shelf_nodup
  shelf := h.shelf
  known j hj := h.known j (hj.imp (fun hj => (isSome_scrubOrder.1 hj).2) id)
  counter := h.counter
  pos := h.pos

theorem Filed.finish {l : List ℤ} (h : b.Filed) (hk : k ∈ b.active) (hl : l.Sublist b.shelf) :
    ((Entry.finish k l).apply b).Filed := by
  have hfree := h.apart_active hk
  have happly : (Entry.finish k l).apply b =
      { b with
        active := b.active.filter (· ≠ k)
        shelf := l ++ [k]
        filed := b.filed ++ [k]
        order := b.scrubOrder k } := by
    simp only [Entry.apply, if_neg hfree]
  rw [happly]
  refine ⟨h.nodup.filter _, fun j hj => ?_, fun j hj => ?_, ?_, ?_, fun j hj => ?_, h.counter,
    h.pos⟩
  · rw [List.mem_filter, decide_eq_true_eq] at hj
    exact isSome_scrubOrder.2 ⟨hj.2, h.rows j hj.1⟩
  · obtain ⟨hne, hj⟩ := isSome_scrubOrder.1 hj
    rw [List.mem_append, List.mem_singleton, not_or]
    exact ⟨h.apart j hj, hne⟩
  · refine List.nodup_append.2 ⟨h.shelf_nodup.sublist hl, List.nodup_singleton _, ?_⟩
    rintro x hx y hy rfl
    rw [List.mem_singleton] at hy
    subst hy
    exact hfree (h.shelf (hl.subset hx))
  · exact List.append_subset.2 ⟨fun x hx => List.mem_append_left _ (h.shelf (hl.subset hx)),
      List.subset_append_right _ _⟩
  · refine h.known j ?_
    obtain hj | hj := hj
    · exact .inl (isSome_scrubOrder.1 hj).2
    · rw [List.mem_append, List.mem_singleton] at hj
      obtain hj | rfl := hj
      · exact .inr hj
      · exact .inl (h.rows j hk)

theorem Filed.insert {n next : ℤ} (h : b.Filed) (hg : (Entry.insert k n next).Guard b)
    (hpos : 0 < k) (hk : k ∉ b.filed) : ((Entry.insert k n next).apply b).Filed := by
  obtain ⟨hnew, hle, hlt, -⟩ := hg
  have hrows : ∀ j, (((Entry.insert k n next).apply b).order j).isSome ↔
      j = k ∨ (b.order j).isSome := by
    intro j
    simp only [Entry.apply]
    split_ifs with hsome
    · exact ⟨.inr, fun hj => hj.elim (fun hj => hj ▸ hsome) id⟩
    · exact isSome_writeOrder
  have hnext : b.dbJobids ≤ next := h.counter.trans hle
  refine ⟨?_, fun j hj => ?_, fun j hj => ?_, h.shelf_nodup, h.shelf, fun j hj => ?_, le_refl _,
    h.pos.trans_le hnext⟩
  · refine List.nodup_append.2 ⟨h.nodup, List.nodup_singleton _, ?_⟩
    rintro x hx y hy rfl
    exact hnew (List.mem_singleton.1 hy ▸ hx)
  · rw [Entry.apply, List.mem_append, List.mem_singleton] at hj
    rw [hrows]
    exact hj.symm.imp id (h.rows j)
  · rw [hrows] at hj
    obtain rfl | hj := hj
    · exact hk
    · exact h.apart j hj
  · have hcase : j = k ∨ ((b.order j).isSome ∨ j ∈ b.filed) := by
      rw [hrows, or_assoc] at hj
      exact hj
    show 0 < j ∧ j < next
    obtain rfl | hj := hcase
    · exact ⟨hpos, hlt⟩
    · exact ⟨(h.known j hj).1, (h.known j hj).2.trans_le hnext⟩

theorem Filed.swap {i : ℤ} (h : b.Filed) (hi : i ∈ b.active) (hk : k ∈ b.active) :
    ((Entry.swap i k).apply b).Filed := by
  have hsome := And.intro (h.rows i hi) (h.rows k hk)
  refine h.of_rows (h.nodup.map (Equiv.injective _)) (fun j hj => ?_) (fun j => ?_)
    (List.Sublist.refl _) rfl (le_refl _) rfl
  · obtain ⟨x, hx, rfl⟩ := List.mem_map.1 hj
    by_cases hxi : x = i
    · rw [hxi, Equiv.swap_apply_left]
      exact hk
    · by_cases hxk : x = k
      · rw [hxk, Equiv.swap_apply_right]
        exact hi
      · rwa [Equiv.swap_apply_of_ne_of_ne hxi hxk]
  · simp only [Entry.apply, if_pos hsome]
    exact isSome_swapOrder hsome.1 hsome.2

theorem Filed.unfile {l ks : List ℤ} (h : b.Filed) (hperm : (l ++ ks).Perm b.shelf) :
    ((Entry.unfile l ks).apply b).Filed := by
  have hnd := List.nodup_append.1 (hperm.nodup_iff.2 h.shelf_nodup)
  refine ⟨h.nodup, h.rows, fun j hj hf => h.apart j hj (List.mem_filter.1 hf).1, hnd.1,
    fun j hj => ?_, fun j hj => h.known j (hj.imp id fun hf => (List.mem_filter.1 hf).1), h.counter,
    h.pos⟩
  refine List.mem_filter.2 ⟨h.shelf (hperm.subset (List.mem_append_left _ hj)), ?_⟩
  exact decide_eq_true fun hks => hnd.2.2 j hj j hks rfl

/-- **The entries keep the books in agreement.** -/
theorem Filed.apply (h : b.Filed) (hg : a.Guard b) (hnew : a.Unfiled b) :
    (a.apply b).Filed := by
  cases a with
  | bottom k n =>
    refine h.of_rows (nodup_filter_append h.nodup) (fun j hj => ?_) (fun j => ?_)
      (List.Sublist.refl _) rfl (le_refl _) rfl
    · obtain hj | hj := List.mem_append.1 hj
      · exact (List.mem_filter.1 hj).1
      · exact List.mem_singleton.1 hj ▸ hg.1
    · exact Bool.eq_iff_iff.1 isSome_setOrder
  | top k n =>
    refine h.of_rows (List.nodup_cons.2 ⟨by simp, h.nodup.filter _⟩) (fun j hj => ?_) (fun j => ?_)
      (List.Sublist.refl _) rfl (le_refl _) rfl
    · obtain rfl | hj := List.mem_cons.1 hj
      · exact hg.1
      · exact (List.mem_filter.1 hj).1
    · exact Bool.eq_iff_iff.1 isSome_setOrder
  | swap i k => exact h.swap hg.1 hg.2
  | sort l =>
    exact h.of_rows (hg.2.nodup_iff.2 h.nodup) hg.2.subset (fun _ => Iff.rfl) (List.Sublist.refl _)
      rfl (le_refl _) rfl
  | write k n =>
    refine h.of_rows h.nodup (List.Subset.refl _) (fun j => ?_) (List.Sublist.refl _) rfl
      (le_refl _) rfl
    rw [Entry.apply, isSome_writeOrder]
    exact or_iff_right_of_imp fun hj => hj ▸ h.rows k hg.1
  | insert k n next => exact h.insert hg hnew.1 hnew.2
  | count n =>
    exact h.of_rows h.nodup (List.Subset.refl _) (fun _ => Iff.rfl) (List.Sublist.refl _) rfl hg rfl
  | renew =>
    refine ⟨h.nodup, h.rows, h.apart, h.shelf_nodup, h.shelf, fun j hj => ?_, le_refl _,
      h.pos.trans_le h.counter⟩
    exact ⟨(h.known j hj).1, (h.known j hj).2.trans_le h.counter⟩
  | lose k =>
    exact h.of_rows (h.nodup.filter _) (List.filter_subset_self _) (fun _ => Iff.rfl)
      (List.Sublist.refl _) rfl (le_refl _) rfl
  | delete k => exact h.delete
  | finish k l => exact h.finish hg.1 hg.2
  | scrub k =>
    refine ⟨h.nodup, fun j hj => ?_, fun j hj => h.apart j (isSome_scrubOrder.1 hj).2, h.shelf_nodup,
      h.shelf, fun j hj => h.known j (hj.imp (fun hj => (isSome_scrubOrder.1 hj).2) id), h.counter,
      h.pos⟩
    exact isSome_scrubOrder.2 ⟨fun hjk => hg (hjk ▸ hj), h.rows j hj⟩
  | forget l =>
    exact h.of_rows h.nodup (List.Subset.refl _) (fun _ => Iff.rfl) hg rfl (le_refl _) rfl
  | unfile l ks => exact h.unfile hg

/-! ### The order of the queue -/

theorem setOrder_eq {n : ℤ} (hk : (b.order k).isSome) :
    b.setOrder k n = fun j => if j = k then some n else b.order j := by
  funext j
  rw [setOrder]
  obtain ⟨m, hm⟩ := Option.isSome_iff_exists.1 hk
  split_ifs with hj
  · rw [hj, hm, Option.map_some]
  · simp

/-- **The entries keep the queue mirrored**, without `s_sort_jobs` and jobs that lose their row. -/
theorem Mirrored.apply (h : b.Mirrored) (hf : b.Filed) (hg : a.Guard b) (hnew : a.Unfiled b)
    (hsort : b.sorts = false) (hlose : ¬a.Loses) : (a.apply b).Mirrored := by
  cases a with
  | bottom k n =>
    rw [Mirrored, Entry.apply, setOrder_eq (hf.rows k hg.1)]
    exact Ranked.last h hg.2
  | top k n =>
    rw [Mirrored, Entry.apply, setOrder_eq (hf.rows k hg.1)]
    exact Ranked.first h hg.2
  | swap i k =>
    rw [Mirrored, Entry.apply, if_pos ⟨hf.rows i hg.1, hf.rows k hg.2⟩]
    exact Ranked.swap h i k
  | sort l =>
    exact absurd (hsort.symm.trans hg.1) Bool.false_ne_true
  | write k n =>
    obtain ⟨x, hx⟩ := Option.isSome_iff_exists.1 (hf.rows k hg.1)
    have hsame : b.writeOrder k n = b.order := by
      funext j
      rw [writeOrder]
      split_ifs with hj
      · rw [hj, hx, hg.2 x hx]
      · rfl
    rw [Mirrored, Entry.apply, hsame]
    exact h
  | insert k n next =>
    obtain ⟨hnot, -, -, habove⟩ := hg
    have hnone : b.order k = none := Ranked.rank_eq_none h hnot
    have hlast := Ranked.last (k := k) h habove
    rw [Ranked.filter_ne_of_notMem hnot] at hlast
    rw [Mirrored, Entry.apply, hnone]
    exact hlast
  | count n | renew | forget l | unfile l ks => exact h
  | lose k => exact absurd trivial hlose
  | delete k => exact Ranked.delete h
  | finish k l =>
    rw [Mirrored, Entry.apply, if_neg (hf.apart_active hg.1)]
    exact Ranked.delete h
  | scrub k =>
    have hdel := Ranked.delete (k := k) h
    rw [Ranked.filter_ne_of_notMem hg] at hdel
    exact hdel

end Ledger

end TaskSpooler
