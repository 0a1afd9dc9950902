import TaskSpooler.CpuBind.Nodes

/-!
# The three representations of the allocator agree

`Placed T p as` says that the owner array, both levels of free counters and the `os_cpus` lists of
the allocations `as` describe the same situation.  Handing CPUs to one more job and taking back
the CPUs of one job keep it, so that allocation (`acquire_cases`) and release (`cpuBindFree_ok`)
keep the invariant `Bind.Ok` of the allocator.
-/

namespace TaskSpooler

namespace CpuBind

open Pool

variable {T : Topology} {p : Pool} {as : List CpuAlloc} {a : CpuAlloc} {cpus : List ℕ}

/-- The pool records exactly the allocations `as`. -/
structure Placed (T : Topology) (p : Pool) (as : List CpuAlloc) : Prop where
  counted : p.Counted T
  owner_nonneg : ∀ c, 0 ≤ p.owner c
  owner_iff : ∀ c j, 0 < j → (p.owner c = j ↔ ∃ a ∈ as, a.jobid = j ∧ c ∈ a.osCpus)
  nodup : ∀ a ∈ as, a.osCpus.Nodup
  known : ∀ a ∈ as, ∀ c ∈ a.osCpus, ∃ g, c ∈ (T.group g).osCpus
  nonempty : ∀ a ∈ as, a.osCpus ≠ []
  jobid_pos : ∀ a ∈ as, 0 < a.jobid
  jobs_nodup : (as.map CpuAlloc.jobid).Nodup
  /-- What is not free is in an allocation. -/
  balance : Bind.totalFree T p + (as.map fun a => (a.osCpus.length : ℤ)).sum =
    Bind.totalFree T (fresh T)

namespace Placed

theorem fresh (T : Topology) : Placed T (Pool.fresh T) [] where
  counted := counted_fresh T
  owner_nonneg _ := le_rfl
  owner_iff c j hj := by
    simp only [Pool.fresh, List.not_mem_nil, false_and, exists_false, iff_false]
    omega
  nodup _ h := absurd h List.not_mem_nil
  known _ h := absurd h List.not_mem_nil
  nonempty _ h := absurd h List.not_mem_nil
  jobid_pos _ h := absurd h List.not_mem_nil
  jobs_nodup := List.nodup_nil
  balance := by simp

theorem perm {as' : List CpuAlloc} (h : Placed T p as) (hp : as.Perm as') : Placed T p as' where
  counted := h.counted
  owner_nonneg := h.owner_nonneg
  owner_iff c j hj := by simp only [h.owner_iff c j hj, hp.mem_iff]
  nodup a ha := h.nodup a (hp.mem_iff.2 ha)
  known a ha := h.known a (hp.mem_iff.2 ha)
  nonempty a ha := h.nonempty a (hp.mem_iff.2 ha)
  jobid_pos a ha := h.jobid_pos a (hp.mem_iff.2 ha)
  jobs_nodup := (hp.map _).nodup_iff.1 h.jobs_nodup
  balance := by rw [← h.balance, (hp.map _).sum_eq]

theorem owner_of_mem {c : ℕ} (h : Placed T p as) (ha : a ∈ as) (hc : c ∈ a.osCpus) :
    p.owner c = a.jobid :=
  (h.owner_iff c a.jobid (h.jobid_pos a ha)).2 ⟨a, ha, rfl, hc⟩

theorem disjoint (h : Placed T p as) :
    as.Pairwise fun a a' => a.osCpus.Disjoint a'.osCpus := by
  have hpw : as.Pairwise fun a a' => a.jobid ≠ a'.jobid := List.pairwise_map.1 h.jobs_nodup
  refine hpw.imp_of_mem fun {a a'} ha ha' hne c hc hc' => hne ?_
  rw [← h.owner_of_mem ha hc, h.owner_of_mem ha' hc']

/-- A job without CPUs has no live allocation. -/
theorem jobid_notMem {j : ℤ} (h : Placed T p as) (hfree : ∀ c, p.owner c ≠ j) :
    j ∉ as.map CpuAlloc.jobid := by
  intro hmem
  obtain ⟨a, ha, rfl⟩ := List.mem_map.1 hmem
  obtain ⟨c, hc⟩ := List.exists_mem_of_ne_nil _ (h.nonempty a ha)
  exact hfree c (h.owner_of_mem ha hc)

theorem owner_ne {j : ℤ} (h : Placed T p as) (hj : 0 < j) (hnew : j ∉ as.map CpuAlloc.jobid)
    (c : ℕ) : p.owner c ≠ j := by
  intro hc
  obtain ⟨a, ha, haj, -⟩ := (h.owner_iff c j hj).1 hc
  exact hnew (haj ▸ List.mem_map_of_mem ha)

/-- Handing free CPUs to one more job. -/
theorem add (h : Placed T p as) (hav : Available T p cpus) (hne : cpus ≠ [])
    (hperm : a.osCpus.Perm cpus) (hpos : 0 < a.jobid) (hnew : a.jobid ∉ as.map CpuAlloc.jobid) :
    Placed T (cpus.foldl (occupy T a.jobid) p) (a :: as) where
  counted := h.counted.foldl_occupy hpos.ne' hav.nodup hav.free
  owner_nonneg c := by
    rw [foldl_occupy_owner]
    split_ifs
    · exact hpos.le
    · exact h.owner_nonneg c
  owner_iff c j hj := by
    rw [foldl_occupy_owner]
    simp only [List.mem_cons, exists_eq_or_imp, hperm.mem_iff]
    split_ifs with hc
    · have hfree := hav.free c hc
      have hno : ¬∃ x ∈ as, x.jobid = j ∧ c ∈ x.osCpus := by
        rw [← h.owner_iff c j hj]
        omega
      simp [hno, hc]
    · simp [hc, h.owner_iff c j hj]
  nodup := by
    simp only [List.mem_cons, forall_eq_or_imp]
    exact ⟨hperm.nodup_iff.2 hav.nodup, h.nodup⟩
  known := by
    simp only [List.mem_cons, forall_eq_or_imp]
    exact ⟨fun c hc => hav.known c (hperm.mem_iff.1 hc), h.known⟩
  nonempty := by
    simp only [List.mem_cons, forall_eq_or_imp]
    exact ⟨fun hnil => hne (by simpa [hnil] using hperm), h.nonempty⟩
  jobid_pos := by
    simp only [List.mem_cons, forall_eq_or_imp]
    exact ⟨hpos, h.jobid_pos⟩
  jobs_nodup := List.nodup_cons.2 ⟨hnew, h.jobs_nodup⟩
  balance := by
    rw [totalFree_foldl_occupy hav.known, List.map_cons, List.sum_cons, hperm.length_eq,
      ← h.balance]
    omega

/-- Taking back the CPUs of one job. -/
theorem remove (h : Placed T p (a :: as)) : Placed T (a.osCpus.foldl (release T) p) as := by
  have hjobs := List.nodup_cons.1 h.jobs_nodup
  have hown : ∀ c ∈ a.osCpus, p.owner c = a.jobid := fun c hc => h.owner_of_mem (by simp) hc
  have hpos : 0 < a.jobid := h.jobid_pos a (by simp)
  refine
    { counted := h.counted.foldl_release (h.nodup a (by simp)) fun c hc => by
        rw [hown c hc]; exact hpos.ne'
      owner_nonneg := fun c => ?_
      owner_iff := fun c j hj => ?_
      nodup := fun x hx => h.nodup x (by simp [hx])
      known := fun x hx => h.known x (by simp [hx])
      nonempty := fun x hx => h.nonempty x (by simp [hx])
      jobid_pos := fun x hx => h.jobid_pos x (by simp [hx])
      jobs_nodup := hjobs.2
      balance := ?_ }
  · rw [foldl_release_owner]
    split_ifs
    · exact le_rfl
    · exact h.owner_nonneg c
  · rw [foldl_release_owner]
    have hiff := h.owner_iff c j hj
    simp only [List.mem_cons, exists_eq_or_imp] at hiff
    split_ifs with hc
    · have hno : ¬∃ x ∈ as, x.jobid = j ∧ c ∈ x.osCpus := by
        rintro ⟨x, hx, -, hcx⟩
        refine hjobs.1 (List.mem_map.2 ⟨x, hx, ?_⟩)
        rw [← h.owner_of_mem (by simp [hx]) hcx, hown c hc]
      simp only [hno, iff_false]
      omega
    · simpa [hc] using hiff
  · have hbal := h.balance
    rw [List.map_cons, List.sum_cons] at hbal
    rw [totalFree_foldl_release (h.known a (by simp)), ← hbal]
    omega

theorem totalFree_nonneg (h : Placed T p as) : 0 ≤ Bind.totalFree T p := by
  refine List.sum_nonneg fun x hx => ?_
  obtain ⟨n, hn, rfl⟩ := List.mem_map.1 hx
  rw [h.counted.nodeFree_eq n (List.mem_range.1 hn)]
  refine List.sum_nonneg fun x hx => ?_
  obtain ⟨g, hg, rfl⟩ := List.mem_map.1 hx
  have hlt := ((Topology.mem_node_iff (List.mem_range.1 hn)).1 hg).1
  rw [h.counted.groupFree_eq g hlt]
  omega

/-- `cpu_bind_post_alloc` after `cpus` were handed to a job that held none: the record is sorted
and not marked, and the pool records it. -/
theorem postAlloc (Q : Qsort) (h : Placed T p as) (hav : Available T p a.osCpus)
    (hne : a.osCpus ≠ []) (hpos : 0 < a.jobid) (hnew : a.jobid ∉ as.map CpuAlloc.jobid) :
    cpuBindPostAlloc Q T (a.osCpus.foldl (occupy T a.jobid) p) a =
        { a with osCpus := Q.sort (fun x y => x ≤ y) a.osCpus } ∧
      Placed T (a.osCpus.foldl (occupy T a.jobid) p)
        ({ a with osCpus := Q.sort (fun x y => x ≤ y) a.osCpus } :: as) := by
  have hlt : ∀ c ∈ a.osCpus, c < T.maxOsCpu := by
    intro c hc
    obtain ⟨g, hg⟩ := hav.known c hc
    exact Topology.cpu_lt hg
  refine ⟨cpuBindPostAlloc_eq Q hav.nodup hlt fun c => ?_, ?_⟩
  · rw [foldl_occupy_owner]
    split_ifs with hc
    · simp [hc]
    · simp [hc, h.owner_ne hpos hnew c]
  · exact h.add (a := { a with osCpus := Q.sort (fun x y => x ≤ y) a.osCpus }) hav hne
      (Q.perm _ _) hpos hnew

end Placed

namespace Bind

variable {b : Bind} {j N : ℤ}

/-- The invariant of the allocator. -/
structure Ok (T : Topology) (b : Bind) : Prop where
  placed : Placed T b.pool b.allocs
  ptr_nodup : (b.allocs.map CpuAlloc.ptr).Nodup
  ptr_lt : ∀ a ∈ b.allocs, a.ptr < b.nextPtr
  hung : b.hung = false

theorem cpuBindInit_ok (T : Topology) : (cpuBindInit T).Ok T :=
  ⟨Placed.fresh T, List.nodup_nil, fun _ h => absurd h List.not_mem_nil, rfl⟩

/-! ### Allocation and release -/

theorem store_new (b : Bind) (x a : CpuAlloc) (hk : ∀ y ∈ b.allocs, y.ptr ≠ a.ptr)
    (hx : x.ptr = a.ptr) : store { b with allocs := b.allocs ++ [x] } a =
      { b with allocs := b.allocs ++ [a] } := by
  have hid : (b.allocs.map fun y => if y.ptr = a.ptr then a else y) = b.allocs := by
    conv_rhs => rw [← List.map_id b.allocs]
    refine List.map_congr_left fun y hy => ?_
    rw [if_neg (hk y hy), id]
  simp [store, hid, hx]

theorem cpuBindFree_new (b : Bind) (a : CpuAlloc) (hk : ∀ y ∈ b.allocs, y.ptr ≠ a.ptr) :
    cpuBindFree T { b with allocs := b.allocs ++ [a] } a =
      { b with pool := a.osCpus.foldl (release T) b.pool } := by
  rw [cpuBindFree, List.eraseP_append_right _ (fun y hy => by simpa using hk y hy)]
  simp

/-- Allocation with `N` out of range or not enough free CPUs leaves only the used address behind;
every other allocation gets exactly `N` free CPUs. -/
theorem acquire_cases (Q : Qsort) (h : b.Ok T) (hj : 0 < j)
    (hnew : j ∉ b.allocs.map CpuAlloc.jobid) :
    ((b.disabled ∨ N ≤ 0 ∨ totalFree T b.pool < N) ∧
      b.acquire Q T j N = ({ b with nextPtr := b.nextPtr + 1 }, none)) ∨
    ((b.disabled = false ∧ 0 < N ∧ N ≤ totalFree T b.pool) ∧
      ∃ a cpus, Available T b.pool cpus ∧ (cpus.length : ℤ) = N ∧ a.osCpus.Perm cpus ∧
        a.ptr = b.nextPtr ∧ a.jobid = j ∧ a.slots = N ∧ a.error = false ∧ a.quality ≤ 1 ∧
        b.acquire Q T j N =
          ({ b with
              pool := cpus.foldl (occupy T j) b.pool
              allocs := b.allocs ++ [a]
              nextPtr := b.nextPtr + 1 }, some a)) := by
  have hptr : ∀ a ∈ b.allocs, a.ptr ≠ b.nextPtr := fun a ha => (h.ptr_lt a ha).ne
  by_cases hfail : b.disabled ∨ N ≤ 0 ∨ totalFree T b.pool < N
  · refine .inl ⟨hfail, ?_⟩
    simp only [acquire, cpuBindAllocInit, cpuBindAlloc, hfail, if_true, Bool.true_eq_false,
      false_and, if_false]
    have hstore := store_new { b with nextPtr := b.nextPtr + 1 }
      { ptr := b.nextPtr, jobid := j, slots := N }
      { ptr := b.nextPtr, jobid := j, slots := N, error := true } hptr rfl
    have hfree := cpuBindFree_new (T := T) { b with nextPtr := b.nextPtr + 1 }
      { ptr := b.nextPtr, jobid := j, slots := N, error := true } hptr
    dsimp only at hstore hfree
    rw [hstore, hfree]
    rfl
  · push Not at hfail
    obtain ⟨hdis, hpos, hroom⟩ := hfail
    have hdis : b.disabled = false := by simpa using hdis
    refine .inr ⟨⟨hdis, hpos, hroom⟩, ?_⟩
    obtain ⟨ns, pn, cpus, q, -, hav, hlen, -, hq, halloc⟩ := cpuBindAlloc_spec
      (b := (b.cpuBindAllocInit j N).1) (a := (b.cpuBindAllocInit j N).2) Q hj.ne'
      (fun c => h.placed.owner_ne hj hnew c) h.placed.counted hdis hpos hroom
    have hne : cpus ≠ [] := by
      rintro rfl
      rw [List.length_nil, Nat.cast_zero] at hlen
      omega
    refine ⟨{ ptr := b.nextPtr, jobid := j, slots := N, primaryNode := pn,
              memNodes := bitmapOf ns, quality := q, osCpus := Q.sort (fun x y => x ≤ y) cpus },
      cpus, hav, hlen, Q.perm _ cpus, rfl, rfl, rfl, rfl, hq, ?_⟩
    -- the record is kept: it has CPUs
    have hsort : Q.sort (fun x y => decide (x ≤ y)) cpus ≠ [] := fun hnil =>
      hne (List.length_eq_zero_iff.1 (by rw [← Q.length_sort, hnil]; rfl))
    have hstore := store_new
      { b with pool := cpus.foldl (occupy T j) b.pool, nextPtr := b.nextPtr + 1 }
      { ptr := b.nextPtr, jobid := j, slots := N }
      { ptr := b.nextPtr, jobid := j, slots := N, primaryNode := pn, memNodes := bitmapOf ns,
        quality := q, osCpus := Q.sort (fun x y => x ≤ y) cpus } hptr rfl
    simp only [cpuBindAllocInit] at halloc
    dsimp only at hstore
    simp only [acquire, cpuBindAllocInit, halloc, hstore, hsort, ne_eq, not_false_eq_true,
      and_self, if_true]

theorem acquire_ok (Q : Qsort) (h : b.Ok T) (hj : 0 < j)
    (hnew : j ∉ b.allocs.map CpuAlloc.jobid) : (b.acquire Q T j N).1.Ok T := by
  rcases acquire_cases (N := N) Q h hj hnew with
    ⟨-, heq⟩ | ⟨⟨-, hpos, -⟩, a, cpus, hav, hlen, hperm, hptr, rfl, -, -, -, heq⟩
  · rw [heq]
    exact ⟨h.placed, h.ptr_nodup, fun a ha => Nat.lt_succ_of_lt (h.ptr_lt a ha), h.hung⟩
  · have hne : cpus ≠ [] := by
      rintro rfl
      simp only [List.length_nil, Nat.cast_zero] at hlen
      omega
    have hcomm : (a :: b.allocs).Perm (b.allocs ++ [a]) := (List.perm_append_singleton a _).symm
    rw [heq]
    refine ⟨(h.placed.add hav hne hperm hj hnew).perm hcomm, ?_, ?_, h.hung⟩
    · refine (hcomm.map CpuAlloc.ptr).nodup_iff.1 (List.nodup_cons.2 ⟨?_, h.ptr_nodup⟩)
      intro hmem
      obtain ⟨x, hx, hxp⟩ := List.mem_map.1 hmem
      exact (h.ptr_lt x hx).ne (hxp.trans hptr)
    · intro x hx
      rcases List.mem_append.1 hx with hx | hx
      · exact Nat.lt_succ_of_lt (h.ptr_lt x hx)
      · rw [List.mem_singleton.1 hx, hptr]
        exact Nat.lt_succ_self _

/-- Removing a live record by its address takes exactly this record out of the list. -/
theorem perm_eraseP_ptr (hnd : (as.map CpuAlloc.ptr).Nodup) (ha : a ∈ as) :
    as.Perm (a :: as.eraseP fun x => x.ptr = a.ptr) := by
  obtain ⟨x, l₁, l₂, -, hx, heq, herase⟩ :=
    List.exists_of_eraseP (p := fun x : CpuAlloc => x.ptr = a.ptr) ha (by simp)
  have hxa : x = a := List.inj_on_of_nodup_map hnd (by simp [heq]) ha (by simpa using hx)
  rw [herase, heq, hxa]
  exact List.perm_middle

theorem cpuBindFree_ok (h : b.Ok T) (ha : a ∈ b.allocs) : (b.cpuBindFree T a).Ok T := by
  have hperm := perm_eraseP_ptr h.ptr_nodup ha
  have hsub : (b.allocs.eraseP fun x => x.ptr = a.ptr) ⊆ b.allocs := List.eraseP_sublist.subset
  refine ⟨(h.placed.perm hperm).remove, ?_, fun x hx => h.ptr_lt x (hsub hx), h.hung⟩
  exact (List.nodup_cons.1 ((hperm.map CpuAlloc.ptr).nodup_iff.1 h.ptr_nodup)).2

end Bind

end CpuBind

end TaskSpooler
