import TaskSpooler.CpuBind.Pool
import TaskSpooler.Lib.Select

/-!
# The loops of the allocator

Every loop of the allocator over groups is a sequence of steps that hand out one free CPU:

* `takeFromGroup_eq`: `take_from_group` occupies the first free CPUs of the group,
* `allocLoop_choice`: `alloc_from_groups` ends, and the groups it takes CPUs from are a `Choice`,
* `allocFromGroups_spec`: it occupies exactly `N` CPUs of its groups, if these have `N` free ones,
* `cpuBindPostAlloc_eq`: the checks of `cpu_bind_post_alloc` then find nothing.
-/

namespace TaskSpooler

namespace CpuBind

open Pool

variable {T : Topology} {p : Pool} {j : ℤ} {g N : ℕ} {ids : List ℕ} {a : CpuAlloc}

theorem takeLoop_eq {l : List ℕ} (hnd : l.Nodup) (owner : ℕ → ℤ) (taken : List ℕ)
    (hlen : taken.length ≤ N) :
    takeLoop N j l (owner, taken) =
      (((l.filter fun c => owner c = 0).take (N - taken.length)).foldl
        (fun o c => Function.update o c j) owner,
        taken ++ (l.filter fun c => owner c = 0).take (N - taken.length)) := by
  induction l generalizing owner taken with
  | nil => simp [takeLoop]
  | cons x l ih =>
    rw [List.nodup_cons] at hnd
    unfold takeLoop
    by_cases hlt : taken.length < N
    · by_cases hx : owner x = 0
      · have hsame : (l.filter fun c => Function.update owner x j c = 0) =
            l.filter fun c => owner c = 0 := by
          refine List.filter_congr fun c hc => ?_
          have hne : c ≠ x := fun h => hnd.1 (h ▸ hc)
          rw [Function.update_of_ne hne]
        obtain ⟨k, hk⟩ : ∃ k, N - taken.length = k + 1 := ⟨N - taken.length - 1, by omega⟩
        have hlen' : (taken ++ [x]).length ≤ N := by simp; omega
        have hk' : N - (taken ++ [x]).length = k := by
          rw [List.length_append, List.length_singleton]; omega
        rw [if_pos hlt, if_pos hx, ih hnd.2 _ _ hlen', hsame, hk', hk]
        simp [hx]
      · rw [if_pos hlt, if_neg hx, ih hnd.2 _ _ hlen]
        simp [hx]
    · have : N - taken.length = 0 := by omega
      simp [hlt, this]

/-- The CPUs `take_from_group` takes. -/
def firstFree (T : Topology) (g N : ℕ) (p : Pool) : List ℕ :=
  ((T.group g).osCpus.filter fun c => p.owner c = 0).take N

theorem mem_firstFree {c : ℕ} (h : c ∈ firstFree T g N p) :
    c ∈ (T.group g).osCpus ∧ p.owner c = 0 := by
  simpa using List.mem_of_mem_take h

theorem firstFree_available : Available T p (firstFree T g N p) where
  nodup := ((T.osCpus_nodup g).filter _).take
  free _ hc := (mem_firstFree hc).2
  known _ hc := ⟨g, (mem_firstFree hc).1⟩

/-- `take_from_group` occupies the first free CPUs of the group, one by one. -/
theorem takeFromGroup_eq : takeFromGroup T g N p a = ((firstFree T g N p).length,
    (firstFree T g N p).foldl (occupy T a.jobid) p,
    { a with
      osCpus := a.osCpus ++ firstFree T g N p
      quality := a.quality + if ((firstFree T g N p).length : ℤ) < p.groupFree g then 1 else 0 }) := by
  have h : takeLoop N a.jobid (T.group g).osCpus (p.owner, []) =
      ((firstFree T g N p).foldl (fun o c => Function.update o c a.jobid) p.owner,
        firstFree T g N p) :=
    takeLoop_eq (T.osCpus_nodup g) p.owner [] (Nat.zero_le N)
  have hleft : (0 < p.groupFree g + -((firstFree T g N p).length : ℤ)) ↔
      ((firstFree T g N p).length : ℤ) < p.groupFree g := by omega
  unfold takeFromGroup
  rw [h, foldl_occupy_group fun c hc => (mem_firstFree hc).1]
  simp only [addFree, Function.update_self, hleft]
  congr 3
  split_ifs <;> rfl

theorem groupFree_firstFree :
    ((firstFree T g N p).foldl (occupy T j) p).groupFree =
      Function.update p.groupFree g (p.groupFree g - (firstFree T g N p).length) := by
  rw [foldl_occupy_group fun c hc => (mem_firstFree hc).1]
  rfl

theorem bestFit_eq (free : ℕ → ℤ) (r : ℤ) (ids : List ℕ) : bestFit free r ids = Option.map Prod.fst
    (ids.foldl (selectStep (fun g => r ≤ free g) (fun g => free g - r) (· < ·)) none) := by
  unfold bestFit
  congr 2
  funext best g
  unfold selectStep
  cases best <;> rfl

theorem maxFree_eq (free : ℕ → ℤ) (ids : List ℕ) : maxFree free ids = Option.map Prod.fst
    (ids.foldl (selectStep (fun g => 0 < free g) free fun x y => y < x) none) := by
  unfold maxFree
  congr 2
  funext best g
  unfold selectStep
  cases best <;> rfl

/-- What `best-fit` finds: a group with the least excess among those with enough free CPUs. -/
theorem bestFit_spec (free : ℕ → ℤ) (r : ℤ) (ids : List ℕ) : match bestFit free r ids with
    | some g => (g ∈ ids ∧ r ≤ free g) ∧ ∀ x ∈ ids, r ≤ free x → free g ≤ free x
    | none => ∀ x ∈ ids, free x < r := by
  have hscan : Selected (fun g => r ≤ free g) (fun g => free g - r) (· < ·) ids
      (ids.foldl (selectStep (fun g => r ≤ free g) (fun g => free g - r) (· < ·)) none) :=
    selected_foldl lt_irrefl fun x y z h h' => by omega
  rw [bestFit_eq]
  generalize ids.foldl _ none = best at hscan
  cases best with
  | none => exact fun x hx => not_le.1 (hscan x hx)
  | some best =>
    obtain ⟨⟨hmem, hle, hexcess⟩, hleast⟩ := hscan
    refine ⟨⟨hmem, hle⟩, fun x hx hx' => ?_⟩
    have : ¬free x - r < best.2 := hleast x hx hx'
    dsimp only at hexcess ⊢
    omega

/-- What the search for the largest group finds, among those with free CPUs. -/
theorem maxFree_spec (free : ℕ → ℤ) (ids : List ℕ) : match maxFree free ids with
    | some g => (g ∈ ids ∧ 0 < free g) ∧ ∀ x ∈ ids, free x ≤ free g
    | none => ∀ x ∈ ids, free x ≤ 0 := by
  have hscan : Selected (fun g => 0 < free g) free (fun x y => y < x) ids
      (ids.foldl (selectStep (fun g => 0 < free g) free fun x y => y < x) none) :=
    selected_foldl lt_irrefl fun x y z h h' => by omega
  rw [maxFree_eq]
  generalize ids.foldl _ none = best at hscan
  cases best with
  | none => exact fun x hx => not_lt.1 (hscan x hx)
  | some best =>
    obtain ⟨⟨hmem, hpos, hfree⟩, hmost⟩ := hscan
    refine ⟨⟨hmem, hpos⟩, fun x hx => ?_⟩
    by_cases hx' : 0 < free x
    · have := hmost x hx hx'
      omega
    · omega

/-! ### The groups the loop picks -/

/-- The free CPUs of a group. -/
def freeOf (T : Topology) (p : Pool) (g : ℕ) : List ℕ :=
  (T.group g).osCpus.filter fun c => p.owner c = 0

/-- How `alloc_from_groups` divides `r` CPUs among groups: those in `full` are drained, the largest
ones first, and `last` is the smallest one that holds the rest. -/
structure Choice (free : ℕ → ℤ) (ids : List ℕ) (r : ℕ) (full : List ℕ) (last rest : ℕ) : Prop where
  nodup : full.Nodup
  last_notMem : last ∉ full
  subset : full ⊆ ids
  last_mem : last ∈ ids
  sum : (full.map free).sum + rest = r
  rest_pos : 0 < rest
  rest_le : rest ≤ free last
  pos : ∀ g ∈ full, 0 < free g
  largest : ∀ g ∈ full, ∀ x ∈ ids, x ∉ full → free x ≤ free g
  least : ∀ x ∈ ids, x ∉ full → rest ≤ free x → free last ≤ free x

/-- The CPUs that are taken then. -/
def chosenCpus (T : Topology) (p : Pool) (full : List ℕ) (last rest : ℕ) : List ℕ :=
  full.flatMap (freeOf T p) ++ firstFree T last rest p

theorem mem_chosenCpus {full : List ℕ} {c last rest : ℕ} : c ∈ chosenCpus T p full last rest ↔
    (∃ g ∈ full, c ∈ freeOf T p g) ∨ c ∈ firstFree T last rest p := by
  simp [chosenCpus]

theorem freeOf_available : Available T p (freeOf T p g) where
  nodup := (T.osCpus_nodup g).filter _
  free c hc := by simpa using List.of_mem_filter hc
  known c hc := ⟨g, List.mem_of_mem_filter hc⟩

theorem length_freeOf (hp : Tallied T ids p) (hg : g ∈ ids) :
    ((freeOf T p g).length : ℤ) = p.groupFree g := by
  rw [hp g hg, freeOf, ← List.countP_eq_length_filter]
  rfl

theorem length_firstFree (hp : Tallied T ids p) (hg : g ∈ ids) :
    ((firstFree T g N p).length : ℤ) = min (N : ℤ) (p.groupFree g) := by
  rw [← length_freeOf hp hg, firstFree, List.length_take, freeOf]
  omega

/-- Taking CPUs of one group leaves the others alone. -/
theorem freeOf_firstFree {x : ℕ} (hx : x ≠ g) :
    freeOf T ((firstFree T g N p).foldl (occupy T j) p) x = freeOf T p x := by
  refine List.filter_congr fun c hc => ?_
  rw [foldl_occupy_owner, if_neg fun hmem => hx (Topology.mem_group_unique hc (mem_firstFree hmem).1)]

/-- One group that holds all of it. -/
theorem Choice.single {free : ℕ → ℤ} {r : ℕ} (hr : 0 < r) (hg : g ∈ ids) (hle : r ≤ free g)
    (hleast : ∀ x ∈ ids, r ≤ free x → free g ≤ free x) : Choice free ids r [] g r where
  nodup := List.nodup_nil
  last_notMem := List.not_mem_nil
  subset := List.nil_subset _
  last_mem := hg
  sum := by simp
  rest_pos := hr
  rest_le := hle
  pos _ hx := absurd hx List.not_mem_nil
  largest _ hx := absurd hx List.not_mem_nil
  least x hx _ := hleast x hx

/-- The largest group is drained, and the rest is divided among the others. -/
theorem Choice.cons {free : ℕ → ℤ} {r r' last rest : ℕ} {full : List ℕ} (hg : g ∈ ids)
    (hpos : 0 < free g) (hmost : ∀ x ∈ ids, free x ≤ free g) (hr : free g + r' = r)
    (h : Choice (Function.update free g 0) ids r' full last rest) :
    g ∉ full ∧ last ≠ g ∧ Choice free ids r (g :: full) last rest := by
  have hzero : Function.update free g 0 g = 0 := Function.update_self ..
  have hnot : g ∉ full := fun hmem => (h.pos g hmem).ne' hzero
  have hlast : last ≠ g := by
    rintro rfl
    have h₁ := h.rest_le
    have h₂ := h.rest_pos
    omega
  have hsame : ∀ {x}, x ≠ g → Function.update free g 0 x = free x := fun hx =>
    Function.update_of_ne hx ..
  have hne : ∀ {x}, x ∈ full → x ≠ g := fun hx hxg => hnot (hxg ▸ hx)
  refine ⟨hnot, hlast,
    { nodup := List.nodup_cons.2 ⟨hnot, h.nodup⟩
      last_notMem := fun hmem => ?_
      subset := List.cons_subset.2 ⟨hg, h.subset⟩
      last_mem := h.last_mem
      sum := ?_
      rest_pos := h.rest_pos
      rest_le := hsame hlast ▸ h.rest_le
      pos := fun x hx => ?_
      largest := fun x hx y hy hxy => ?_
      least := fun x hx hxf hle => ?_ }⟩
  · obtain hmem | hmem := List.mem_cons.1 hmem
    · exact hlast hmem
    · exact h.last_notMem hmem
  · have hsum : (full.map (Function.update free g 0)).sum = (full.map free).sum :=
      congrArg List.sum (List.map_congr_left fun x hx => hsame (hne hx))
    have := h.sum
    rw [List.map_cons, List.sum_cons]
    omega
  · obtain rfl | hx := List.mem_cons.1 hx
    · exact hpos
    · exact hsame (hne hx) ▸ h.pos x hx
  · rw [List.mem_cons, not_or] at hxy
    obtain rfl | hx := List.mem_cons.1 hx
    · exact hmost y hy
    · rw [← hsame (hne hx), ← hsame hxy.1]
      exact h.largest x hx y hy hxy.2
  · rw [List.mem_cons, not_or] at hxf
    rw [← hsame hlast, ← hsame hxf.1]
    exact h.least x hx hxf.2 (hsame hxf.1 ▸ hle)

/-- **The groups that `alloc_from_groups` picks**: it drains the largest ones until one holds the
rest, and of these it takes the smallest. -/
theorem allocLoop_choice (hnd : ids.Nodup) (hj : a.jobid ≠ 0) (fuel r : ℕ) (hr : 0 < r)
    (hfuel : r ≤ fuel) (hp : Tallied T ids p) (hsum : (r : ℤ) ≤ (ids.map p.groupFree).sum) :
    ∃ full last rest, Choice p.groupFree ids r full last rest ∧
      allocLoop T ids fuel r p a =
        { pool := (chosenCpus T p full last rest).foldl (occupy T a.jobid) p
          alloc := { a with
            osCpus := a.osCpus ++ chosenCpus T p full last rest
            quality := a.quality + if (rest : ℤ) < p.groupFree last then 1 else 0 } } := by
  induction fuel generalizing r p a with
  | zero => omega
  | succ fuel ih =>
    obtain ⟨r, rfl⟩ : ∃ k, r = k + 1 := ⟨r - 1, by omega⟩
    push_cast at hsum
    have hbest := bestFit_spec p.groupFree ((r : ℤ) + 1) ids
    rw [allocLoop]
    cases hb : bestFit p.groupFree ((r : ℤ) + 1) ids with
    | some g =>
      simp only [hb] at hbest
      obtain ⟨⟨hg, hle⟩, hleast⟩ := hbest
      have hlen : (firstFree T g (r + 1) p).length = r + 1 := by
        have := length_firstFree (N := r + 1) hp hg
        push_cast at this
        omega
      refine ⟨[], g, r + 1, .single hr hg (by push_cast; exact hle) (by push_cast; exact hleast), ?_⟩
      have hnil : chosenCpus T p [] g (r + 1) = firstFree T g (r + 1) p := rfl
      simp only [Option.some_or, takeFromGroup_eq, hlen, Nat.sub_self, hnil]
      cases fuel <;> rfl
    | none =>
      simp only [hb] at hbest
      have hmost := maxFree_spec p.groupFree ids
      cases hm : maxFree p.groupFree ids with
      | none =>
        simp only [hm] at hmost
        obtain ⟨g, hg, hpos⟩ := List.exists_lt_of_sum_lt (fun _ => 0) p.groupFree
          (l := ids) (by simp; omega)
        exact absurd (hmost g hg) (not_le.2 hpos)
      | some g =>
        simp only [hm] at hmost
        obtain ⟨⟨hg, hpos⟩, hmost⟩ := hmost
        have hless := hbest g hg
        have hfree : ((freeOf T p g).length : ℤ) = p.groupFree g := length_freeOf hp hg
        -- the group is drained
        have hall : firstFree T g (r + 1) p = freeOf T p g :=
          List.take_of_length_le (by rw [freeOf] at hfree; omega)
        simp only [Option.none_or, takeFromGroup_eq, hall, hfree, lt_irrefl, if_false, Nat.add_zero]
        have hav : Available T p (freeOf T p g) := freeOf_available
        have htallied := hp.foldl_occupy hj hav.nodup hav.free
        have hupdate := groupFree_firstFree (T := T) (g := g) (N := r + 1) (p := p) (j := a.jobid)
        rw [hall, hfree, sub_self] at hupdate
        set p' := (freeOf T p g).foldl (occupy T a.jobid) p with hp'
        obtain ⟨full, last, rest, hchoice, heq⟩ := ih
          (a := { a with osCpus := a.osCpus ++ freeOf T p g }) hj (r + 1 - (freeOf T p g).length)
          (by omega) (by omega) htallied (by
            rw [hupdate, sum_map_update_of_mem _ _ hnd hg]
            omega)
        rw [hupdate] at hchoice
        obtain ⟨hnot, hlast, hchoice⟩ := hchoice.cons hg hpos hmost (r := r + 1) (by omega)
        have hsame : ∀ x, x ≠ g → freeOf T p' x = freeOf T p x := fun x hx => by
          rw [hp', ← hall, freeOf_firstFree hx]
        have hchosen : chosenCpus T p (g :: full) last rest =
            freeOf T p g ++ chosenCpus T p' full last rest := by
          have hfull : full.flatMap (freeOf T p') = full.flatMap (freeOf T p) :=
            List.flatMap_congr fun x hx => hsame x fun hxg => hnot (hxg ▸ hx)
          have hrest : firstFree T last rest p' = firstFree T last rest p :=
            congrArg (List.take rest) (hsame last hlast)
          rw [chosenCpus, chosenCpus, hfull, hrest, List.flatMap_cons, List.append_assoc]
        refine ⟨g :: full, last, rest, hchoice, ?_⟩
        rw [heq, hchosen, List.foldl_append, ← hp', List.append_assoc, hupdate,
          Function.update_of_ne hlast]

/-- The CPUs taken from the groups were free, and there are `r` of them. -/
theorem Choice.available {full : List ℕ} {r last rest : ℕ} (hp : Tallied T ids p)
    (h : Choice p.groupFree ids r full last rest) :
    Available T p (chosenCpus T p full last rest) ∧ (chosenCpus T p full last rest).length = r := by
  have hfull : ∀ c ∈ full.flatMap (freeOf T p), ∃ g ∈ full, c ∈ freeOf T p g := fun c hc =>
    List.mem_flatMap.1 hc
  have hlast : ∀ c ∈ firstFree T last rest p, c ∈ (T.group last).osCpus := fun c hc =>
    (mem_firstFree hc).1
  have hin : ∀ {g c}, c ∈ freeOf T p g → c ∈ (T.group g).osCpus := List.mem_of_mem_filter
  refine ⟨⟨List.nodup_append'.2 ⟨List.nodup_flatMap.2 ⟨fun g _ => freeOf_available.nodup, ?_⟩,
    firstFree_available.nodup, ?_⟩, ?_, ?_⟩, ?_⟩
  · exact h.nodup.imp fun hne c hc hc' => hne (Topology.mem_group_unique (hin hc) (hin hc'))
  · intro c hc hc'
    obtain ⟨g, hg, hcg⟩ := hfull c hc
    exact h.last_notMem (Topology.mem_group_unique (hin hcg) (hlast c hc') ▸ hg)
  · intro c hc
    obtain hc | hc := List.mem_append.1 hc
    · obtain ⟨g, -, hcg⟩ := hfull c hc
      exact freeOf_available.free c hcg
    · exact firstFree_available.free c hc
  · intro c hc
    obtain hc | hc := List.mem_append.1 hc
    · obtain ⟨g, -, hcg⟩ := hfull c hc
      exact ⟨g, hin hcg⟩
    · exact ⟨last, hlast c hc⟩
  · have hlen : ((full.flatMap (freeOf T p)).length : ℤ) = (full.map p.groupFree).sum := by
      rw [List.length_flatMap, Nat.cast_list_sum, List.map_map]
      exact congrArg List.sum (List.map_congr_left fun g hg => length_freeOf hp (h.subset hg))
    have hrest := length_firstFree (N := rest) hp h.last_mem
    have hsum := h.sum
    have hle := h.rest_le
    rw [chosenCpus, List.length_append]
    omega

/-- They are CPUs of these groups. -/
theorem Choice.mem_groups {full : List ℕ} {c r last rest : ℕ}
    (h : Choice p.groupFree ids r full last rest) (hc : c ∈ chosenCpus T p full last rest) :
    ∃ g ∈ ids, c ∈ (T.group g).osCpus := by
  obtain ⟨g, hg, hcg⟩ | hc := mem_chosenCpus.1 hc
  · exact ⟨g, h.subset hg, List.mem_of_mem_filter hcg⟩
  · exact ⟨last, h.last_mem, (mem_firstFree hc).1⟩

/-- **`alloc_from_groups` hands out exactly `N` CPUs** of its groups, if these have `N` free ones,
and it ends. -/
theorem allocFromGroups_spec (hids : ∀ g ∈ ids, g < T.groups.length) (hnd : ids.Nodup)
    (hj : a.jobid ≠ 0) (hp : p.Counted T) (hN : 0 < N)
    (hsum : (N : ℤ) ≤ (ids.map p.groupFree).sum) :
    ∃ cpus q, Available T p cpus ∧ cpus.length = N ∧
      (∀ c ∈ cpus, ∃ g ∈ ids, c ∈ (T.group g).osCpus) ∧ q ≤ a.quality + 1 ∧
      allocFromGroups T N ids p a =
        { pool := cpus.foldl (occupy T a.jobid) p
          alloc := { a with osCpus := a.osCpus ++ cpus, quality := q } } := by
  have htallied := hp.tallied hids
  obtain ⟨full, last, rest, hchoice, heq⟩ := allocLoop_choice hnd hj N N hN le_rfl htallied hsum
  obtain ⟨hav, hlen⟩ := hchoice.available htallied
  refine ⟨_, _, hav, hlen, fun c hc => hchoice.mem_groups hc, ?_, heq⟩
  split_ifs <;> omega

/-! ### The checks afterwards -/

/-- The checks of `cpu_bind_post_alloc` find nothing when the record lists the CPUs of its job. -/
theorem cpuBindPostAlloc_eq (Q : Qsort) (hnd : a.osCpus.Nodup)
    (hlt : ∀ c ∈ a.osCpus, c < T.maxOsCpu) (howner : ∀ c, p.owner c = a.jobid ↔ c ∈ a.osCpus) :
    cpuBindPostAlloc Q T p a = { a with osCpus := Q.sort (fun x y => x ≤ y) a.osCpus } := by
  have hperm : ((List.range T.maxOsCpu).filter fun c => p.owner c = a.jobid).Perm a.osCpus := by
    rw [List.perm_ext_iff_of_nodup (List.nodup_range.filter _) hnd]
    intro c
    simp only [List.mem_filter, List.mem_range, decide_eq_true_eq, howner]
    exact ⟨And.right, fun h => ⟨hlt c h, h⟩⟩
  have hbad : ((Q.sort (fun x y => x ≤ y) a.osCpus).any fun c => p.owner c ≠ a.jobid) = false := by
    rw [List.any_eq_false]
    intro c hc
    simpa [howner] using hc
  simp only [cpuBindPostAlloc, hbad, hperm.length_eq, Q.length_sort, ne_eq, not_true_eq_false,
    decide_false, Bool.or_false]

end CpuBind

end TaskSpooler
