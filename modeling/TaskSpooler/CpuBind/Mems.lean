import TaskSpooler.CpuBind.Primary
import TaskSpooler.CpuBind.Scan

/-!
# The memory nodes of a job over a restart

`cpu_bind_format_mems` writes the primary node, or the nodes of the bitmap if there is none;
`parse_mems` takes the first number for the primary node.  `mems_restart_iff` says when the server
then writes the same nodes again: a job with several memory nodes is left with the first one.
-/

namespace TaskSpooler

namespace CpuBind

variable {T : Topology} {a : CpuAlloc}

/-- The nodes in the `cpuset.mems` of an allocation. -/
def memNodesOf (T : Topology) (a : CpuAlloc) : List ℕ :=
  if 0 ≤ a.primaryNode then [a.primaryNode.toNat]
  else (List.range T.nodes.length).filter fun n => a.memNodes.testBit n

/-- An item as the server or the kernel prints it: ranges have at least two numbers. -/
def ListItem.Printed (max : ℕ) : ListItem → Prop
  | number n => n < max
  | range a b => a < b ∧ b < max

/-- The text lists the nodes `ns` in increasing order, as the server or the kernel writes it. -/
def ListsNodes (T : Topology) (t : List Char) (ns : List ℕ) : Prop :=
  ∃ items : List ListItem, t = listText items ∧ (∀ i ∈ items, i.Printed T.nodes.length) ∧
    items.flatMap ListItem.expand = ns ∧ ns.Pairwise (· < ·)

/-! ### Writing -/

theorem memsLoop_tail {m : ℕ} {l : List ℕ} {buf : List Char} (hl : ∀ n ∈ l, n < 100)
    (hbuf : buf ≠ []) (hroom : buf.length + 3 * l.length < 126) : memsLoop m l buf =
      buf ++ (l.filter fun n => m.testBit n).flatMap fun n => ',' :: Nat.toDigits 10 n := by
  induction l generalizing buf with
  | nil => simp [memsLoop]
  | cons n l ih =>
    have hlen : (Nat.toDigits 10 n).length ≤ 2 :=
      (Nat.length_toDigits_le_iff (by decide) (by decide)).2 (hl n (by simp))
    have hl' : ∀ x ∈ l, x < 100 := fun x hx => hl x (by simp [hx])
    have hempty : buf.isEmpty = false := by simpa using hbuf
    rw [List.length_cons] at hroom
    rw [memsLoop, if_pos (by omega)]
    by_cases hbit : m.testBit n = true
    · have hfits : ¬126 ≤ (buf ++ [',']).length + (Nat.toDigits 10 n).length := by
        rw [List.length_append, List.length_singleton]
        omega
      simp only [hbit, if_true, hempty, Bool.false_eq_true, if_false, hfits]
      rw [ih hl' (by simp) (by simp only [List.length_append, List.length_singleton]; omega),
        List.filter_cons_of_pos hbit, List.flatMap_cons]
      simp
    · rw [if_neg hbit, ih hl' hbuf (by omega), List.filter_cons_of_neg hbit]

theorem memsLoop_eq {m : ℕ} {l : List ℕ} (hl : ∀ n ∈ l, n < 100) (hroom : 3 * l.length < 126) :
    memsLoop m l [] = listText ((l.filter fun n => m.testBit n).map .number) := by
  induction l with
  | nil => rfl
  | cons n l ih =>
    have hlen : (Nat.toDigits 10 n).length ≤ 2 :=
      (Nat.length_toDigits_le_iff (by decide) (by decide)).2 (hl n (by simp))
    have hl' : ∀ x ∈ l, x < 100 := fun x hx => hl x (by simp [hx])
    rw [List.length_cons] at hroom
    rw [memsLoop, if_pos (by decide)]
    by_cases hbit : m.testBit n = true
    · have hfits : ¬126 ≤ ([] : List Char).length + (Nat.toDigits 10 n).length := by
        rw [List.length_nil]
        omega
      simp only [hbit, if_true, List.isEmpty_nil, hfits, if_false, List.nil_append]
      rw [memsLoop_tail hl' Nat.toDigits_ne_nil (by omega), List.filter_cons_of_pos hbit,
        List.map_cons, listText, List.flatMap_map]
      rfl
    · rw [if_neg hbit, ih hl' (by omega), List.filter_cons_of_neg hbit]

/-- The text of `cpu_bind_format_mems`. -/
theorem formatMems_eq (hT : T.nodes.length ≤ 31) (a : CpuAlloc) :
    formatMems T a = listText ((memNodesOf T a).map .number) := by
  unfold formatMems memNodesOf
  split_ifs with hprimary
  · exact (List.append_nil _).symm
  · refine memsLoop_eq (fun n hn => ?_) ?_
    · have := List.mem_range.1 hn
      omega
    · rw [List.length_range]
      omega

theorem formatMems_lists (hT : T.nodes.length ≤ 31) (ha : a.primaryNode < T.nodes.length) :
    ListsNodes T (formatMems T a) (memNodesOf T a) := by
  refine ⟨_, formatMems_eq hT a, fun i hi => ?_, ?_, ?_⟩
  · obtain ⟨n, hn, rfl⟩ := List.mem_map.1 hi
    unfold memNodesOf at hn
    split_ifs at hn with hprimary
    · rw [List.mem_singleton.1 hn]
      show a.primaryNode.toNat < T.nodes.length
      omega
    · exact List.mem_range.1 (List.mem_of_mem_filter hn)
  · rw [List.flatMap_map]
    exact List.flatMap_singleton' _
  · unfold memNodesOf
    split_ifs
    · exact List.pairwise_singleton _ _
    · exact List.pairwise_lt_range.filter _

/-! ### Reading -/

/-- The number `atoi` reads in an item. -/
def ListItem.head : ListItem → ℕ
  | number n => n
  | range a _ => a

theorem atoi_text (i : ListItem) : atoi i.text = i.head := by
  have hstart : ∀ (n : ℕ) (rest : List Char), (∀ c ∈ rest.head?, c.isDigit = false) →
      atoi (Nat.toDigits 10 n ++ rest) = n := by
    intro n rest hrest
    obtain ⟨d, ds, hds⟩ := List.exists_cons_of_ne_nil (@Nat.toDigits_ne_nil n 10)
    have hd : d.isDigit = true := isDigit_toDigits d (by rw [hds]; simp)
    have hne : ∀ x : Char, x.isDigit = false → d ≠ x := by
      rintro x hx rfl
      rw [hx] at hd
      cases hd
    have hskip : ((Nat.toDigits 10 n ++ rest).dropWhile
        fun c => c = ' ' ∨ c = '\t' ∨ c = '\n') = d :: (ds ++ rest) := by
      rw [hds, List.cons_append]
      refine List.dropWhile_cons_of_neg ?_
      simp only [decide_eq_true_eq, not_or]
      exact ⟨hne _ (by decide), hne _ (by decide), hne _ (by decide)⟩
    have hnum := parseNum_toDigits n hrest
    rw [hds, List.cons_append] at hnum
    unfold atoi
    rw [hskip]
    split
    · rename_i heq
      exact absurd (List.cons.inj heq).1 (hne _ (by decide))
    · rename_i heq
      exact absurd (List.cons.inj heq).1 (hne _ (by decide))
    · rw [hnum]
  cases i with
  | number n =>
    have h := hstart n [] (by simp)
    rwa [List.append_nil] at h
  | range a b => exact hstart a _ fun c hc => by obtain rfl := Option.some.inj hc; decide

theorem comma_notMem_text (i : ListItem) : ',' ∉ i.text := by
  have hdigit : ∀ n, ',' ∉ Nat.toDigits 10 n := fun n h => absurd (isDigit_toDigits _ h) (by decide)
  cases i with
  | number n => exact hdigit n
  | range a b => simpa [ListItem.text] using ⟨hdigit a, hdigit b⟩

theorem splitOn_listText {items : List ListItem} (hne : items ≠ []) :
    (listText items).splitOn ',' = items.map ListItem.text := by
  induction items with
  | nil => exact absurd rfl hne
  | cons i items ih =>
    cases items with
    | nil =>
      rw [listText, List.flatMap_nil, List.append_nil]
      exact List.splitOn_eq_singleton (comma_notMem_text i)
    | cons i' items =>
      have hsplit : listText (i :: i' :: items) = i.text ++ ',' :: listText (i' :: items) := by
        rw [listText, List.flatMap_cons, List.cons_append, listText]
      rw [hsplit, List.splitOn_append_cons_self_of_not_mem (comma_notMem_text i), ih (by simp)]
      rfl

theorem strtokComma_listText (items : List ListItem) :
    strtokComma (listText items) = items.map ListItem.text := by
  cases items with
  | nil => rfl
  | cons i items =>
    rw [strtokComma, splitOn_listText (List.cons_ne_nil i items), List.filter_eq_self]
    intro piece hpiece
    obtain ⟨x, -, rfl⟩ := List.mem_map.1 hpiece
    simpa using x.text_ne_nil

/-- The text of a list of nodes fits the buffer of `parse_mems`. -/
theorem length_listText_le {max : ℕ} {items : List ListItem} (hmax : max ≤ 100)
    (h : ∀ i ∈ items, i.Printed max) :
    (listText items).length ≤ 3 * (items.flatMap ListItem.expand).length := by
  have htwo : ∀ n < max, (Nat.toDigits 10 n).length ≤ 2 := fun n hn =>
    (Nat.length_toDigits_le_iff (by decide) (by decide)).2 (by omega)
  have hitem : ∀ i : ListItem, i.Printed max → i.text.length + 1 ≤ 3 * i.expand.length := by
    intro i hi
    cases i with
    | number n =>
      have := htwo n hi
      simp only [ListItem.text, ListItem.expand, List.length_singleton]
      omega
    | range a b =>
      obtain ⟨hab, hb⟩ : a < b ∧ b < max := hi
      have h₁ := htwo a (by omega)
      have h₂ := htwo b hb
      simp only [ListItem.text, ListItem.expand, List.length_append, List.length_cons,
        List.length_range']
      omega
  have htail : ∀ items : List ListItem, (∀ i ∈ items, i.Printed max) →
      (items.flatMap fun i => ',' :: i.text).length ≤
        3 * (items.flatMap ListItem.expand).length := by
    intro items h
    induction items with
    | nil => simp
    | cons i items ih =>
      have h₁ := hitem i (h i List.mem_cons_self)
      have h₂ := ih fun x hx => h x (List.mem_cons_of_mem _ hx)
      simp only [List.flatMap_cons, List.length_append, List.length_cons]
      omega
  cases items with
  | nil => simp [listText]
  | cons i items =>
    have h₁ := hitem i (h i List.mem_cons_self)
    have h₂ := htail items fun x hx => h x (List.mem_cons_of_mem _ hx)
    simp only [listText, List.flatMap_cons, List.length_append]
    omega

/-- `parse_mems` takes the first number for the primary node. -/
theorem parseMems_listText {items : List ListItem} (hlen : (listText items).length ≤ 127)
    (h : ∀ i ∈ items, i.Printed T.nodes.length) :
    (items = [] → parseMems T (listText items) = (-1, 0)) ∧
      ∀ i l, items = i :: l → (parseMems T (listText items)).1 = i.head := by
  have htokens : strtokComma ((listText items).take 127) = items.map ListItem.text := by
    rw [List.take_of_length_le hlen, strtokComma_listText]
  have hhead : ∀ i : ListItem, i.Printed T.nodes.length → i.head < T.nodes.length := by
    intro i hi
    cases i with
    | number n => exact hi
    | range a b => exact hi.1.trans hi.2
  unfold parseMems
  rw [htokens]
  refine ⟨?_, ?_⟩
  · rintro rfl
    rfl
  · rintro i l rfl
    have hi := hhead i (h i List.mem_cons_self)
    have hfirst : 0 ≤ (i.head : ℤ) ∧ (i.head : ℤ) < T.nodes.length := by omega
    rw [List.map_cons, List.foldl_cons]
    simp only [atoi_text, hfirst, and_self, if_true]
    rw [if_pos (by decide)]
    -- the primary node does not change any more
    have hkeep : ∀ (l : List (List Char)) (st : ℤ × ℕ), st.1 = i.head →
        (l.foldl (fun st piece =>
          if 0 ≤ atoi piece ∧ atoi piece < T.nodes.length then
            (if st.1 < 0 then atoi piece else st.1, st.2 ||| 1 <<< (atoi piece).toNat)
          else (st.1, st.2)) st).1 = i.head := by
      intro l
      induction l with
      | nil => exact fun st hst => hst
      | cons piece l ih =>
        intro st hst
        refine ih _ ?_
        dsimp only
        split_ifs with hrange hneg
        · omega
        · exact hst
        · exact hst
    exact hkeep _ _ rfl

/-! ### The restart -/

/-- The record that a restart makes of the text in `cpuset.mems`. -/
def remounted (T : Topology) (a : CpuAlloc) (t : List Char) : CpuAlloc :=
  { a with primaryNode := (parseMems T t).1, memNodes := (parseMems T t).2 }

theorem ListItem.expand_ne_nil {max : ℕ} {i : ListItem} (h : i.Printed max) : i.expand ≠ [] := by
  cases i with
  | number n => exact List.cons_ne_nil n []
  | range a b =>
    obtain ⟨hab, -⟩ : a < b ∧ b < max := h
    exact List.ne_nil_of_length_pos (by simp only [ListItem.expand, List.length_range']; omega)

/-- A list that is one number in decimal stands for this number. -/
theorem eq_number_of_digits {items : List ListItem}
    (h : ∀ c ∈ listText items, c.isDigit = true) :
    items = [] ∨ ∃ n, items = [.number n] := by
  cases items with
  | nil => exact .inl rfl
  | cons i items =>
    cases items with
    | cons i' items => exact absurd (h ',' (by simp [listText])) (by decide)
    | nil =>
      cases i with
      | number n => exact .inr ⟨n, rfl⟩
      | range a b => exact absurd (h '-' (by simp [listText, ListItem.text])) (by decide)

/-- One node is listed as its number. -/
theorem eq_number_of_single {max n : ℕ} {items : List ListItem} (h : ∀ i ∈ items, i.Printed max)
    (hns : items.flatMap ListItem.expand = [n]) : items = [.number n] := by
  cases items with
  | nil => cases hns
  | cons i items =>
    have hi := ListItem.expand_ne_nil (h i List.mem_cons_self)
    cases i with
    | number m =>
      rw [List.flatMap_cons] at hns
      obtain ⟨rfl, hrest⟩ := List.cons.inj hns
      cases items with
      | nil => rfl
      | cons i' items =>
        have hi' := ListItem.expand_ne_nil (h i' (by simp))
        have hnil : i'.expand ++ items.flatMap ListItem.expand = [] := by simpa using hrest
        exact absurd (List.append_eq_nil_iff.1 hnil).1 hi'
    | range a b =>
      obtain ⟨hab, -⟩ : a < b ∧ b < max := h _ List.mem_cons_self
      have hlen := congrArg List.length hns
      simp only [List.flatMap_cons, List.length_append, ListItem.expand, List.length_range',
        List.length_singleton] at hlen
      omega

/-- The text the server wrote and every form in which the kernel may return it lead to the same
nodes again if there is a primary node, or at most one memory node. -/
theorem formatMems_remounted_iff (hT : T.nodes.length ≤ 31) (ha : a.primaryNode < T.nodes.length) :
    ListsNodes T (formatMems T a) (memNodesOf T a) ∧
      ∀ t, ListsNodes T t (memNodesOf T a) →
        (ListsNodes T (formatMems T (remounted T a t)) (memNodesOf T a) ↔
          0 ≤ a.primaryNode ∨ (memNodesOf T a).length ≤ 1) := by
  refine ⟨formatMems_lists hT ha, ?_⟩
  rintro t ⟨items, rfl, hprinted, hns, hsorted⟩
  have hlen : (memNodesOf T a).length ≤ 31 := by
    have hlt : ∀ n ∈ memNodesOf T a, n < T.nodes.length := by
      intro n hn
      unfold memNodesOf at hn
      split_ifs at hn with hprimary
      · rw [List.mem_singleton.1 hn]
        omega
      · exact List.mem_range.1 (List.mem_of_mem_filter hn)
    have hnd : (memNodesOf T a).Nodup := hsorted.imp fun h => ne_of_lt h
    have hle := (hnd.subperm fun n hn => List.mem_range.2 (hlt n hn)).length_le
    rw [List.length_range] at hle
    omega
  have htext : (listText items).length ≤ 127 := by
    have := length_listText_le (by omega) hprinted
    rw [hns] at this
    omega
  obtain ⟨hnil, hcons⟩ := parseMems_listText htext hprinted
  -- with a number in the text, only this one is written
  have hformat : ∀ i l, items = i :: l →
      formatMems T (remounted T a (listText items)) = Nat.toDigits 10 i.head := by
    intro i l hil
    have hprimary := hcons i l hil
    unfold formatMems remounted
    rw [hprimary]
    exact if_pos (Int.natCast_nonneg _)
  constructor
  · rintro ⟨items', htext', -, hns', -⟩
    by_contra hno
    push Not at hno
    obtain ⟨-, hmany⟩ := hno
    cases items with
    | nil =>
      rw [← hns, List.flatMap_nil] at hmany
      exact absurd hmany (by decide)
    | cons i l =>
      rw [hformat i l rfl] at htext'
      obtain rfl | ⟨n, rfl⟩ := eq_number_of_digits (htext' ▸ isDigit_toDigits)
      · rw [← hns', List.flatMap_nil] at hmany
        exact absurd hmany (by decide)
      · rw [← hns'] at hmany
        exact absurd hmany (by simp [ListItem.expand])
  · intro hone
    have hle : (memNodesOf T a).length ≤ 1 := by
      obtain hprimary | hle := hone
      · rw [memNodesOf, if_pos hprimary, List.length_singleton]
      · exact hle
    obtain hempty | ⟨n, hn⟩ : memNodesOf T a = [] ∨ ∃ n, memNodesOf T a = [n] := by
      rw [← List.length_eq_zero_iff, ← List.length_eq_one_iff]
      omega
    · have hitems : items = [] := by
        cases items with
        | nil => rfl
        | cons i l =>
          rw [hempty, List.flatMap_cons] at hns
          exact absurd (List.append_eq_nil_iff.1 hns).1
            (ListItem.expand_ne_nil (hprinted i List.mem_cons_self))
      have hzero : formatMems T (remounted T a (listText items)) = listText [] := by
        have hmem : memNodesOf T (remounted T a (listText items)) = [] := by
          unfold memNodesOf remounted
          rw [hnil hitems, if_neg (show ¬(0 : ℤ) ≤ -1 by decide)]
          exact List.filter_eq_nil_iff.2 fun n _ => by simp
        rw [formatMems_eq hT, hmem, List.map_nil]
      rw [hzero, hempty]
      exact ⟨[], rfl, by simp, rfl, List.Pairwise.nil⟩
    · rw [hn] at hns ⊢
      have hitems := eq_number_of_single hprinted hns
      rw [hformat _ _ hitems]
      subst hitems
      exact ⟨[.number n], (List.append_nil _).symm, hprinted, rfl, List.pairwise_singleton _ _⟩

namespace Bind

variable {b : Bind} {N : ℤ}

/-- The primary node of an allocation is a node of the machine. -/
theorem cpuBindAlloc_primaryNode_lt (Q : Qsort) (hb : b.Consistent T) (ha : b.Fresh a)
    (hok : (b.cpuBindAlloc Q T a N).2.error = false) :
    (b.cpuBindAlloc Q T a N).2.primaryNode < T.nodes.length := by
  obtain ⟨hpos, ns, hpath, -, -, -⟩ := cpuBindAlloc_success Q hb ha hok
  generalize (b.cpuBindAlloc Q T a N).2.primaryNode = pn at hpath
  cases hpath with
  | single hn => exact_mod_cast hn
  | merge hfull hns =>
    have hT : 0 < T.nodes.length := by
      obtain ⟨l, m, rfl, -, -⟩ := hns.split (by omega)
      exact (Nat.zero_le m).trans_lt (hns.nodes.2 m (by simp))
    by_cases hcores : T.maxCoresPerGroup < N.toNat
    · rw [primaryNode, if_pos hcores]
      omega
    · obtain ⟨i, hi, -, hprimary⟩ :=
        primaryNode_eq (Q := Q) hb.counted hT (j := a.jobid) (not_lt.1 hcores)
      have hperm : (nodeOrder Q T b.pool).Perm (List.range T.nodes.length) := nodeOrder_perm Q
      have hlen : i < (nodeOrder Q T b.pool).length := by
        rw [hperm.length_eq, List.length_range]
        have hle := Finset.card_filter_le (Finset.range T.nodes.length)
          fun n => b.pool.nodeFree n = mostFree T b.pool
        rw [Finset.card_range] at hle
        exact hi.trans_le hle
      rw [hprimary, List.getD_eq_getElem _ _ hlen]
      exact_mod_cast List.mem_range.1 (hperm.mem_iff.1 (List.getElem_mem hlen))

/-- **When a restart keeps the memory nodes of a job**: if it has a primary node, or at most one
memory node.  This holds for the text the server wrote and for every form in which the kernel may
return it. -/
theorem mems_restart_iff (Q : Qsort) (hT : T.nodes.length ≤ 31) (hb : b.Consistent T)
    (ha : b.Fresh a) (hok : (b.cpuBindAlloc Q T a N).2.error = false) :
    let a' := (b.cpuBindAlloc Q T a N).2
    ListsNodes T (formatMems T a') (memNodesOf T a') ∧
      ∀ t, ListsNodes T t (memNodesOf T a') →
        (ListsNodes T (formatMems T (remounted T a' t)) (memNodesOf T a') ↔
          0 ≤ a'.primaryNode ∨ (memNodesOf T a').length ≤ 1) :=
  formatMems_remounted_iff hT (cpuBindAlloc_primaryNode_lt Q hb ha hok)

end Bind

/-- The record of job 7, which holds three of the four CPUs and so has no primary node. -/
def jobSevenDone : CpuAlloc :=
  ((Bind.cpuBindInit Bind.twoNodes).cpuBindAlloc .insertion Bind.twoNodes Bind.jobSeven 3).2

theorem jobSevenDone_mems : formatMems Bind.twoNodes jobSevenDone = "0,1".toList ∧
    memNodesOf Bind.twoNodes jobSevenDone = [0, 1] := by
  decide +kernel

theorem jobSevenDone_range :
    ListsNodes Bind.twoNodes "0-1".toList (memNodesOf Bind.twoNodes jobSevenDone) := by
  rw [jobSevenDone_mems.2]
  exact ⟨[.range 0 1], by decide, by simp [ListItem.Printed, Bind.twoNodes], rfl, by decide⟩

theorem jobSevenDone_restart_iff :
    ListsNodes Bind.twoNodes
        (formatMems Bind.twoNodes (remounted Bind.twoNodes jobSevenDone "0-1".toList))
        (memNodesOf Bind.twoNodes jobSevenDone) ↔
      0 ≤ jobSevenDone.primaryNode ∨ (memNodesOf Bind.twoNodes jobSevenDone).length ≤ 1 :=
  (Bind.mems_restart_iff .insertion (by decide) (Bind.cpuBindInit_ok Bind.twoNodes).consistent
    Bind.jobSeven_fresh Bind.jobSeven_succeeds.1).2 _ jobSevenDone_range

/-- After a restart job 7 may use the memory of node 0 only, whichever form the text has. -/
theorem jobSevenDone_narrowed :
    formatMems Bind.twoNodes (remounted Bind.twoNodes jobSevenDone "0,1".toList) = "0".toList ∧
    formatMems Bind.twoNodes (remounted Bind.twoNodes jobSevenDone "0-1".toList) = "0".toList ∧
    ¬ListsNodes Bind.twoNodes "0".toList (memNodesOf Bind.twoNodes jobSevenDone) := by
  refine ⟨by decide +kernel, by decide +kernel, ?_⟩
  rintro ⟨items, htext, -, hns, -⟩
  rw [jobSevenDone_mems.2] at hns
  have hdigit : ∀ c ∈ listText items, c.isDigit = true := by
    intro c hc
    rw [← htext] at hc
    obtain rfl : c = '0' := by simpa using hc
    rfl
  obtain rfl | ⟨n, rfl⟩ := eq_number_of_digits hdigit
  · cases hns
  · exact absurd (congrArg List.length hns) (by simp [ListItem.expand])

end CpuBind

end TaskSpooler
