import TaskSpooler.Lib.Count
import Mathlib.Data.List.Perm.Basic

/-!
# Lists of records with a key

The tables of the program are lists of records that are looked up, changed and removed by a key.
`modify c k f l` changes the records whose column `c` is `k`, `remove c k l` removes the first of them.
When the keys are distinct (`(l.map c).Nodup`) there is at most one such record, and these
lemmas say what a change does to membership and to a sum over the list.
-/

namespace TaskSpooler

namespace Keyed

variable {α κ : Type*} [DecidableEq κ] (c : α → κ)

/-- Apply `f` to the records with key `k`. -/
def modify (k : κ) (f : α → α) (l : List α) : List α := l.map fun a => if c a = k then f a else a

/-- Apply `f` to the first record with key `k`. -/
def modifyFirst (k : κ) (f : α → α) : List α → List α
  | [] => []
  | a :: l => if c a = k then f a :: l else a :: modifyFirst k f l

/-- The first record with key `k`. -/
def lookup (k : κ) (l : List α) : Option α := l.find? fun a => c a = k

/-- Remove the first record with key `k`. -/
def remove (k : κ) (l : List α) : List α := l.eraseP fun a => c a = k

variable {c} {k : κ} {f : α → α} {l : List α} {a b : α}

theorem mem_of_lookup (h : lookup c k l = some a) : a ∈ l := List.mem_of_find?_eq_some h

theorem key_of_lookup (h : lookup c k l = some a) : c a = k := by
  simpa using List.find?_some h

theorem lookup_eq_none : lookup c k l = none ↔ ∀ a ∈ l, c a ≠ k := by
  simp [lookup]

omit [DecidableEq κ] in
theorem eq_of_key (hnd : (l.map c).Nodup) (ha : a ∈ l) (hb : b ∈ l) (h : c a = c b) :
    a = b :=
  List.inj_on_of_nodup_map hnd ha hb h

theorem isSome_lookup : (lookup c k l).isSome ↔ k ∈ l.map c := by
  rw [Option.isSome_iff_ne_none, ne_eq, lookup_eq_none, List.mem_map]
  simp

theorem lookup_of_mem (hnd : (l.map c).Nodup) (ha : a ∈ l) : lookup c (c a) l = some a := by
  cases hl : lookup c (c a) l with
  | none => exact absurd rfl (lookup_eq_none.1 hl a ha)
  | some b => rw [eq_of_key hnd (mem_of_lookup hl) ha (key_of_lookup hl)]

/-! ### Mapping the records -/

section Map

variable {β : Type*} {h : α → β} {d : β → κ}

theorem lookup_map (hkey : ∀ a, d (h a) = c a) :
    lookup d k (l.map h) = (lookup c k l).map h := by
  rw [lookup, List.find?_map]
  congr 2
  funext a
  simp only [Function.comp_apply, hkey]

theorem modify_map (hkey : ∀ a, d (h a) = c a) {g : β → β} (hg : ∀ a, g (h a) = h (f a)) :
    modify d k g (l.map h) = (modify c k f l).map h := by
  simp only [modify, List.map_map]
  refine List.map_congr_left fun a _ => ?_
  simp only [Function.comp_apply, hkey]
  split_ifs
  · exact hg a
  · rfl

theorem modifyFirst_map (hkey : ∀ a, d (h a) = c a) {g : β → β}
    (hg : ∀ a, g (h a) = h (f a)) :
    modifyFirst d k g (l.map h) = (modifyFirst c k f l).map h := by
  induction l with
  | nil => rfl
  | cons a l ih =>
    simp only [List.map_cons, modifyFirst, hkey]
    split_ifs
    · rw [List.map_cons, hg]
    · rw [List.map_cons, ih]

theorem remove_map (hkey : ∀ a, d (h a) = c a) :
    remove d k (l.map h) = (remove c k l).map h := by
  rw [remove, List.eraseP_map]
  congr 2
  funext a
  simp only [Function.comp_apply, hkey]

end Map

/-! ### Changing one record -/

@[simp] theorem length_modify : (modify c k f l).length = l.length := by simp [modify]

theorem map_modify {β : Type*} {g : α → β} (hg : ∀ a ∈ l, c a = k → g (f a) = g a) :
    (modify c k f l).map g = l.map g := by
  rw [modify, List.map_map]
  refine List.map_congr_left fun a ha => ?_
  simp only [Function.comp_apply]
  split_ifs with h
  · exact hg a ha h
  · rfl

theorem map_modifyFirst {β : Type*} {g : α → β} (hg : ∀ a ∈ l, c a = k → g (f a) = g a) :
    (modifyFirst c k f l).map g = l.map g := by
  induction l with
  | nil => rfl
  | cons a l ih =>
    rw [modifyFirst]
    split_ifs with h
    · rw [List.map_cons, hg a List.mem_cons_self h, List.map_cons]
    · rw [List.map_cons, ih fun b hb => hg b (List.mem_cons_of_mem _ hb), List.map_cons]

theorem mem_modifyFirst (h : b ∈ modifyFirst c k f l) :
    b ∈ l ∨ ∃ a ∈ l, c a = k ∧ b = f a := by
  induction l with
  | nil => cases h
  | cons a l ih =>
    rw [modifyFirst] at h
    split_ifs at h with hk
    · obtain rfl | h := List.mem_cons.1 h
      · exact .inr ⟨a, List.mem_cons_self, hk, rfl⟩
      · exact .inl (List.mem_cons_of_mem _ h)
    · obtain rfl | h := List.mem_cons.1 h
      · exact .inl List.mem_cons_self
      · obtain h | ⟨x, hx, hkey, rfl⟩ := ih h
        · exact .inl (List.mem_cons_of_mem _ h)
        · exact .inr ⟨x, List.mem_cons_of_mem _ hx, hkey, rfl⟩

theorem mem_modify : b ∈ modify c k f l ↔
    (∃ a ∈ l, c a = k ∧ b = f a) ∨ (b ∈ l ∧ c b ≠ k) := by
  simp only [modify, List.mem_map]
  constructor
  · rintro ⟨a, ha, rfl⟩
    split_ifs with h
    · exact .inl ⟨a, ha, h, rfl⟩
    · exact .inr ⟨ha, h⟩
  · rintro (⟨a, ha, h, rfl⟩ | ⟨hb, h⟩)
    · exact ⟨a, ha, if_pos h⟩
    · exact ⟨b, hb, if_neg h⟩

/-- Membership after a change, when the keys are distinct. -/
theorem mem_modify_of_mem (hnd : (l.map c).Nodup) (ha : a ∈ l) :
    b ∈ modify c (c a) f l ↔ b = f a ∨ (b ∈ l ∧ c b ≠ c a) := by
  rw [mem_modify]
  refine or_congr_left ⟨?_, fun h => ⟨a, ha, rfl, h⟩⟩
  rintro ⟨x, hx, hxa, rfl⟩
  rw [eq_of_key hnd hx ha hxa]

theorem modify_of_notMem (h : ∀ a ∈ l, c a ≠ k) : modify c k f l = l := by
  rw [modify]
  conv_rhs => rw [← List.map_id l]
  exact List.map_congr_left fun a ha => if_neg (h a ha)

theorem modify_modify {g : α → α} (hg : ∀ a, c a = k → c (g a) = k) :
    modify c k f (modify c k g l) = modify c k (fun a => f (g a)) l := by
  simp only [modify, List.map_map]
  refine List.map_congr_left fun a _ => ?_
  simp only [Function.comp_apply]
  by_cases h : c a = k
  · simp [h, hg a h]
  · simp [h]

/-- A change that does nothing to the one record with the c. -/
theorem modify_eq_self (hnd : (l.map c).Nodup) (ha : a ∈ l) (h : f a = a) :
    modify c (c a) f l = l := by
  rw [modify]
  conv_rhs => rw [← List.map_id l]
  refine List.map_congr_left fun b hb => ?_
  split_ifs with hk
  · rw [eq_of_key hnd hb ha hk, h, id_eq]
  · rfl

/-- The list after a change, up to its order. -/
theorem perm_modify (hnd : (l.map c).Nodup) (ha : a ∈ l) :
    (a :: modify c (c a) f l).Perm (f a :: l) := by
  induction l with
  | nil => simp at ha
  | cons x l ih =>
    rw [List.map_cons, List.nodup_cons] at hnd
    rcases List.mem_cons.1 ha with rfl | hmem
    · have hrest : modify c (c a) f l = l :=
        modify_of_notMem fun y hy h => hnd.1 (h ▸ List.mem_map_of_mem hy)
      have hcons : modify c (c a) f (a :: l) = f a :: modify c (c a) f l := by
        simp [modify]
      rw [hcons, hrest]
      exact List.Perm.swap ..
    · have hne : c x ≠ c a := fun h => hnd.1 (h ▸ List.mem_map_of_mem hmem)
      have hcons : modify c (c a) f (x :: l) = x :: modify c (c a) f l := by
        simp [modify, hne]
      rw [hcons]
      exact (List.Perm.swap ..).trans (((ih hnd.2 hmem).cons x).trans (List.Perm.swap ..))

/-- A sum over the list changes by the change of the record. -/
theorem sum_modify (w : α → ℤ) (hnd : (l.map c).Nodup) (ha : a ∈ l) :
    ((modify c (c a) f l).map w).sum = (l.map w).sum + (w (f a) - w a) := by
  have := ((perm_modify (f := f) hnd ha).map w).sum_eq
  rw [List.map_cons, List.sum_cons, List.map_cons, List.sum_cons] at this
  omega

/-! ### Removing one record -/

theorem perm_cons_remove (hnd : (l.map c).Nodup) (ha : a ∈ l) :
    l.Perm (a :: remove c (c a) l) := by
  obtain ⟨x, l₁, l₂, -, hx, heq, herase⟩ :=
    List.exists_of_eraseP (p := fun x => decide (c x = c a)) ha (by simp)
  have hxa : x = a := eq_of_key hnd (by simp [heq]) ha (by simpa using hx)
  rw [remove, herase, heq, hxa]
  exact List.perm_middle

theorem remove_subset : remove c k l ⊆ l := List.eraseP_sublist.subset

theorem remove_of_notMem (h : ∀ a ∈ l, c a ≠ k) : remove c k l = l :=
  List.eraseP_of_forall_not fun a ha => by simpa using h a ha

theorem mem_remove (hnd : (l.map c).Nodup) : b ∈ remove c k l ↔ b ∈ l ∧ c b ≠ k := by
  by_cases hk : ∃ a ∈ l, c a = k
  · obtain ⟨a, ha, rfl⟩ := hk
    have hperm := perm_cons_remove hnd ha
    have hnd' := (hperm.map c).nodup_iff.1 hnd
    rw [List.map_cons, List.nodup_cons] at hnd'
    rw [hperm.mem_iff, List.mem_cons]
    constructor
    · exact fun h => ⟨.inr h, fun hb => hnd'.1 (List.mem_map.2 ⟨b, h, hb⟩)⟩
    · rintro ⟨rfl | h, hb⟩
      · exact absurd rfl hb
      · exact h
  · push Not at hk
    rw [remove_of_notMem hk]
    exact ⟨fun h => ⟨h, hk b h⟩, And.left⟩

theorem remove_eq_filter (hnd : (l.map c).Nodup) :
    remove c k l = l.filter fun a => c a ≠ k := by
  induction l with
  | nil => rfl
  | cons a l ih =>
    rw [List.map_cons, List.nodup_cons] at hnd
    by_cases hk : c a = k
    · have hall : ∀ b ∈ l, c b ≠ k := fun b hb h => hnd.1 (List.mem_map.2 ⟨b, hb, h.trans hk.symm⟩)
      rw [remove, List.eraseP_cons_of_pos (by simpa using hk), List.filter_cons_of_neg (by simpa using hk)]
      exact (List.filter_eq_self.2 fun b hb => by simpa using hall b hb).symm
    · rw [remove, List.eraseP_cons_of_neg (by simpa using hk),
        List.filter_cons_of_pos (by simpa using hk), ← ih hnd.2]
      rfl

theorem remove_modify (hnd : (l.map c).Nodup) (hf : ∀ a, c (f a) = c a) :
    remove c k (modify c k f l) = remove c k l := by
  induction l with
  | nil => rfl
  | cons x l ih =>
    rw [List.map_cons, List.nodup_cons] at hnd
    by_cases hx : c x = k
    · have hrest : modify c k f l = l :=
        modify_of_notMem fun y hy h => hnd.1 (hx.trans h.symm ▸ List.mem_map_of_mem hy)
      have hcons : modify c k f (x :: l) = f x :: modify c k f l := by simp [modify, hx]
      rw [hcons, hrest, remove, remove, List.eraseP_cons_of_pos (by simp [hf, hx]),
        List.eraseP_cons_of_pos (by simp [hx])]
    · have hcons : modify c k f (x :: l) = x :: modify c k f l := by simp [modify, hx]
      rw [hcons, remove, remove, List.eraseP_cons_of_neg (by simp [hx]),
        List.eraseP_cons_of_neg (by simp [hx])]
      exact congrArg _ (ih hnd.2)

theorem lookup_modify (hf : ∀ a, c a = k → c (f a) = k) (k' : κ) :
    lookup c k' (modify c k f l) =
      if k' = k then (lookup c k' l).map f else lookup c k' l := by
  induction l with
  | nil => split_ifs <;> rfl
  | cons x l ih =>
    have hcons : modify c k f (x :: l) = (if c x = k then f x else x) :: modify c k f l := rfl
    have hkey : c (if c x = k then f x else x) = c x := by
      split_ifs with hx
      · exact (hf x hx).trans hx.symm
      · rfl
    rw [lookup] at ih ⊢
    rw [hcons, lookup, List.find?_cons, List.find?_cons, hkey]
    by_cases hx : c x = k'
    · subst hx
      simp only [decide_true]
      split_ifs <;> rfl
    · simp only [hx, decide_false]
      exact ih

theorem lookup_modifyFirst (hf : ∀ a, c (f a) = c a) :
    lookup c k (modifyFirst c k f l) = (lookup c k l).map f := by
  induction l with
  | nil => rfl
  | cons x l ih =>
    by_cases hx : c x = k
    · rw [modifyFirst, if_pos hx, lookup, lookup, List.find?_cons_of_pos (by simpa [hf] using hx),
        List.find?_cons_of_pos (by simpa using hx), Option.map_some]
    · rw [modifyFirst, if_neg hx, lookup, lookup, List.find?_cons_of_neg (by simpa using hx),
        List.find?_cons_of_neg (by simpa using hx)]
      exact ih

/-! ### A key that occurs once -/

theorem lookup_of_count (hone : (l.map c).count k ≤ 1) (ha : a ∈ l) (hk : c a = k) :
    lookup c k l = some a := by
  induction l with
  | nil => exact absurd ha List.not_mem_nil
  | cons x l ih =>
    rw [List.map_cons, List.count_cons] at hone
    by_cases hx : c x = k
    · have hrest : k ∉ l.map c := by
        rw [← List.count_eq_zero]
        simp only [hx, BEq.rfl, if_true] at hone
        omega
      rw [lookup, List.find?_cons_of_pos (by simpa using hx)]
      obtain rfl | ha := List.mem_cons.1 ha
      · rfl
      · exact absurd (hk ▸ List.mem_map_of_mem ha) hrest
    · rw [lookup, List.find?_cons_of_neg (by simpa using hx)]
      obtain rfl | ha := List.mem_cons.1 ha
      · exact absurd hk hx
      · exact ih (by omega) ha

theorem notMem_remove_of_count (hone : (l.map c).count k ≤ 1) : k ∉ (remove c k l).map c := by
  induction l with
  | nil => exact List.not_mem_nil
  | cons x l ih =>
    rw [List.map_cons, List.count_cons] at hone
    by_cases hx : c x = k
    · rw [remove, List.eraseP_cons_of_pos (by simpa using hx), ← List.count_eq_zero]
      simp only [hx, BEq.rfl, if_true] at hone
      omega
    · rw [remove, List.eraseP_cons_of_neg (by simpa using hx), List.map_cons, List.mem_cons, not_or]
      exact ⟨fun h => hx h.symm, ih (by omega)⟩

/-- A list with some of its elements moved to its end. -/
theorem perm_move_last {ks : List κ} (hnd : (l.map c).Nodup) (hks : ks.Nodup) :
    ((l.filter fun a => c a ∉ ks) ++ ks.filterMap fun k => lookup c k l).Perm l := by
  have hmem : ∀ a, (a ∈ ks.filterMap fun k => lookup c k l) ↔ a ∈ l ∧ c a ∈ ks := by
    intro a
    rw [List.mem_filterMap]
    constructor
    · rintro ⟨k, hk, ha⟩
      exact ⟨mem_of_lookup ha, key_of_lookup ha ▸ hk⟩
    · rintro ⟨ha, hk⟩
      exact ⟨c a, hk, lookup_of_mem hnd ha⟩
  have hlast : (ks.filterMap fun k => lookup c k l).Nodup := by
    refine hks.filterMap fun k₁ k₂ a h₁ h₂ => ?_
    rw [← key_of_lookup h₁, ← key_of_lookup h₂]
  have hl : l.Nodup := hnd.of_map c
  refine (List.perm_ext_iff_of_nodup ?_ hl).2 fun a => ?_
  · refine List.nodup_append.2 ⟨hl.filter _, hlast, ?_⟩
    rintro a ha b hb rfl
    have hkey := ((hmem a).1 hb).2
    simp [hkey] at ha
  · rw [List.mem_append, hmem, List.mem_filter]
    by_cases hk : c a ∈ ks <;> simp [hk]

end Keyed

end TaskSpooler
