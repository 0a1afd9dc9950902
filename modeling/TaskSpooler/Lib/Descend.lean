import Mathlib.Data.List.Nodup
import Mathlib.Logic.Relation
import Mathlib.Algebra.Order.Group.Nat

/-!
# Going down a forest

`kids a` lists the children of `a`.  A rank that gets smaller from a parent to its children bounds the
depth of a search, so a search with a bound on its levels is complete (`below_iff`).

`postorder` visits everything below `a`, children first (`mem_postorder`).  If nobody has two parents,
everything is visited once (`nodup_postorder`), and nobody is visited before somebody below him
(`pairwise_postorder`).
-/

namespace TaskSpooler

namespace Descend

open Relation

variable {α : Type*} {kids : α → List α} {rank : α → ℕ} {a b c x y : α} {n : ℕ}

/-- `b` is a child of `a`. -/
def Child (kids : α → List α) (a b : α) : Prop := b ∈ kids a

/-- The rank gets smaller from a parent to its children. -/
def Descending (kids : α → List α) (rank : α → ℕ) : Prop := ∀ a, ∀ b ∈ kids a, rank b < rank a

/-- Nobody has two parents, or is listed twice. -/
structure Forest (kids : α → List α) : Prop where
  nodup : ∀ a, (kids a).Nodup
  parent : ∀ a a' b, b ∈ kids a → b ∈ kids a' → a = a'

/-- `b` is found below `a`, on one of the next `n` levels. -/
def below [DecidableEq α] (kids : α → List α) : ℕ → α → α → Bool
  | 0, _, _ => false
  | n + 1, a, b => (kids a).any fun c => c = b || below kids n c b

/-- Everything on the next `n` levels from `a` on, children first. -/
def postorder (kids : α → List α) : ℕ → α → List α
  | 0, _ => []
  | n + 1, a => (kids a).flatMap (postorder kids n) ++ [a]

theorem rank_lt (hrank : Descending kids rank) (h : TransGen (Child kids) a b) : rank b < rank a := by
  induction h with
  | single h => exact hrank _ _ h
  | tail _ h ih => exact (hrank _ _ h).trans ih

theorem rank_le (hrank : Descending kids rank) (h : ReflTransGen (Child kids) a b) : rank b ≤ rank a := by
  obtain rfl | h := reflTransGen_iff_eq_or_transGen.1 h
  · exact Nat.le_refl _
  · exact (rank_lt hrank h).le

/-- Two that have somebody below them in common are one below the other. -/
theorem comparable (hparent : ∀ a a' b, b ∈ kids a → b ∈ kids a' → a = a')
    (ha : ReflTransGen (Child kids) a x) (hb : ReflTransGen (Child kids) b x) :
    ReflTransGen (Child kids) a b ∨ ReflTransGen (Child kids) b a := by
  have hup : Relator.RightUnique (Function.swap (Child kids)) := fun x a a' ha ha' =>
    hparent a a' x ha ha'
  have hswap : ∀ {c}, ReflTransGen (Child kids) c x → ReflTransGen (Function.swap (Child kids)) x c :=
    fun h => reflTransGen_swap.2 h
  obtain h | h := ReflTransGen.total_of_right_unique hup (hswap ha) (hswap hb)
  · exact .inr (reflTransGen_swap.1 h)
  · exact .inl (reflTransGen_swap.1 h)

/-! ### Searching -/

/-- **A search that is deep enough finds what is below**, and nothing else. -/
theorem below_iff [DecidableEq α] (hrank : Descending kids rank) (hn : rank a ≤ n) :
    below kids n a b = true ↔ TransGen (Child kids) a b := by
  induction n generalizing a with
  | zero =>
    refine ⟨fun h => Bool.noConfusion h, fun h => ?_⟩
    have hlt := rank_lt hrank h
    omega
  | succ n ih =>
    have hchild : ∀ c ∈ kids a, (below kids n c b = true ↔ TransGen (Child kids) c b) := fun c hc =>
      ih (by have := hrank a c hc; omega)
    rw [below, List.any_eq_true, TransGen.head'_iff]
    constructor
    · rintro ⟨c, hc, h⟩
      rw [Bool.or_eq_true, decide_eq_true_eq] at h
      obtain rfl | h := h
      · exact ⟨c, hc, .refl⟩
      · exact ⟨c, hc, ((hchild c hc).1 h).to_reflTransGen⟩
    · rintro ⟨c, hc, h⟩
      refine ⟨c, hc, ?_⟩
      rw [Bool.or_eq_true, decide_eq_true_eq]
      obtain rfl | h := reflTransGen_iff_eq_or_transGen.1 h
      · exact .inl rfl
      · exact .inr ((hchild c hc).2 h)

/-- Only the children of what is below matter. -/
theorem below_congr [DecidableEq α] {kids' : α → List α}
    (h : ∀ x, ReflTransGen (Child kids) a x → kids' x = kids x) :
    below kids' n a b = below kids n a b := by
  induction n generalizing a with
  | zero => rfl
  | succ n ih =>
    have hchild : ∀ c ∈ kids a, below kids' n c b = below kids n c b := fun c hc =>
      ih fun x hx => h x (hx.head hc)
    rw [below, below, h a .refl]
    refine Bool.eq_iff_iff.2 ?_
    rw [List.any_eq_true, List.any_eq_true]
    refine exists_congr fun c => and_congr_right fun hc => ?_
    rw [hchild c hc]

/-! ### Visiting -/

/-- **Everything below is visited**, and nothing else. -/
theorem mem_postorder (hrank : Descending kids rank) (hn : rank a < n) :
    x ∈ postorder kids n a ↔ ReflTransGen (Child kids) a x := by
  induction n generalizing a with
  | zero => omega
  | succ n ih =>
    have hchild : ∀ c ∈ kids a, (x ∈ postorder kids n c ↔ ReflTransGen (Child kids) c x) :=
      fun c hc => ih (by have := hrank a c hc; omega)
    rw [postorder, List.mem_append, List.mem_flatMap, List.mem_singleton,
      ReflTransGen.cases_head_iff]
    constructor
    · rintro (⟨c, hc, h⟩ | rfl)
      · exact .inr ⟨c, hc, (hchild c hc).1 h⟩
      · exact .inl rfl
    · rintro (rfl | ⟨c, hc, h⟩)
      · exact .inr rfl
      · exact .inl ⟨c, hc, (hchild c hc).2 h⟩

/-- What is below two siblings would be below a cycle. -/
theorem siblings_apart (hrank : Descending kids rank) (hf : Forest kids) (hb : b ∈ kids a)
    (hc : c ∈ kids a) (hne : b ≠ c) (hbx : ReflTransGen (Child kids) b x)
    (hcx : ReflTransGen (Child kids) c x) : False := by
  have hunder : ∀ {b c}, b ∈ kids a → c ∈ kids a → b ≠ c → ReflTransGen (Child kids) b c → False := by
    intro b c hb hc hne h
    obtain rfl | ⟨d, hbd, hdc⟩ := ReflTransGen.cases_tail_iff _ _ _ |>.1 h
    · exact hne rfl
    · -- the parent of `c` is `a`, so `a` is below its own child
      obtain rfl : d = a := hf.parent d a c hdc hc
      have hle := rank_le hrank hbd
      have hlt := hrank d b hb
      omega
  obtain h | h := comparable hf.parent hbx hcx
  · exact hunder hb hc hne h
  · exact hunder hc hb hne.symm h

theorem nodup_postorder (hrank : Descending kids rank) (hf : Forest kids) (hn : rank a < n) :
    (postorder kids n a).Nodup := by
  induction n generalizing a with
  | zero => exact List.nodup_nil
  | succ n ih =>
    have hlt : ∀ c ∈ kids a, rank c < n := fun c hc => by have := hrank a c hc; omega
    rw [postorder, List.nodup_append, List.nodup_flatMap]
    refine ⟨⟨fun c hc => ih (hlt c hc), ?_⟩, List.nodup_singleton a, ?_⟩
    · refine (hf.nodup a).imp_of_mem fun {b c} hb hc hne x hxb hxc => ?_
      exact siblings_apart hrank hf hb hc hne ((mem_postorder hrank (hlt b hb)).1 hxb)
        ((mem_postorder hrank (hlt c hc)).1 hxc)
    · rintro x hx y hy rfl
      obtain rfl := List.mem_singleton.1 hy
      obtain ⟨c, hc, hx⟩ := List.mem_flatMap.1 hx
      have hle := rank_le hrank ((mem_postorder hrank (hlt c hc)).1 hx)
      have hlt := hrank x c hc
      omega

/-- **Children first**: nobody is visited before somebody below him. -/
theorem pairwise_postorder (hrank : Descending kids rank) (hf : Forest kids) (hn : rank a < n) :
    (postorder kids n a).Pairwise fun x y => ¬TransGen (Child kids) x y := by
  induction n generalizing a with
  | zero => exact List.Pairwise.nil
  | succ n ih =>
    have hlt : ∀ c ∈ kids a, rank c < n := fun c hc => by have := hrank a c hc; omega
    rw [postorder, List.pairwise_append, List.pairwise_flatMap]
    refine ⟨⟨fun c hc => ih (hlt c hc), ?_⟩, List.pairwise_singleton _ a, ?_⟩
    · refine (hf.nodup a).imp_of_mem fun {b c} hb hc hne x hx y hy hxy => ?_
      exact siblings_apart hrank hf hb hc hne
        (((mem_postorder hrank (hlt b hb)).1 hx).trans hxy.to_reflTransGen)
        ((mem_postorder hrank (hlt c hc)).1 hy)
    · intro x hx y hy hxy
      obtain rfl := List.mem_singleton.1 hy
      obtain ⟨c, hc, hx⟩ := List.mem_flatMap.1 hx
      have hle := rank_le hrank ((mem_postorder hrank (hlt c hc)).1 hx)
      have hbelow := rank_lt hrank hxy
      have hlt := hrank y c hc
      omega

end Descend

end TaskSpooler
