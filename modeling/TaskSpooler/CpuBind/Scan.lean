import TaskSpooler.CpuBind.Cpuset

/-!
# The scan of a CPU list

`cpu_bind_parse_cpuset` reads a text as items, `Scanned`: numbers, or ranges with a dash, with
separators around them.  It does not insist on the digits.

* `parseLoop_scanned`: the loop reads the items one after the other,
* `cpuset_round_trip`: lists as the server writes them and as the kernel does are read back,
* `parseCpuset_strict_iff`: when the parser ends and accepts only well-formed lists.
-/

namespace TaskSpooler

namespace CpuBind

variable {maxOsCpu maxCpus : ℕ} {cs rest : List Char} {cpus : List ℕ}

/-! ### Items -/

/-- An item as the scan takes it: digits, and perhaps a dash and digits.  Both may be missing. -/
structure Item where
  first : List Char
  last : Option (List Char)

namespace Item

variable {i : Item}

/-- The text of the item. -/
def text (i : Item) : List Char :=
  match i.last with
  | none => i.first
  | some ds => i.first ++ '-' :: ds

/-- The first CPU, as the scan computes it. -/
def lo (i : Item) : ℤ := intOf i.first

/-- The last CPU, as the scan computes it. -/
def hi (i : Item) : ℤ := intOf (i.last.getD i.first)

/-- The check of the scan. -/
def InRange (maxOsCpu : ℕ) (i : Item) : Prop :=
  0 ≤ i.lo ∧ i.lo < maxOsCpu ∧ i.lo ≤ i.hi ∧ i.hi < maxOsCpu

/-- The CPUs of the item. -/
def expand (i : Item) : List ℕ := List.range' i.lo.toNat (i.hi + 1 - i.lo).toNat

/-- The item ends where `rest` begins. -/
structure Ends (i : Item) (rest : List Char) : Prop where
  digits_first : ∀ c ∈ i.first, c.isDigit = true
  digits_last : ∀ ds, i.last = some ds → ∀ c ∈ ds, c.isDigit = true
  stop : ∀ c ∈ rest.head?, c.isDigit = false ∧ (i.last = none → c ≠ '-')

/-- A decimal number below `maxOsCpu`, or a range `a-b` of such numbers with `a ≤ b`. -/
structure Strict (maxOsCpu : ℕ) (i : Item) : Prop where
  first_ne : i.first ≠ []
  last_ne : i.last ≠ some []
  le : Nat.ofDigitChars 10 i.first 0 ≤ Nat.ofDigitChars 10 (i.last.getD i.first) 0
  lt : Nat.ofDigitChars 10 (i.last.getD i.first) 0 < maxOsCpu

theorem Strict.inRange (h : i.Strict maxOsCpu) (hmax : maxOsCpu ≤ 2 ^ 31) :
    i.InRange maxOsCpu := by
  have hle := h.le
  have hlt := h.lt
  unfold InRange lo hi
  rw [intOf_of_lt (by omega), intOf_of_lt (by omega)]
  omega

theorem InRange.expand_lt (h : i.InRange maxOsCpu) : ∀ c ∈ i.expand, c < maxOsCpu := by
  intro c hc
  obtain ⟨h₀, h₁, h₂, h₃⟩ := h
  rw [expand, List.mem_range'_1] at hc
  omega

/-- A text of items starts with a digit or a dash. -/
theorem Ends.head (h : i.Ends rest) (hne : i.text ≠ []) :
    ∃ c cs, i.text = c :: cs ∧ ¬(c = ' ' ∨ c = ',') := by
  obtain ⟨c, cs, hcs⟩ := List.exists_cons_of_ne_nil hne
  refine ⟨c, cs, hcs, ?_⟩
  have hdigit : c.isDigit = true ∨ c = '-' := by
    obtain ⟨first, last⟩ := i
    cases first with
    | cons d ds =>
      left
      have hd := h.digits_first d List.mem_cons_self
      cases last <;> · obtain ⟨rfl, -⟩ := List.cons.inj hcs; exact hd
    | nil =>
      cases last with
      | none => exact absurd rfl hne
      | some ds => exact .inr (List.cons.inj hcs).1.symm
  rintro (rfl | rfl)
  · exact absurd hdigit (by decide)
  · exact absurd hdigit (by decide)

end Item

/-- Every text begins with an item, which may be empty. -/
theorem exists_item (cs : List Char) : ∃ (i : Item) (rest : List Char),
    cs = i.text ++ rest ∧ i.Ends rest := by
  have hdigits : ∀ cs : List Char, ∀ c ∈ cs.takeWhile Char.isDigit, c.isDigit = true :=
    fun cs c hc => List.mem_takeWhile_imp hc
  have hstop : ∀ cs : List Char, ∀ c ∈ (cs.dropWhile Char.isDigit).head?, c.isDigit = false := by
    intro cs c hc
    have := List.head?_dropWhile_not Char.isDigit cs
    rw [Option.mem_def.1 hc] at this
    simpa using this
  have hsplit : cs = cs.takeWhile Char.isDigit ++ cs.dropWhile Char.isDigit :=
    List.takeWhile_append_dropWhile.symm
  by_cases hdash : (cs.dropWhile Char.isDigit).head? = some '-'
  · obtain ⟨tail, htail⟩ : ∃ tail, cs.dropWhile Char.isDigit = '-' :: tail :=
      List.head?_eq_some_iff.1 hdash
    refine ⟨⟨cs.takeWhile Char.isDigit, some (tail.takeWhile Char.isDigit)⟩,
      tail.dropWhile Char.isDigit, ?_, hdigits cs, ?_, ?_⟩
    · rw [Item.text, List.append_assoc, List.cons_append, List.takeWhile_append_dropWhile, ← htail]
      exact hsplit
    · rintro ds ⟨⟩
      exact hdigits tail
    · exact fun c hc => ⟨hstop tail c hc, fun h => absurd h (by simp)⟩
  · refine ⟨⟨cs.takeWhile Char.isDigit, none⟩, cs.dropWhile Char.isDigit, hsplit, hdigits cs,
      fun ds h => absurd h (by simp), fun c hc => ⟨hstop cs c hc, fun _ hcd => hdash ?_⟩⟩
    rw [Option.mem_def.1 hc, hcd]

/-- `cs` is read as the items, up to `rest`. -/
inductive Scanned : List Char → List Item → List Char → Prop
  | done {cs : List Char} : Scanned cs [] cs
  | sep {c : Char} {cs rest : List Char} {items : List Item} (hc : c = ' ' ∨ c = ',') :
      Scanned cs items rest → Scanned (c :: cs) items rest
  | item {i : Item} {cs rest : List Char} {items : List Item} (hi : i.Ends cs) (hne : i.text ≠ []) :
      Scanned cs items rest → Scanned (i.text ++ cs) (i :: items) rest

/-! ### The loop -/

theorem parseLoop_sep {c : Char} (fuel : ℕ) (hc : c = ' ' ∨ c = ',') :
    parseLoop maxOsCpu maxCpus fuel (c :: cs) cpus = parseLoop maxOsCpu maxCpus fuel cs cpus := by
  have hskip : ((c :: cs).dropWhile fun c => c = ' ' ∨ c = ',') =
      cs.dropWhile fun c => c = ' ' ∨ c = ',' := List.dropWhile_cons_of_pos (by simpa using hc)
  rw [parseLoop.eq_def, hskip, ← parseLoop.eq_def]

theorem parseLoop_nil (fuel : ℕ) : parseLoop maxOsCpu maxCpus fuel [] cpus = .ok cpus := by
  simp [parseLoop]

/-- One item: its CPUs are stored while there is room, or the list is rejected. -/
theorem parseLoop_item {i : Item} (fuel : ℕ) (hi : i.Ends rest) (hne : i.text ≠ []) :
    (i.InRange maxOsCpu → parseLoop maxOsCpu maxCpus (fuel + 1) (i.text ++ rest) cpus =
      parseLoop maxOsCpu maxCpus fuel rest (cpus ++ i.expand.take (maxCpus - cpus.length))) ∧
    (¬i.InRange maxOsCpu →
      parseLoop maxOsCpu maxCpus (fuel + 1) (i.text ++ rest) cpus = .error .invalid) := by
  obtain ⟨c, cs, hcs, hc⟩ := hi.head hne
  have hskip : ((i.text ++ rest).dropWhile fun c => c = ' ' ∨ c = ',') = c :: (cs ++ rest) := by
    rw [hcs, List.cons_append]
    exact List.dropWhile_cons_of_neg (by simpa using hc)
  have htext : c :: (cs ++ rest) = i.text ++ rest := by rw [hcs, List.cons_append]
  rw [parseLoop.eq_def, hskip]
  simp only [htext]
  obtain ⟨first, last⟩ := i
  cases last with
  | none =>
    have hspan := span_digits hi.digits_first fun c hc => (hi.stop c hc).1
    have hparse : parseInt (first ++ rest) = (intOf first, rest) := by
      rw [parseInt, hspan.1, hspan.2]
      rfl
    have hrest : ∀ r, rest ≠ '-' :: r := by
      rintro r rfl
      exact (hi.stop '-' rfl).2 rfl rfl
    simp only [Item.text, Item.InRange, Item.expand, Item.lo, Item.hi, Option.getD_none, hparse]
    refine ⟨fun h => ?_, fun h => if_pos (by omega)⟩
    -- a lone number is a range of one CPU, which may not fit any more
    have hone : (List.range' (intOf first).toNat (intOf first + 1 - intOf first).toNat).take
        (maxCpus - cpus.length) = if cpus.length < maxCpus then [(intOf first).toNat] else [] := by
      rw [show (intOf first + 1 - intOf first).toNat = 1 by omega, List.range'_one]
      split_ifs with hroom
      · exact List.take_of_length_le (by rw [List.length_singleton]; omega)
      · rw [Nat.sub_eq_zero_of_le (not_lt.1 hroom), List.take_zero]
    rw [if_neg (by omega), hone]
    by_cases hroom : cpus.length < maxCpus
    · simp only [hroom, if_true]
    · simp only [hroom, if_false, List.append_nil]
  | some ds =>
    have hdash : ∀ c ∈ ('-' :: (ds ++ rest)).head?, c.isDigit = false := fun c hc => by
      obtain rfl := Option.some.inj hc
      decide
    have hspan := span_digits hi.digits_first hdash
    have hspan' := span_digits (hi.digits_last ds rfl) fun c hc => (hi.stop c hc).1
    have hparse : parseInt (first ++ '-' :: ds ++ rest) = (intOf first, '-' :: (ds ++ rest)) := by
      rw [parseInt, List.append_assoc, List.cons_append, hspan.1, hspan.2]
      rfl
    have hparse' : parseInt (ds ++ rest) = (intOf ds, rest) := by
      rw [parseInt, hspan'.1, hspan'.2]
      rfl
    simp only [Item.text, Item.InRange, Item.expand, Item.lo, Item.hi, Option.getD_some, hparse,
      hparse']
    constructor
    · intro h
      rw [if_neg (by omega), if_neg (by omega)]
    · intro h
      split_ifs with hstart hstop
      · rfl
      · rfl
      · omega

/-- The CPUs stored for items, while there is room. -/
def stored (maxCpus : ℕ) (items : List Item) (cpus : List ℕ) : List ℕ :=
  items.foldl (fun cpus i => cpus ++ i.expand.take (maxCpus - cpus.length)) cpus

/-- **The loop reads one item after the other**, if all are in range. -/
theorem parseLoop_scanned {items : List Item} {fuel : ℕ} (h : Scanned cs items rest)
    (hok : ∀ i ∈ items, i.InRange maxOsCpu) (hfuel : cs.length ≤ fuel) :
    ∃ fuel', rest.length ≤ fuel' ∧ parseLoop maxOsCpu maxCpus fuel cs cpus =
      parseLoop maxOsCpu maxCpus fuel' rest (stored maxCpus items cpus) := by
  induction h generalizing fuel cpus with
  | done => exact ⟨fuel, hfuel, rfl⟩
  | sep hc _ ih =>
    rw [List.length_cons] at hfuel
    rw [parseLoop_sep fuel hc]
    exact ih hok (by omega)
  | @item i cs rest items hi hne _ ih =>
    have hpos := List.length_pos_iff.2 hne
    rw [List.length_append] at hfuel
    obtain ⟨fuel, rfl⟩ : ∃ k, fuel = k + 1 := ⟨fuel - 1, by omega⟩
    rw [(parseLoop_item fuel hi hne).1 (hok i List.mem_cons_self)]
    exact ih (fun x hx => hok x (List.mem_cons_of_mem _ hx)) (by omega)

theorem stored_eq {items : List Item}
    (hroom : cpus.length + (items.flatMap Item.expand).length ≤ maxCpus) :
    stored maxCpus items cpus = cpus ++ items.flatMap Item.expand := by
  induction items generalizing cpus with
  | nil => simp [stored]
  | cons i items ih =>
    rw [List.flatMap_cons, List.length_append] at hroom
    have htake : i.expand.take (maxCpus - cpus.length) = i.expand :=
      List.take_of_length_le (by omega)
    have hstep : stored maxCpus (i :: items) cpus = stored maxCpus items (cpus ++ i.expand) := by
      rw [stored, List.foldl_cons, htake, stored]
    rw [hstep, ih (by rw [List.length_append]; omega), List.flatMap_cons, List.append_assoc]

theorem stored_lt {items : List Item} (hok : ∀ i ∈ items, i.InRange maxOsCpu)
    (hcpus : ∀ c ∈ cpus, c < maxOsCpu) : ∀ c ∈ stored maxCpus items cpus, c < maxOsCpu := by
  induction items generalizing cpus with
  | nil => exact hcpus
  | cons i items ih =>
    refine ih (fun x hx => hok x (List.mem_cons_of_mem _ hx)) fun c hc => ?_
    obtain hc | hc := List.mem_append.1 hc
    · exact hcpus c hc
    · exact (hok i List.mem_cons_self).expand_lt c (List.mem_of_mem_take hc)

theorem parseCpuset_eq (hne : cs ≠ []) :
    parseCpuset maxOsCpu maxCpus cs = parseLoop maxOsCpu maxCpus cs.length cs [] := if_neg hne

theorem parseCpuset_scanned {items : List Item} (hne : cs ≠ []) (h : Scanned cs items [])
    (hall : ∀ i ∈ items, i.InRange maxOsCpu) :
    parseCpuset maxOsCpu maxCpus cs = .ok (stored maxCpus items []) := by
  obtain ⟨fuel, -, heq⟩ := @parseLoop_scanned _ maxCpus _ _ [] _ _ h hall le_rfl
  rw [parseCpuset_eq hne, heq, parseLoop_nil]

/-! ### Lists that are read back -/

/-- An item of a list as the kernel prints it. -/
inductive ListItem
  | number (n : ℕ)
  | range (a b : ℕ)
  deriving DecidableEq

namespace ListItem

/-- The text of the item. -/
def text : ListItem → List Char
  | number n => Nat.toDigits 10 n
  | range a b => Nat.toDigits 10 a ++ '-' :: Nat.toDigits 10 b

/-- The numbers it stands for. -/
def expand : ListItem → List ℕ
  | number n => [n]
  | range a b => List.range' a (b + 1 - a)

/-- A range is not empty, and all numbers are below `max`. -/
def Valid (max : ℕ) : ListItem → Prop
  | number n => n < max
  | range a b => a ≤ b ∧ b < max

/-- The item as the scan takes it. -/
def toItem : ListItem → Item
  | number n => ⟨Nat.toDigits 10 n, none⟩
  | range a b => ⟨Nat.toDigits 10 a, some (Nat.toDigits 10 b)⟩

theorem text_toItem (i : ListItem) : i.toItem.text = i.text := by
  cases i <;> rfl

theorem text_ne_nil (i : ListItem) : i.text ≠ [] := by
  cases i with
  | number n => exact Nat.toDigits_ne_nil
  | range a b => exact List.append_ne_nil_of_left_ne_nil Nat.toDigits_ne_nil _

theorem intOf_toDigits {n : ℕ} (hn : n < 2 ^ 31) : intOf (Nat.toDigits 10 n) = n := by
  have hvalue : Nat.ofDigitChars 10 (Nat.toDigits 10 n) 0 = n := Nat.ofDigitChars_ten_toDigits
  rw [intOf_of_lt (by omega), hvalue]

theorem toItem_ends (i : ListItem) (hrest : ∀ c ∈ rest.head?, c = ',') : i.toItem.Ends rest where
  digits_first := by cases i <;> exact isDigit_toDigits
  digits_last := by
    cases i with
    | number n => intro ds h; cases h
    | range a b =>
      rintro ds ⟨⟩
      exact isDigit_toDigits
  stop c hc := by
    rw [hrest c hc]
    exact ⟨by decide, fun _ => by decide⟩

theorem toItem_spec {i : ListItem} (h : i.Valid maxOsCpu) (hint : maxOsCpu ≤ 2 ^ 31) :
    i.toItem.InRange maxOsCpu ∧ i.toItem.expand = i.expand := by
  cases i with
  | number n =>
    have hn : n < maxOsCpu := h
    have hlo : intOf (Nat.toDigits 10 n) = n := intOf_toDigits (by omega)
    simp only [Item.InRange, Item.expand, Item.lo, Item.hi, toItem, Option.getD_none, hlo, expand]
    refine ⟨by omega, ?_⟩
    rw [show ((n : ℤ) + 1 - n).toNat = 1 by omega, Int.toNat_natCast, List.range'_one]
  | range a b =>
    obtain ⟨hab, hb⟩ : a ≤ b ∧ b < maxOsCpu := h
    have hlo : intOf (Nat.toDigits 10 a) = a := intOf_toDigits (by omega)
    have hhi : intOf (Nat.toDigits 10 b) = b := intOf_toDigits (by omega)
    simp only [Item.InRange, Item.expand, Item.lo, Item.hi, toItem, Option.getD_some, hlo, hhi,
      expand]
    refine ⟨by omega, ?_⟩
    rw [Int.toNat_natCast, show ((b : ℤ) + 1 - a).toNat = b + 1 - a by omega]

end ListItem

/-- Items separated by commas. -/
def listText : List ListItem → List Char
  | [] => []
  | i :: items => i.text ++ items.flatMap fun i => ',' :: i.text

theorem head_flatMap_text (items : List ListItem) :
    ∀ c ∈ (items.flatMap fun i => ',' :: i.text).head?, c = ',' := by
  cases items with
  | nil => simp
  | cons i items => simp

theorem scanned_item {i : ListItem} {items : List Item} (hrest : ∀ c ∈ rest.head?, c = ',')
    (h : Scanned rest items []) : Scanned (i.text ++ rest) (i.toItem :: items) [] := by
  rw [← i.text_toItem]
  exact .item (i.toItem_ends hrest) (i.text_toItem ▸ i.text_ne_nil) h

theorem scanned_tail (items : List ListItem) :
    Scanned (items.flatMap fun i => ',' :: i.text) (items.map ListItem.toItem) [] := by
  induction items with
  | nil => exact .done
  | cons i items ih =>
    rw [List.flatMap_cons, List.map_cons, List.cons_append]
    exact .sep (.inr rfl) (scanned_item (head_flatMap_text items) ih)

theorem scanned_listText (items : List ListItem) :
    Scanned (listText items) (items.map ListItem.toItem) [] := by
  cases items with
  | nil => exact .done
  | cons i items => exact scanned_item (head_flatMap_text items) (scanned_tail items)

theorem parseCpuset_listText {items : List ListItem} (hne : items ≠ []) (hint : maxOsCpu ≤ 2 ^ 31)
    (hvalid : ∀ i ∈ items, i.Valid maxOsCpu)
    (hroom : (items.flatMap ListItem.expand).length ≤ maxCpus) :
    parseCpuset maxOsCpu maxCpus (listText items) = .ok (items.flatMap ListItem.expand) := by
  have hexpand : (items.map ListItem.toItem).flatMap Item.expand = items.flatMap ListItem.expand := by
    rw [List.flatMap_map]
    exact List.flatMap_congr fun i hi => (ListItem.toItem_spec (hvalid i hi) hint).2
  have htext : listText items ≠ [] := by
    cases items with
    | nil => exact absurd rfl hne
    | cons i items => exact List.append_ne_nil_of_left_ne_nil i.text_ne_nil _
  rw [parseCpuset_scanned htext (scanned_listText items), stored_eq, hexpand, List.nil_append]
  · rw [hexpand, List.length_nil, Nat.zero_add]
    exact hroom
  · intro x hx
    obtain ⟨i, hi, rfl⟩ := List.mem_map.1 hx
    exact (ListItem.toItem_spec (hvalid i hi) hint).1

theorem formatLoop_tail {sz : ℕ} {l : List ℕ} {buf : List Char} (hl : ∀ c ∈ l, c < 10 ^ 10)
    (hbuf : buf ≠ []) (hroom : buf.length + 12 * l.length < sz) :
    formatLoop sz l buf = buf ++ l.flatMap fun c => ',' :: Nat.toDigits 10 c := by
  induction l generalizing buf with
  | nil => simp [formatLoop]
  | cons c l ih =>
    have hlen := length_toDigits_le (hl c (by simp))
    simp only [List.length_cons] at hroom
    have hroom' : (buf ++ ',' :: Nat.toDigits 10 c).length + 12 * l.length < sz := by
      simp only [List.length_append, List.length_cons]
      omega
    have hfits : ¬(sz - 1 ≤ buf.length + ([','] ++ Nat.toDigits 10 c).length) := by
      simp only [List.length_append, List.length_singleton]
      omega
    have hlt : buf.length < sz - 1 := by omega
    have hempty : buf.isEmpty = false := by simpa using hbuf
    simp only [formatLoop, hlt, if_true, hempty, Bool.false_eq_true, if_false, hfits]
    rw [List.singleton_append, ih (fun x hx => hl x (by simp [hx])) (by simp) hroom']
    simp

/-- The buffer of `cpu_bind_format_cpus` has room for all numbers. -/
theorem formatCpus_eq {l : List ℕ} (hl : ∀ c ∈ l, c < 10 ^ 10) :
    formatCpus l = listText (l.map .number) := by
  cases l with
  | nil => rfl
  | cons c l =>
    have hlen := length_toDigits_le (hl c (by simp))
    have hfits : ¬((c :: l).length * 12 + 1 - 1 ≤ 0 + (Nat.toDigits 10 c).length) := by
      simp only [List.length_cons]
      omega
    have hlt : 0 < (c :: l).length * 12 + 1 - 1 := by
      simp only [List.length_cons]
      omega
    have hroom : (Nat.toDigits 10 c).length + 12 * l.length < (c :: l).length * 12 + 1 := by
      simp only [List.length_cons]
      omega
    simp only [formatCpus, formatLoop, List.length_nil, hlt, if_true, List.isEmpty_nil,
      List.nil_append, hfits, if_false]
    rw [formatLoop_tail (fun x hx => hl x (by simp [hx])) Nat.toDigits_ne_nil hroom, List.map_cons,
      listText, List.flatMap_map]
    rfl

/-- **CPU lists are read back**: the list the server writes, and every list of numbers and ranges
the kernel may return for it. -/
theorem cpuset_round_trip (hint : maxOsCpu ≤ 2 ^ 31) :
    (∀ cpus : List ℕ, cpus ≠ [] → (∀ c ∈ cpus, c < maxOsCpu) → cpus.length ≤ maxCpus →
      parseCpuset maxOsCpu maxCpus (formatCpus cpus) = .ok cpus) ∧
    ∀ items : List ListItem, items ≠ [] → (∀ i ∈ items, i.Valid maxOsCpu) →
      (items.flatMap ListItem.expand).length ≤ maxCpus →
      parseCpuset maxOsCpu maxCpus (listText items) = .ok (items.flatMap ListItem.expand) := by
  refine ⟨fun cpus hne hlt hroom => ?_, fun items hne hvalid hroom =>
    parseCpuset_listText hne hint hvalid hroom⟩
  have hexpand : (cpus.map ListItem.number).flatMap ListItem.expand = cpus := by
    rw [List.flatMap_map]
    exact List.flatMap_singleton' cpus
  have hten : ∀ c ∈ cpus, c < 10 ^ 10 := fun c hc => by
    have := hlt c hc
    omega
  have hvalid : ∀ i ∈ cpus.map ListItem.number, i.Valid maxOsCpu := by
    intro i hi
    obtain ⟨c, hc, rfl⟩ := List.mem_map.1 hi
    exact hlt c hc
  rw [formatCpus_eq hten, parseCpuset_listText (by simpa using hne) hint hvalid
    (by rw [hexpand]; exact hroom), hexpand]

theorem cpuset_round_trip_range :
    parseCpuset 256 256 (formatCpus [6, 7, 12]) = .ok [6, 7, 12] ∧
      parseCpuset 256 256 (listText [.range 6 7, .number 12]) = .ok [6, 7, 12] :=
  ⟨(cpuset_round_trip (by decide)).1 _ (by decide) (by decide) (by decide),
    (cpuset_round_trip (by decide)).2 [.range 6 7, .number 12] (by decide)
      (by simp [ListItem.Valid]) (by decide)⟩

/-! ### What the parser accepts -/

/-- Decimal numbers below `maxOsCpu`, and ranges of them, with separators around them. -/
def WellFormed (maxOsCpu : ℕ) (cs : List Char) : Prop :=
  ∃ items, Scanned cs items [] ∧ ∀ i ∈ items, i.Strict maxOsCpu

/-- Behind items in range the scan comes to one that is not. -/
def Rejected (maxOsCpu : ℕ) (cs : List Char) : Prop :=
  ∃ (items : List Item) (i : Item) (rest : List Char), Scanned cs items (i.text ++ rest) ∧
    (∀ x ∈ items, x.InRange maxOsCpu) ∧ i.Ends rest ∧ i.text ≠ [] ∧ ¬i.InRange maxOsCpu

/-- No item can start here. -/
def Stuck (cs : List Char) : Prop :=
  ∃ c rest, cs = c :: rest ∧ c.isDigit = false ∧ c ≠ '-' ∧ ¬(c = ' ' ∨ c = ',')

/-- Every text is read to its end, or to an item that is rejected, or to a place where no item can
start. -/
theorem scan_cases (maxOsCpu : ℕ) (cs : List Char) : Rejected maxOsCpu cs ∨
    ∃ items rest, Scanned cs items rest ∧ (∀ i ∈ items, i.InRange maxOsCpu) ∧
      (rest = [] ∨ Stuck rest) := by
  -- the scan goes on with a shorter text
  induction hlen : cs.length using Nat.strong_induction_on generalizing cs with
  | _ n ih =>
    subst hlen
    obtain ⟨i, rest, hcs, hi⟩ := exists_item cs
    by_cases hne : i.text = []
    · rw [hne, List.nil_append] at hcs
      subst hcs
      cases cs with
      | nil => exact .inr ⟨[], [], .done, by simp, .inl rfl⟩
      | cons c cs =>
        obtain ⟨hdigit, hdash⟩ := hi.stop c rfl
        have hlast : i.last = none := by
          obtain ⟨first, last⟩ := i
          cases last with
          | none => rfl
          | some ds => exact absurd hne (by simp [Item.text])
        by_cases hsep : c = ' ' ∨ c = ','
        · obtain ⟨items, x, rest, hscan, hrest⟩ | ⟨items, rest, hscan, hrest⟩ :=
            ih cs.length (Nat.lt_succ_self _) cs rfl
          · exact .inl ⟨items, x, rest, .sep hsep hscan, hrest⟩
          · exact .inr ⟨items, rest, .sep hsep hscan, hrest⟩
        · exact .inr ⟨[], c :: cs, .done, by simp, .inr ⟨c, cs, rfl, hdigit, hdash hlast, hsep⟩⟩
    · by_cases hok : i.InRange maxOsCpu
      · have hlt : rest.length < cs.length := by
          have := List.length_pos_iff.2 hne
          rw [hcs, List.length_append]
          omega
        subst hcs
        obtain ⟨items, x, rest', hscan, hall, hrest⟩ | ⟨items, rest', hscan, hall, hrest⟩ :=
          ih rest.length hlt rest rfl
        · exact .inl ⟨i :: items, x, rest', .item hi hne hscan, List.forall_mem_cons.2 ⟨hok, hall⟩,
            hrest⟩
        · exact .inr ⟨i :: items, rest', .item hi hne hscan, List.forall_mem_cons.2 ⟨hok, hall⟩,
            hrest⟩
      · exact .inl ⟨[], i, rest, hcs ▸ .done, by simp, hi, hne, hok⟩

/-- Where no item can start the loop does not advance. -/
theorem parseLoop_stuck (fuel : ℕ) (hmax : 0 < maxOsCpu) (h : Stuck cs) :
    parseLoop maxOsCpu maxCpus fuel cs cpus = .error .hang := by
  obtain ⟨c, rest, rfl, hdigit, hdash, hsep⟩ := h
  have hskip : ((c :: rest).dropWhile fun c => c = ' ' ∨ c = ',') = c :: rest :=
    List.dropWhile_cons_of_neg (by simpa using hsep)
  have hparse : parseInt (c :: rest) = (0, c :: rest) := by
    simp [parseInt, hdigit]
  induction fuel generalizing cpus with
  | zero => rw [parseLoop.eq_def, hskip]
  | succ fuel ih =>
    rw [parseLoop.eq_def, hskip]
    simp only [hparse]
    rw [if_neg (by omega)]
    split
    · rename_i r heq
      exact absurd (List.cons.inj heq).1 hdash
    · exact ih

theorem Scanned.ne_nil {items : List Item} (h : Scanned cs items rest) (hrest : rest ≠ []) :
    cs ≠ [] := by
  cases h with
  | done => exact hrest
  | sep => exact List.cons_ne_nil _ _
  | item _ hne => exact List.append_ne_nil_of_left_ne_nil hne _

theorem parseCpuset_rejected (h : Rejected maxOsCpu cs) :
    parseCpuset maxOsCpu maxCpus cs = .error .invalid := by
  obtain ⟨items, i, rest, hscan, hall, hi, hne, hbad⟩ := h
  have hrest : i.text ++ rest ≠ [] := List.append_ne_nil_of_left_ne_nil hne _
  obtain ⟨fuel, hfuel, heq⟩ := @parseLoop_scanned _ maxCpus _ _ [] _ _ hscan hall le_rfl
  have hpos := List.length_pos_iff.2 hrest
  obtain ⟨fuel, rfl⟩ : ∃ k, fuel = k + 1 := ⟨fuel - 1, by omega⟩
  rw [parseCpuset_eq (hscan.ne_nil hrest), heq, (parseLoop_item fuel hi hne).2 hbad]

theorem parseCpuset_stuck {items : List Item} (hmax : 0 < maxOsCpu) (h : Scanned cs items rest)
    (hall : ∀ i ∈ items, i.InRange maxOsCpu) (hrest : Stuck rest) :
    parseCpuset maxOsCpu maxCpus cs = .error .hang := by
  have hne : rest ≠ [] := by
    obtain ⟨c, r, rfl, -⟩ := hrest
    exact List.cons_ne_nil c r
  obtain ⟨fuel, -, heq⟩ := @parseLoop_scanned _ maxCpus _ _ [] _ _ h hall le_rfl
  rw [parseCpuset_eq (h.ne_nil hne), heq, parseLoop_stuck fuel hmax hrest]

/-- The parser ends, it accepts only a well-formed text, with CPUs of the machine, and it rejects
every other one. -/
structure ParsedStrictly (maxOsCpu maxCpus : ℕ) (cs : List Char) : Prop where
  terminates : parseCpuset maxOsCpu maxCpus cs ≠ .error .hang
  accepted : ∀ cpus, parseCpuset maxOsCpu maxCpus cs = .ok cpus →
    WellFormed maxOsCpu cs ∧ ∀ c ∈ cpus, c < maxOsCpu
  rejected : ¬WellFormed maxOsCpu cs → parseCpuset maxOsCpu maxCpus cs = .error .invalid

/-- **When the parser is strict**: on the well-formed texts, and on those in which an item out of
range comes before a character that cannot start an item.  On the others it accepts items
without digits or with numbers that wrap around, or it loops forever. -/
theorem parseCpuset_strict_iff (hpos : 0 < maxOsCpu) (hint : maxOsCpu ≤ 2 ^ 31) (cs : List Char) :
    ParsedStrictly maxOsCpu maxCpus cs ↔ WellFormed maxOsCpu cs ∨ Rejected maxOsCpu cs := by
  constructor
  · intro h
    obtain hrej | ⟨items, rest, hscan, hall, rfl | hstuck⟩ := scan_cases maxOsCpu cs
    · exact .inr hrej
    · by_cases hne : cs = []
      · subst hne
        exact .inl ⟨[], .done, by simp⟩
      · exact .inl (h.accepted _ (parseCpuset_scanned hne hscan hall)).1
    · exact absurd (parseCpuset_stuck hpos hscan hall hstuck) h.terminates
  · rintro (hwf | hrej)
    · obtain ⟨items, hscan, hstrict⟩ := id hwf
      have hall : ∀ i ∈ items, i.InRange maxOsCpu := fun i hi => (hstrict i hi).inRange hint
      by_cases hne : cs = []
      · have hempty : parseCpuset maxOsCpu maxCpus cs = .error .invalid := if_pos hne
        refine ⟨?_, fun cpus heq => ?_, fun hno => absurd hwf hno⟩
        · rw [hempty]
          decide
        · rw [hempty] at heq
          cases heq
      · have hok := @parseCpuset_scanned _ maxCpus _ _ hne hscan hall
        refine ⟨?_, fun cpus heq => ⟨hwf, ?_⟩, fun hno => absurd hwf hno⟩
        · rw [hok]
          exact fun h => by cases h
        · rw [hok] at heq
          obtain rfl := Except.ok.inj heq
          exact stored_lt hall (by simp)
    · have hinv := @parseCpuset_rejected _ maxCpus _ hrej
      refine ⟨?_, fun cpus heq => ?_, fun _ => hinv⟩
      · rw [hinv]
        decide
      · rw [hinv] at heq
        cases heq

theorem parseCpuset_strict_iff_range :
    ParsedStrictly 256 256 "0-3".toList ↔
      WellFormed 256 "0-3".toList ∨ Rejected 256 "0-3".toList :=
  parseCpuset_strict_iff (by decide) (by decide) _

/-- A letter makes the parser loop forever, and it accepts missing and wrapping numbers. -/
theorem parseCpuset_not_strict : ¬ParsedStrictly 256 256 "0,x".toList ∧
    parseCpuset 256 256 "0,x".toList = .error .hang ∧
    parseCpuset 256 256 "-2".toList = .ok [0, 1, 2] ∧
    parseCpuset 256 256 "4294967296".toList = .ok [0] := by
  have hhang : parseCpuset 256 256 "0,x".toList = .error .hang := by decide +kernel
  exact ⟨fun h => h.terminates hhang, hhang, by decide +kernel, by decide +kernel⟩

end CpuBind

end TaskSpooler
