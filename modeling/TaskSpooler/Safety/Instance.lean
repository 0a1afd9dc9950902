import TaskSpooler.Server.Boot

/-!
# One server at a time

`--daemon` looks at every entry of `/proc` before it goes on to become a server.  What it looks at is
not what is there when it is done, so the argument is about the order of births: everybody who was born
before has been looked at, and had to be gone by then (`Vetted`).  Hence a server that has been started
with `--daemon` is older than every other process of root with its executable, whatever else is started
and in whatever order (`daemon_oldest`).

The path of the socket is not protected in this way.  `--daemon` removes it first of all; it is then
refused, but the server is cut off for as long as it lives (`cut_off`).  Nobody else removes the path of
a server that answers (`stays_up`).
-/

namespace TaskSpooler

namespace Boot

variable {s s' s₁ : Boot} {l : Event} {p q o : ℕ} {x y : Proc} {place : Place} {path : Option ℕ}

/-! ### Those who are there -/

@[simp] theorem proc_go : (s.go p x place).proc q =
    if q = p then some { x with place := place } else s.proc q := Function.update_apply ..

@[simp] theorem proc_exit : (s.exit p).proc q = if q = p then none else s.proc q :=
  Function.update_apply ..

@[simp] theorem proc_spawn : (s.spawn x).proc q = if q = s.born then some x else s.proc q :=
  Function.update_apply ..

@[simp] theorem born_spawn : (s.spawn x).born = s.born + 1 := rfl

theorem proc_killGroup : (s.killGroup p).proc q = some y ↔ s.proc q = some y ∧ y.group ≠ p := by
  rw [killGroup, Option.filter_eq_some_iff, decide_eq_true_eq]

/-- Every number in use has been given out. -/
def Bound (s : Boot) : Prop := ∀ p x, s.proc p = some x → p < s.born

/-- Who is there was there before, as the same program, or has just been born. -/
theorem Does.origin (h : s.Does l s') (hq : s'.proc q = some y) :
    (∃ x, s.proc q = some x ∧ y.toProgram = x.toProgram) ∨ q = s.born := by
  have hgo : ∀ {p x place path}, s.proc p = some x →
      ({ s with path := path }.go p x place).proc q = some y →
      ∃ x, s.proc q = some x ∧ y.toProgram = x.toProgram := by
    intro p x place path hp hq
    rw [proc_go] at hq
    split_ifs at hq with hqp
    · cases hq
      exact ⟨x, hqp ▸ hp, rfl⟩
    · exact ⟨y, hq, rfl⟩
  cases h with
  | exec =>
    by_cases hqb : q = s.born
    · exact .inr hqb
    · rw [proc_spawn, if_neg hqb] at hq
      exact .inl ⟨y, hq, rfl⟩
  | go hp _ => exact .inl (hgo hp hq)
  | exit _ =>
    rw [proc_exit] at hq
    split_ifs at hq
    exact .inl ⟨y, hq, rfl⟩
  | fork hp _ _ _ =>
    rw [proc_spawn] at hq
    split_ifs at hq with hqb
    · exact .inr hqb
    · exact .inl (hgo hp hq)
  | kill hp _ => exact .inl (hgo hp (proc_killGroup.1 hq).1)

theorem Does.born_le (h : s.Does l s') : s.born ≤ s'.born := by
  cases h with
  | exec => exact Nat.le_succ _
  | fork => exact Nat.le_succ _
  | _ => exact Nat.le_refl _

/-- Only the birth of a process uses a new number. -/
theorem Does.bound (h : s.Does l s') (hs : s.Bound) : s'.Bound := by
  intro q y hq
  obtain ⟨x, hx, -⟩ | rfl := h.origin hq
  · exact Nat.lt_of_lt_of_le (hs q x hx) h.born_le
  · cases h with
    | exec => exact Nat.lt_succ_self _
    | fork => exact Nat.lt_succ_self _
    | go hp _ =>
      rw [proc_go] at hq
      split_ifs at hq with hqp
      · exact absurd (hs _ _ hp) (hqp ▸ Nat.lt_irrefl _)
      · exact absurd (hs _ _ hq) (Nat.lt_irrefl _)
    | exit _ =>
      rw [proc_exit] at hq
      split_ifs at hq
      exact absurd (hs _ _ hq) (Nat.lt_irrefl _)
    | kill hp _ =>
      have hq := (proc_killGroup.1 hq).1
      rw [proc_go] at hq
      split_ifs at hq with hqp
      · exact absurd (hs _ _ hp) (hqp ▸ Nat.lt_irrefl _)
      · exact absurd (hs _ _ hq) (Nat.lt_irrefl _)

/-! ### Those who have been looked at -/

/-- On the way to be a server, or one already. -/
def Place.past : Place → Bool
  | .bind | .listen | .serve | .close | .exit => true
  | _ => false

/-- The others that the test of `ensure_single_instance` is about. -/
def Rivals (s : Boot) (p : ℕ) (x : Proc) (Q : ℕ → Prop) : Prop :=
  ∀ q y, q ≠ p → s.proc q = some y → rival x y = true → Q q

/-- What a process knows of the others. -/
def Vetted (s : Boot) (p : ℕ) (x : Proc) : Prop :=
  match x.place with
  | .scan todo => x.uid = 0 ∧ x.mode = .daemon ∧ s.Rivals p x fun q => q ∈ todo ∨ p < q
  | .reap _ => x.uid = 0 ∧ x.mode = .onlyDaemon
  | .bind | .listen | .serve | .close | .exit =>
    x.uid = 0 ∧ x.mode ≠ .request ∧ (x.mode = .daemon → s.Rivals p x fun q => p < q)
  | _ => True

theorem rival_congr {y' : Proc} (h : y'.toProgram = y.toProgram) : rival x y' = rival x y := by
  have hexe : y'.exe = y.exe := congrArg Program.exe h
  have huid : y'.uid = y.uid := congrArg Program.uid h
  rw [rival, rival, hexe, huid]

/-- Rivals only go away, or are born later. -/
theorem Rivals.step (h : s.Does l s') {Q : ℕ → Prop} (hp : p ≤ s.born) (hR : s.Rivals p x Q)
    (hyoung : ∀ q, p < q → Q q) : s'.Rivals p x Q := by
  intro q y' hne hq hriv
  obtain ⟨y, hy, hprogram⟩ | rfl := h.origin hq
  · exact hR q y hne hy (rival_congr hprogram ▸ hriv)
  · exact hyoung _ (Nat.lt_of_le_of_ne hp hne.symm)

theorem Vetted.step (h : s.Does l s') (hp : p ≤ s.born) (hv : s.Vetted p x) : s'.Vetted p x := by
  unfold Vetted at hv ⊢
  split
  all_goals rename_i hplace
  all_goals simp only [hplace] at hv
  · exact ⟨hv.1, hv.2.1, hv.2.2.step h hp fun q hq => .inr hq⟩
  · exact hv
  all_goals first
    | exact ⟨hv.1, hv.2.1, fun hd => (hv.2.2 hd).step h hp fun q hq => hq⟩
    | trivial

theorem Goes.vetted (h : s.Goes l p x place path) (hb : s.Bound) (hv : s.Vetted p x) :
    s.Vetted p { x with place := place } := by
  unfold Vetted at hv
  cases h with
  | opendir hplace huid hmode =>
    refine ⟨huid, hmode, fun q y hne hq _ => .inl ?_⟩
    rw [procEntries, List.mem_filter, List.mem_range, hq]
    exact ⟨hb q y hq, decide_eq_true ⟨hne, rfl⟩⟩
  | opendirKill hplace huid hmode => exact ⟨huid, hmode⟩
  | unchecked hplace huid hexe hmode =>
    refine ⟨huid, ?_, fun _ q y _ _ hr => ?_⟩
    · rintro hrequest
      rw [hrequest] at hmode
      obtain hmode | hmode := hmode
      · cases hmode
      · cases hmode
    · -- without an executable of its own it knows no rival
      rw [rival, decide_eq_true_eq] at hr
      exact absurd hr.1 (by rw [show x.exe.isSome = false from hexe]; decide)
  | looked hplace hq =>
    simp only [hplace] at hv
    refine ⟨hv.1, hv.2.1, fun r y hne hr hriv => ?_⟩
    refine (hv.2.2 r y hne hr hriv).imp_left fun hmem => (List.mem_erase_of_ne ?_).2 hmem
    rintro rfl
    rw [hr, Option.any_some] at hq
    have hriv : rival x y = true := hriv
    rw [hriv] at hq
    cases hq
  | reaped hplace =>
    simp only [hplace] at hv
    exact hv
  | closedir hplace hall =>
    simp only [hplace] at hv
    refine ⟨hv.1, by rw [hv.2.1]; decide, fun _ q y hne hq hriv => ?_⟩
    refine (hv.2.2 q y hne hq hriv).resolve_left fun hmem => ?_
    have hdead := List.all_eq_true.1 hall q hmem
    rw [hq] at hdead
    cases hdead
  | closedirKill hplace =>
    simp only [hplace] at hv
    exact ⟨hv.1, by rw [hv.2]; decide, fun hd => by rw [hv.2] at hd; cases hd⟩
  | bound hplace _ =>
    simp only [hplace] at hv
    exact hv
  | listens hplace =>
    simp only [hplace] at hv
    exact hv
  | ended hplace _ =>
    simp only [hplace] at hv
    exact hv
  | removedOwn hplace =>
    obtain ⟨hplace, -⟩ | hplace := hplace
    · simp only [hplace] at hv
      exact hv
    · simp only [hplace] at hv
      exact hv
  | _ => trivial

/-- What holds of all processes. -/
structure Census (s : Boot) : Prop where
  bound : s.Bound
  vetted : ∀ p x, s.proc p = some x → s.Vetted p x

theorem census_empty : Census {} := ⟨fun _ _ h => (by cases h), fun _ _ h => (by cases h)⟩

theorem Does.census (h : s.Does l s') (hs : s.Census) : s'.Census := by
  refine ⟨h.bound hs.bound, fun q y hq => ?_⟩
  have hle : q ≤ s.born := by
    obtain ⟨x, hx, -⟩ | hqb := h.origin hq
    · exact Nat.le_of_lt (hs.bound q x hx)
    · exact Nat.le_of_eq hqb
  -- it is enough to know it of those who were there before
  refine Vetted.step h hle ?_
  have hgo : ∀ {p x place path}, s.proc p = some x → s.Vetted p { x with place := place } →
      ({ s with path := path }.go p x place).proc q = some y → s.Vetted q y := by
    intro p x place path hp hv hq
    rw [proc_go] at hq
    split_ifs at hq with hqp
    · cases hq
      exact hqp ▸ hv
    · exact hs.vetted q y hq
  cases h with
  | @exec x group =>
    by_cases hqb : q = s.born
    · rw [proc_spawn, if_pos hqb] at hq
      cases hq
      unfold Vetted
      split_ifs <;> trivial
    · rw [proc_spawn, if_neg hqb] at hq
      exact hs.vetted q y hq
  | go hp hgoes => exact hgo hp (hgoes.vetted hs.bound (hs.vetted _ _ hp)) hq
  | exit _ =>
    rw [proc_exit] at hq
    split_ifs at hq
    exact hs.vetted q y hq
  | @fork p x hp _ huid hmode =>
    have hawait : s.Vetted p { x with place := .await s.born } := trivial
    by_cases hqb : q = s.born
    · rw [proc_spawn, show (s.go _ _ _).born = s.born from rfl, if_pos hqb] at hq
      cases hq
      exact ⟨huid, by rw [hmode]; decide, fun hd => by rw [hmode] at hd; cases hd⟩
    · rw [proc_spawn, show (s.go _ _ _).born = s.born from rfl, if_neg hqb] at hq
      exact hgo hp hawait hq
  | @kill p r x todo hp hplace =>
    have hreap : s.Vetted p { x with place := .reap (todo.erase r) } :=
      (Goes.reaped (l := l) hplace).vetted hs.bound (hs.vetted _ _ hp)
    exact hgo hp hreap (proc_killGroup.1 hq).1

/-! ### Exclusion -/

theorem census_run {ok : Event → Boot → Prop} (h : Run Step ok {} s) : s.Census :=
  h.invariant census_empty fun hs _ hst => (step_does hst).census hs

theorem run_follow {ok : Event → Boot → Prop} {ls : List Event} (hok : ∀ l ∈ ls, ∀ s, ok l s)
    (h : Run.follow step s ls = some s') : Run Step ok s s' :=
  Run.of_follow (fun _ _ _ hst => hst) hok h

/-- Root calls the program for a daemon. -/
def rootDaemon : Event := .exec { exe := some "ts", uid := 0, mode := .daemon } none

/-- A daemon gets through to its loop. -/
def serving : Boot := ((Run.follow step {} (rootDaemon :: List.replicate 6 (.move 0))).getD {})

/-- The daemon is then here. -/
def servingProc : Proc where
  exe := some "ts"
  uid := 0
  mode := .daemon
  group := 0
  place := .serve

/-- Another one is called. -/
def calledTwice : Boot := (Run.follow step serving [rootDaemon]).getD {}

theorem vetted_past (hs : s.Census) (hp : s.proc p = some x) (hpast : x.place.past = true) :
    x.uid = 0 ∧ x.mode ≠ .request ∧ (x.mode = .daemon → s.Rivals p x fun q => p < q) := by
  have hv := hs.vetted p x hp
  unfold Vetted at hv
  cases hplace : x.place with
  | bind | listen | serve | close | exit =>
    simp only [hplace] at hv
    exact hv
  | _ =>
    rw [hplace] at hpast
    cases hpast

/-- Two that are past the test would each be older than the other. -/
theorem eq_of_past (hs : s.Census) (hp : s.proc p = some x) (hq : s.proc q = some y)
    (hxpast : x.place.past = true) (hypast : y.place.past = true) (hxmode : x.mode = .daemon)
    (hymode : y.mode = .daemon) (hexe : x.exe.isSome = true) (heq : y.exe = x.exe) : q = p := by
  obtain ⟨hxuid, -, hx⟩ := vetted_past hs hp hxpast
  obtain ⟨hyuid, -, hy⟩ := vetted_past hs hq hypast
  by_contra hne
  have hlt : p < q := hx hxmode q y hne hq (decide_eq_true ⟨hexe, heq.symm, hyuid⟩)
  have hgt : q < p := hy hymode p x (Ne.symm hne) hp (decide_eq_true ⟨heq ▸ hexe, heq, hxuid⟩)
  exact Nat.lt_asymm hlt hgt

/-- **A daemon is the oldest**: in every run, a process that has been started with `--daemon` and is
past its test is older than every other living process of root with the same executable, however that
has been started.  Hence it is the only one of its kind. -/
theorem daemon_oldest {ok : Event → Boot → Prop} (h : Run Step ok {} s) (hp : s.proc p = some x)
    (hmode : x.mode = .daemon) (hpast : x.place.past = true) (hexe : x.exe.isSome = true) :
    (∀ q y, s.proc q = some y → y.uid = 0 → y.exe = x.exe → q ≠ p → p < q) ∧
      ∀ q y, s.proc q = some y → y.exe = x.exe → y.mode = .daemon → y.place.past = true → q = p := by
  have hs := census_run h
  refine ⟨fun q y hq huid heq hne => ?_, fun q y hq heq hymode hypast => ?_⟩
  · exact (vetted_past hs hp hpast).2.2 hmode q y hne hq (decide_eq_true ⟨hexe, heq.symm, huid⟩)
  · exact eq_of_past hs hp hq hpast hypast hmode hymode hexe heq

theorem run_serving {ok : Event → Boot → Prop} (hdaemon : ∀ s, ok rootDaemon s)
    (hmove : ∀ s, ok (.move 0) s) : Run Step ok {} serving := by
  refine run_follow (fun l hl => ?_)
    (rfl : Run.follow step {} (rootDaemon :: List.replicate 6 (.move 0)) = _)
  obtain rfl | hl := List.mem_cons.1 hl
  · exact hdaemon
  · obtain rfl := List.eq_of_mem_replicate hl
    exact hmove

theorem run_calledTwice {ok : Event → Boot → Prop} (hdaemon : ∀ s, ok rootDaemon s)
    (hmove : ∀ s, ok (.move 0) s) : Run Step ok {} calledTwice :=
  (run_serving hdaemon hmove).next (hdaemon _) rfl

/-- The second daemon is younger. -/
theorem daemon_oldest_calledTwice :
    (∀ q y, calledTwice.proc q = some y → y.uid = 0 → y.exe = some "ts" → q ≠ 0 → 0 < q) ∧
      ∀ q y, calledTwice.proc q = some y → y.exe = some "ts" → y.mode = .daemon →
        y.place.past = true → q = 0 := by
  have hrun : Run Step (fun _ _ => True) {} calledTwice :=
    run_calledTwice (fun _ => trivial) fun _ => trivial
  have hp : calledTwice.proc 0 = some servingProc := by decide +kernel
  exact daemon_oldest hrun hp rfl rfl rfl

/-! ### The path -/

/-- Only a process in front of `bind` gives the path a new owner. -/
theorem Does.path_cases (h : s.Does l s') : s'.path = s.path ∨ s'.path = none ∨
    ∃ p x, s.proc p = some x ∧ x.place = .bind ∧ s.path = none ∧ s'.path = some p := by
  have hunlink : ∀ x : Proc, (s.unlinkPath x).path = s.path ∨ (s.unlinkPath x).path = none := by
    intro x
    unfold unlinkPath
    split_ifs
    · exact .inr rfl
    · exact .inl rfl
  cases h with
  | @go p x place path hp hgoes =>
    change path = s.path ∨ path = none ∨ _
    cases hgoes with
    | removed _ => exact (hunlink x).imp_right .inl
    | unlinked _ => exact (hunlink x).imp_right .inl
    | removedOwn _ => exact (hunlink x).imp_right .inl
    | bound hplace hfree => exact .inr (.inr ⟨p, x, hp, hplace, hfree, rfl⟩)
    | _ => exact .inl rfl
  | _ => exact .inl rfl

/-- Where a server is that has listened. -/
def Place.up : Place → Bool
  | .serve | .close | .exit => true
  | _ => false

theorem past_of_up (h : place.up = true) : place.past = true := by
  cases place with
  | serve => rfl
  | close => rfl
  | exit => rfl
  | _ => cases h

theorem Goes.up (h : s.Goes l p x place path) (hx : x.place.up = true) : place.up = true := by
  cases h with
  | ended _ _ => rfl
  | removedOwn _ => rfl
  | listens _ => rfl
  | removed h | answered h | unanswered h | refused h | unlinked h | anyUser h | opendir h
  | opendirKill h | unchecked h | looked h | reaped h | closedir h | closedirKill h | notified h
  | found h | owned h | bound h =>
    rw [h] at hx
    cases hx

/-- A server stays one until it is gone. -/
theorem Does.up (h : s.Does l s') (hb : s.Bound) (ho : s.proc o = some x) (hup : x.place.up = true)
    (ho' : s'.proc o = some y) : y.place.up = true := by
  have hgo : ∀ {p x' place path}, s.proc p = some x' → (x'.place.up = true → place.up = true) →
      ({ s with path := path }.go p x' place).proc o = some y → y.place.up = true := by
    intro p x' place path hp himp ho'
    rw [proc_go] at ho'
    split_ifs at ho' with hop
    · cases ho'
      subst hop
      rw [ho] at hp
      cases hp
      exact himp hup
    · rw [ho] at ho'
      cases ho'
      exact hup
  have hold : o ≠ s.born := fun h => absurd (hb o x ho) (h ▸ Nat.lt_irrefl _)
  cases h with
  | exec =>
    rw [proc_spawn, if_neg hold, ho] at ho'
    cases ho'
    exact hup
  | go hp hgoes => exact hgo hp hgoes.up ho'
  | exit _ =>
    rw [proc_exit] at ho'
    split_ifs at ho'
    rw [ho] at ho'
    cases ho'
    exact hup
  | fork hp hplace _ _ =>
    rw [proc_spawn, show (s.go _ _ _).born = s.born from rfl, if_neg hold] at ho'
    exact hgo hp (fun h => by rw [hplace] at h; cases h) ho'
  | kill hp hplace =>
    exact hgo hp (fun h => by rw [hplace] at h; cases h) (proc_killGroup.1 ho').1

/-! ### A second daemon -/

/-- Root starts servers only with `--daemon`, and from one executable. -/
def OnlyDaemons (exe : Option String) (l : Event) (_ : Boot) : Prop :=
  match l with
  | .exec x _ => x.uid = 0 → x.mode = .request ∨ x.mode = .daemon ∧ x.exe = exe
  | _ => True

/-- No other process of root is there. -/
def Plain (exe : Option String) (s : Boot) : Prop :=
  ∀ p x, s.proc p = some x → x.uid = 0 → x.mode = .request ∨ x.mode = .daemon ∧ x.exe = exe

theorem Does.plain {exe : Option String} (h : s.Does l s') (hok : OnlyDaemons exe l s)
    (hb : s.Bound) (hs : s.Plain exe) : s'.Plain exe := by
  intro q y hq huid
  obtain ⟨x, hx, hprogram⟩ | hqb := h.origin hq
  · have hmode : y.mode = x.mode := congrArg Program.mode hprogram
    have hexe : y.exe = x.exe := congrArg Program.exe hprogram
    have hxuid : y.uid = x.uid := congrArg Program.uid hprogram
    rw [hmode, hexe]
    exact hs q x hx (hxuid ▸ huid)
  · have hold : ∀ {p x}, s.proc p = some x → s.born ≠ p := fun hp hbp =>
      absurd (hb _ _ hp) (hbp ▸ Nat.lt_irrefl _)
    cases h with
    | exec hl =>
      subst hl
      rw [proc_spawn, if_pos hqb] at hq
      cases hq
      exact hok huid
    | fork hp hplace hpuid hmode =>
      obtain hrequest | ⟨hdaemon, -⟩ := hs _ _ hp hpuid
      · rw [hmode] at hrequest
        cases hrequest
      · rw [hmode] at hdaemon
        cases hdaemon
    | go hp _ =>
      rw [proc_go, hqb, if_neg (hold hp)] at hq
      exact absurd rfl (hold hq)
    | exit _ =>
      rw [proc_exit] at hq
      split_ifs at hq
      exact absurd hqb.symm (hold hq)
    | kill hp _ =>
      have hq := (proc_killGroup.1 hq).1
      rw [proc_go, hqb, if_neg (hold hp)] at hq
      exact absurd rfl (hold hq)

/-- The server `o` has no path any more. -/
structure CutOff (exe : Option String) (o : ℕ) (s : Boot) : Prop where
  census : s.Census
  plain : s.Plain exe
  old : o < s.born
  gone : ∀ y, s.proc o = some y → y.place.up = true ∧ s.path = none

/-- As long as the server lives, nobody else is past the test. -/
theorem eq_of_plain {exe : Option String} (hc : s.Census) (hs : s.Plain exe) (hexe : exe.isSome = true)
    (ho : s.proc o = some y) (hypast : y.place.past = true) (hp : s.proc p = some x)
    (hxpast : x.place.past = true) : p = o := by
  have hdaemon : ∀ {q z}, s.proc q = some z → z.place.past = true → z.mode = .daemon ∧ z.exe = exe := by
    intro q z hq hpast
    obtain ⟨huid, hrequest, -⟩ := vetted_past hc hq hpast
    exact (hs q z hq huid).resolve_left hrequest
  obtain ⟨hymode, hyexe⟩ := hdaemon ho hypast
  obtain ⟨hxmode, hxexe⟩ := hdaemon hp hxpast
  exact eq_of_past hc ho hp hypast hxpast hymode hxmode (hyexe ▸ hexe) (hxexe.trans hyexe.symm)

theorem CutOff.step {exe : Option String} (h : s.Does l s') (hok : OnlyDaemons exe l s)
    (hexe : exe.isSome = true) (hs : CutOff exe o s) : CutOff exe o s' := by
  refine ⟨h.census hs.census, h.plain hok hs.census.bound hs.plain,
    Nat.lt_of_lt_of_le hs.old h.born_le, fun y' ho' => ?_⟩
  obtain ⟨y, ho, -⟩ | hborn := h.origin ho'
  · obtain ⟨hup, hpath⟩ := hs.gone y ho
    refine ⟨h.up hs.census.bound ho hup ho', ?_⟩
    obtain hsame | hnone | ⟨p, x, hp, hbind, -, -⟩ := h.path_cases
    · rw [hsame, hpath]
    · exact hnone
    · -- whoever binds the path is past the test, so it is the server itself, which listens already
      have hxpast : x.place.past = true := by rw [hbind]; rfl
      obtain rfl := eq_of_plain hs.census hs.plain hexe ho (past_of_up hup) hp hxpast
      rw [ho] at hp
      cases hp
      rw [hbind] at hup
      cases hup
  · exact absurd hs.old (hborn ▸ Nat.lt_irrefl _)

/-- **A second daemon cuts the server off.**  Root only starts daemons, and one of them is in charge.
Once another one has removed the path, nobody can connect any more as long as the server lives, and no
other process gets past the test of `ensure_single_instance` to become a server in its place. -/
theorem cut_off {exe : Option String} (hexe : exe.isSome = true)
    (h : Run Step (OnlyDaemons exe) {} s) (ho : s.proc o = some y) (hserve : y.place = .serve)
    (hp : s.proc p = some x) (hremove : x.place = .remove) (hmay : x.mayUnlink = true)
    (hst : Step s (.move p) s₁) (h' : Run Step (OnlyDaemons exe) s₁ s')
    (halive : (s'.proc o).isSome = true) :
    s'.tryConnect = .enoent ∧ ∀ q z, s'.proc q = some z → z.place.past = true → q = o := by
  have hs : s.Census ∧ s.Plain exe :=
    h.invariant (I := fun s => s.Census ∧ s.Plain exe)
      ⟨census_empty, fun _ _ h => (by cases h)⟩ fun hI hok hst =>
      ⟨(step_does hst).census hI.1, (step_does hst).plain hok hI.1.bound hI.2⟩
  have hne : o ≠ p := by
    rintro rfl
    rw [ho] at hp
    cases hp
    rw [hserve] at hremove
    cases hremove
  have hdoes := step_does hst
  have hafter : s₁ = { s with path := none }.go p x .connect := by
    rw [Step, step, hp, Option.bind_some, move, hremove, unlinkPath, if_pos hmay] at hst
    exact (Option.some.inj hst).symm
  have hcut : CutOff exe o s₁ := by
    refine ⟨hdoes.census hs.1, hdoes.plain trivial hs.1.bound hs.2,
      Nat.lt_of_lt_of_le (hs.1.bound o y ho) hdoes.born_le, fun z hz => ?_⟩
    rw [hafter, proc_go, if_neg hne] at hz
    rw [ho] at hz
    cases hz
    exact ⟨by rw [hserve]; rfl, by rw [hafter]; rfl⟩
  have hcut' : CutOff exe o s' :=
    h'.invariant (I := CutOff exe o) hcut fun hI hok hst => hI.step (step_does hst) hok hexe
  obtain ⟨z, hz⟩ := Option.isSome_iff_exists.1 halive
  obtain ⟨hup, hpath⟩ := hcut'.gone z hz
  refine ⟨by rw [tryConnect, hpath], fun q z' hq hpast => ?_⟩
  exact eq_of_plain hcut'.census hcut'.plain hexe hz (past_of_up hup) hq hpast

/-- The second daemon removes the path, and is refused at the entry of the first. -/
def refusedDaemon : Boot :=
  (Run.follow step calledTwice [.move 1, .move 1, .move 1, .look 1 0 none]).getD {}

theorem cut_off_refusedDaemon : refusedDaemon.tryConnect = .enoent ∧
    (∀ q z, refusedDaemon.proc q = some z → z.place.past = true → q = 0) ∧
    (refusedDaemon.proc 0).isSome = true ∧ refusedDaemon.proc 1 = none := by
  have hrun : Run Step (OnlyDaemons (some "ts")) {} calledTwice :=
    run_calledTwice (fun _ _ => .inr ⟨rfl, rfl⟩) fun _ => trivial
  have ho : calledTwice.proc 0 = some servingProc := by decide +kernel
  have hp : calledTwice.proc 1 = some { servingProc with group := 1, place := .remove } := by
    decide +kernel
  have hst : Step calledTwice (.move 1) ((calledTwice.step (.move 1)).getD {}) := rfl
  have hfollow : Run.follow step ((calledTwice.step (.move 1)).getD {})
      [.move 1, .move 1, .look 1 0 none] = some refusedDaemon := rfl
  have hrest : Run Step (OnlyDaemons (some "ts")) ((calledTwice.step (.move 1)).getD {})
      refusedDaemon := by
    refine run_follow (fun l hl s => ?_) hfollow
    simp only [List.mem_cons, List.not_mem_nil, or_false] at hl
    obtain rfl | rfl | rfl := hl
    · trivial
    · trivial
    · trivial
  have halive : (refusedDaemon.proc 0).isSome = true := by decide +kernel
  obtain ⟨hconnect, hothers⟩ := cut_off rfl hrun ho rfl hp rfl rfl hst hrest halive
  exact ⟨hconnect, hothers, halive, by decide +kernel⟩

/-! ### Without a second daemon -/

/-- Nobody is called for a daemon, and the server `o` is not asked to stop. -/
def NoDaemon (o : ℕ) (l : Event) (_ : Boot) : Prop :=
  match l with
  | .exec x _ => x.mode = .request ∨ x.mode = .startService
  | .killServer p => p ≠ o
  | .sigterm p => p ≠ o
  | _ => True

/-- Places from which the path may be changed by a process that is no server. -/
def Place.harmless : Place → Bool
  | .remove | .unlink | .listen | .serve | .close => false
  | _ => true

/-- The server `o` answers at the path, and nobody is about to remove it or to be a server as well. -/
structure InCharge (o : ℕ) (s : Boot) : Prop where
  serves : ∀ y, s.proc o = some y → y.place = .serve
  path : s.path = some o
  others : ∀ q y, q ≠ o → s.proc q = some y → y.place.harmless = true

theorem tryConnect_of_inCharge (hs : s.InCharge o) (ho : s.proc o = some y) :
    s.tryConnect = .success := by
  have hlisten : s.listening o = true := by
    rw [listening, ho, Option.any_some, hs.serves y ho]
    rfl
  rw [tryConnect, hs.path]
  exact if_pos hlisten

/-- The server does nothing but serve. -/
theorem Goes.not_serving (h : s.Goes l o x place path) (hok : NoDaemon o l s) :
    x.place ≠ .serve := by
  intro hserve
  cases h with
  | ended _ hl =>
    subst hl
    exact hok rfl
  | removedOwn h =>
    obtain ⟨-, hl⟩ | hclose := h
    · subst hl
      exact hok rfl
    · rw [hserve] at hclose
      cases hclose
  | removed h | answered h | unanswered h | refused h | unlinked h | anyUser h | opendir h
  | opendirKill h | unchecked h | looked h | reaped h | closedir h | closedirKill h | notified h
  | found h | owned h | bound h | listens h =>
    rw [hserve] at h
    cases h

/-- The others leave the path alone. -/
theorem Goes.harmless (h : s.Goes l p x place path) (hs : s.InCharge o)
    (hconnect : s.tryConnect = .success) (hx : x.place.harmless = true) :
    place.harmless = true ∧ path = s.path := by
  cases h with
  | unanswered _ hc | refused _ hc =>
    rw [hconnect] at hc
    cases hc
  | bound _ hfree =>
    rw [hs.path] at hfree
    cases hfree
  | removed h | unlinked h | listens h | ended h _ =>
    rw [h] at hx
    cases hx
  | removedOwn h =>
    obtain ⟨h, -⟩ | h := h
    · rw [h] at hx
      cases hx
    · rw [h] at hx
      cases hx
  | _ => exact ⟨rfl, rfl⟩

theorem InCharge.step (h : s.Does l s') (hok : NoDaemon o l s) (hold : o < s.born)
    (ho : (s.proc o).isSome = true) (halive : (s'.proc o).isSome = true) (hs : s.InCharge o) :
    s'.InCharge o := by
  obtain ⟨y, hy⟩ := Option.isSome_iff_exists.1 ho
  have hconnect := tryConnect_of_inCharge hs hy
  have hne : o ≠ s.born := Nat.ne_of_lt hold
  have hgo : ∀ {p x place path}, s.proc p = some x → p ≠ o → place.harmless = true → path = s.path →
      ({ s with path := path }.go p x place).InCharge o := by
    intro p x place path hp hpo hplace hpath
    refine ⟨fun z hz => ?_, hpath.trans hs.path, fun q z hqo hq => ?_⟩
    · rw [proc_go, if_neg hpo.symm] at hz
      exact hs.serves z hz
    · rw [proc_go] at hq
      split_ifs at hq
      · cases hq
        exact hplace
      · exact hs.others q z hqo hq
  have hother : ∀ {p x}, s.proc p = some x → x.place ≠ .serve → p ≠ o := by
    rintro p x hp hplace rfl
    exact hplace (hs.serves x hp)
  cases h with
  | exec hl =>
    subst hl
    refine ⟨fun z hz => ?_, hs.path, fun q z hqo hq => ?_⟩
    · rw [proc_spawn, if_neg hne] at hz
      exact hs.serves z hz
    · by_cases hqb : q = s.born
      · rw [proc_spawn, if_pos hqb] at hq
        cases hq
        obtain hmode | hmode := hok
        · rw [hmode]
          rfl
        · rw [hmode]
          rfl
      · rw [proc_spawn, if_neg hqb] at hq
        exact hs.others q z hqo hq
  | @go p x place path hp hgoes =>
    -- the process in charge stays in its server loop
    have hpo : p ≠ o := by
      rintro rfl
      exact hgoes.not_serving hok (hs.serves x hp)
    obtain ⟨hplace, hpath⟩ := hgoes.harmless hs hconnect (hs.others p x hpo hp)
    exact hgo hp hpo hplace hpath
  | exit hp =>
    refine ⟨fun z hz => ?_, hs.path, fun q z hqo hq => ?_⟩
    · rw [proc_exit] at hz
      split_ifs at hz
      exact hs.serves z hz
    · rw [proc_exit] at hq
      split_ifs at hq
      exact hs.others q z hqo hq
  | @fork p x hp hplace _ _ =>
    have hpo : p ≠ o := hother hp (by rw [hplace]; decide)
    have hparent : (s.go p x (.await s.born)).InCharge o := hgo hp hpo rfl rfl
    refine ⟨fun z hz => ?_, hs.path, fun q z hqo hq => ?_⟩
    · rw [proc_spawn, show (s.go _ _ _).born = s.born from rfl, if_neg hne] at hz
      exact hparent.serves z hz
    · by_cases hqb : q = s.born
      · rw [proc_spawn, show (s.go _ _ _).born = s.born from rfl, if_pos hqb] at hq
        cases hq
        rfl
      · rw [proc_spawn, show (s.go _ _ _).born = s.born from rfl, if_neg hqb] at hq
        exact hparent.others q z hqo hq
  | @kill p r x todo hp hplace =>
    have hpo : p ≠ o := hother hp (by rw [hplace]; exact fun h => by cases h)
    have hreap : (s.go p x (.reap (todo.erase r))).InCharge o := hgo hp hpo rfl rfl
    exact ⟨fun z hz => hreap.serves z (proc_killGroup.1 hz).1, hs.path,
      fun q z hqo hq => hreap.others q z hqo (proc_killGroup.1 hq).1⟩

/-- **A server keeps its path** until somebody is called for a daemon or asks it to stop: as long as it
lives every `connect` succeeds, also in the middle of the attempts of others to start a server, and none
of them becomes one. -/
theorem stays_up (hold : o < s.born) (hs : s.InCharge o) (h : Run Step (NoDaemon o) s s')
    (halive : (s'.proc o).isSome = true) :
    s'.tryConnect = .success ∧ ∀ q, s'.listening q = true → q = o := by
  have hdead : o < s'.born ∧ ((s'.proc o).isSome = true → s'.InCharge o) := by
    refine h.invariant (I := fun r => o < r.born ∧ ((r.proc o).isSome = true → r.InCharge o))
      ⟨hold, fun _ => hs⟩ fun {r r' l} hI hok hst => ?_
    have hdoes := step_does hst
    refine ⟨Nat.lt_of_lt_of_le hI.1 hdoes.born_le, fun halive => ?_⟩
    -- who is dead stays dead
    have ho : (r.proc o).isSome = true := by
      obtain ⟨y, hy⟩ := Option.isSome_iff_exists.1 halive
      obtain ⟨x, hx, -⟩ | hborn := hdoes.origin hy
      · rw [hx]
        rfl
      · exact absurd hI.1 (hborn ▸ Nat.lt_irrefl _)
    exact (hI.2 ho).step hdoes hok hI.1 ho halive
  have hcharge := hdead.2 halive
  obtain ⟨y, hy⟩ := Option.isSome_iff_exists.1 halive
  refine ⟨tryConnect_of_inCharge hcharge hy, fun q hq => ?_⟩
  by_contra hqo
  rw [listening, Option.any_eq_true] at hq
  obtain ⟨z, hz, hserve⟩ := hq
  have hharmless := hcharge.others q z hqo hz
  rw [of_decide_eq_true hserve] at hharmless
  cases hharmless

theorem inCharge_serving : serving.InCharge 0 := by
  have hserve : serving.proc 0 = some servingProc := by decide +kernel
  refine ⟨fun y hy => ?_, rfl, fun q y hq hy => ?_⟩
  · rw [hserve] at hy
    cases hy
    rfl
  · have hrun : Run Step (fun _ _ => True) {} serving :=
      run_serving (fun _ => trivial) fun _ => trivial
    have hbound : q < 1 := (census_run hrun).bound q y hy
    omega

/-- Somebody asks the server. -/
def asked : Boot :=
  (Run.follow step serving [.exec { exe := some "ts", uid := 1000, mode := .request } none, .move 1]).getD {}

theorem stays_up_asked : asked.tryConnect = .success ∧ asked.proc 1 ≠ none := by
  have hfollow : Run.follow step serving
      [.exec { exe := some "ts", uid := 1000, mode := .request } none, .move 1] = some asked := rfl
  have hrun : Run Step (NoDaemon 0) serving asked := by
    refine run_follow (fun l hl s => ?_) hfollow
    simp only [List.mem_cons, List.not_mem_nil, or_false] at hl
    obtain rfl | rfl := hl
    · exact Or.inl rfl
    · trivial
  exact ⟨(stays_up (by decide +kernel) inCharge_serving hrun (by decide +kernel)).1,
    by decide +kernel⟩

end Boot

end TaskSpooler
