import TaskSpooler.Safety.Recount
import TaskSpooler.Safety.Refresh

/-!
# Refreshing with the file of the start

`s_refresh_users` compares the limits in the user file with the ones that the server keeps.  These
are not the ones of the file: the start lowers a limit to the number of slots (`capUsers`), and a
suspended user has a negative one.

Reading the file is described on the list of users (`readRoster`).  It gives the limits that a
refresh finds (`foldl_known`), the users that it adds (`foldl_new`) and the ones that the server
started with (`limit_foldl`).  So a refresh with the file of the start and lines for new users adds
these and changes nothing exactly if nobody has been capped or is suspended against the file, the
file sets no other number of slots, and there is room (`unchanged_refresh_adds`).
-/

namespace TaskSpooler

/-- The user of a line of the user file. -/
def UserLine.uid? : UserLine → Option ℕ
  | user _ uid _ => some uid
  | slots _ => none

/-- The limit that a line of the user file sets for a user. -/
def UserLine.limit? (uid : ℕ) : UserLine → Option ℤ
  | user _ uid' n => if uid' = uid then some n else none
  | slots _ => none

/-- The limit of a user in the last line for him. -/
def lastLimit (l : List UserLine) (uid : ℕ) : Option ℤ :=
  (l.filterMap (UserLine.limit? uid)).getLast?

/-- The line of the user file for a user. -/
def User.line (x : User) : UserLine := .user x.name x.uid x.maxSlots

/-- A user as a new line brings him in. -/
def User.listed (x : User) : User := { name := x.name, uid := x.uid, maxSlots := x.maxSlots }

/-- The limit of a user after it has been lowered to the number of slots. -/
def User.capped (n : ℤ) (x : User) : User :=
  if x.uid ≠ 0 ∧ n < x.maxSlots then { x with maxSlots := n } else x

theorem User.uid_capped (n : ℤ) (x : User) : (x.capped n).uid = x.uid := by
  rw [capped]
  split_ifs <;> rfl

theorem User.maxSlots_capped (n : ℤ) (x : User) :
    (x.capped n).maxSlots = if x.uid ≠ 0 ∧ n < x.maxSlots then n else x.maxSlots := by
  rw [capped]
  split_ifs <;> rfl

/-- What a line of the user file does to the list of users. -/
def readRoster (l : List User) : UserLine → List User
  | .slots _ => l
  | .user name uid n =>
    if uid ∈ l.map User.uid then l.map fun x => if x.uid = uid then { x with maxSlots := n } else x
    else if 100 ≤ l.length then l
    else l ++ [{ name := name, uid := uid, maxSlots := n }]

/-! ### Reading a file -/

section Roster

variable {l : List User} {F : List UserLine} {news : List User} {x : User} {uid : ℕ}

theorem lastLimit_concat (y : UserLine) :
    lastLimit (F ++ [y]) uid = (y.limit? uid).or (lastLimit F uid) := by
  cases h : y.limit? uid <;> simp [lastLimit, h]

theorem uids_limits {g : User → ℤ} :
    (l.map fun x => { x with maxSlots := g x }).map User.uid = l.map User.uid := by
  rw [List.map_map]
  rfl

/-- **A file that names no new user sets the limits.** -/
theorem foldl_known (h : ∀ y ∈ F, ∀ uid, y.uid? = some uid → uid ∈ l.map User.uid ∨ 100 ≤ l.length) :
    F.foldl readRoster l =
      l.map fun x => { x with maxSlots := (lastLimit F x.uid).getD x.maxSlots } := by
  induction F using List.reverseRecOn with
  | nil => exact (List.map_id l).symm
  | append_singleton F y ih =>
    rw [List.foldl_append, List.foldl_cons, List.foldl_nil,
      ih fun y hy => h y (List.mem_append_left _ hy)]
    have hy := h y (List.mem_append_right _ (List.mem_singleton_self y))
    simp only [lastLimit_concat]
    cases y with
    | slots n => rfl
    | user name uid n =>
      rw [readRoster, uids_limits, List.length_map]
      split_ifs with hmem hfull
      · rw [List.map_map]
        refine List.map_congr_left fun x _ => ?_
        by_cases hx : x.uid = uid
        · simp [UserLine.limit?, hx]
        · simp [UserLine.limit?, hx, Ne.symm hx]
      · refine List.map_congr_left fun x hx => ?_
        have hne : uid ≠ x.uid := fun heq => hmem (heq ▸ List.mem_map_of_mem hx)
        simp [UserLine.limit?, hne]
      · exact absurd (hy uid rfl) (by simp [hmem, hfull])

/-- **Lines for new users add them**, as long as there is room. -/
theorem foldl_new (hnd : (news.map User.uid).Nodup) (hnew : ∀ x ∈ news, x.uid ∉ l.map User.uid) :
    (news.map User.line).foldl readRoster l =
      l ++ (news.take (100 - l.length)).map User.listed := by
  induction news generalizing l with
  | nil => simp
  | cons x news ih =>
    rw [List.map_cons, List.nodup_cons] at hnd
    have hx := hnew x List.mem_cons_self
    rw [List.map_cons, List.foldl_cons, User.line, readRoster, if_neg hx]
    split_ifs with hfull
    · have hzero : 100 - l.length = 0 := by omega
      rw [ih hnd.2 fun y hy => hnew y (List.mem_cons_of_mem _ hy), hzero, List.take_zero,
        List.take_zero]
    · have hsucc : 100 - l.length = 100 - (l.length + 1) + 1 := by omega
      rw [ih hnd.2 fun y hy => ?_, List.length_append, List.length_singleton, hsucc,
        List.take_succ_cons, List.map_cons, List.append_assoc]
      · rfl
      · rw [List.map_append, List.mem_append, List.map_singleton, List.mem_singleton]
        rintro (hmem | heq)
        · exact hnew y (List.mem_cons_of_mem _ hy) hmem
        · exact hnd.1 (heq ▸ List.mem_map_of_mem hy)

theorem readRoster_le (y : UserLine) :
    (∀ uid ∈ l.map User.uid, uid ∈ (readRoster l y).map User.uid) ∧
      l.length ≤ (readRoster l y).length := by
  cases y with
  | slots n => exact ⟨fun _ h => h, le_refl _⟩
  | user name uid n =>
    rw [readRoster]
    split_ifs
    · refine ⟨fun uid' h => ?_, (List.length_map _).ge⟩
      obtain ⟨x, hx, rfl⟩ := List.mem_map.1 h
      rw [List.map_map]
      refine List.mem_map.2 ⟨x, hx, ?_⟩
      simp only [Function.comp]
      split_ifs <;> rfl
    · exact ⟨fun _ h => h, le_refl _⟩
    · refine ⟨fun uid' h => ?_, by simp⟩
      rw [List.map_append]
      exact List.mem_append_left _ h

/-- After a file has been read, every user in it is there, or the list is full. -/
theorem known_foldl : ∀ y ∈ F, ∀ uid, y.uid? = some uid →
    uid ∈ (F.foldl readRoster l).map User.uid ∨ 100 ≤ (F.foldl readRoster l).length := by
  induction F using List.reverseRecOn with
  | nil => exact fun y hy => absurd hy List.not_mem_nil
  | append_singleton F z ih =>
    rw [List.foldl_append, List.foldl_cons, List.foldl_nil]
    obtain ⟨huids, hlen⟩ := readRoster_le (l := F.foldl readRoster l) z
    intro y hy uid huid
    obtain hy | hy := List.mem_append.1 hy
    · exact (ih y hy uid huid).imp (huids uid) fun hfull => hfull.trans hlen
    · obtain rfl := List.mem_singleton.1 hy
      cases y with
      | slots n => cases huid
      | user name uid' n =>
        obtain rfl : uid' = uid := Option.some.inj huid
        by_cases hmem : uid' ∈ (F.foldl readRoster l).map User.uid
        · exact .inl (huids uid' hmem)
        · by_cases hfull : 100 ≤ (F.foldl readRoster l).length
          · exact .inr (hfull.trans hlen)
          · rw [readRoster, if_neg hmem, if_neg hfull, List.map_append]
            exact .inl (List.mem_append_right _ (List.mem_singleton_self _))

/-- After a file has been read, the limits are those of its last lines. -/
theorem limit_foldl {n : ℤ} (hx : x ∈ F.foldl readRoster l) (hn : lastLimit F x.uid = some n) :
    x.maxSlots = n := by
  induction F using List.reverseRecOn generalizing x with
  | nil => cases hn
  | append_singleton F y ih =>
    rw [List.foldl_append, List.foldl_cons, List.foldl_nil] at hx
    rw [lastLimit_concat] at hn
    cases y with
    | slots k => exact ih hx hn
    | user name uid k =>
      rw [readRoster] at hx
      split_ifs at hx with hmem hfull
      · obtain ⟨z, hz, rfl⟩ := List.mem_map.1 hx
        by_cases huid : z.uid = uid
        · simp only [huid, if_true, UserLine.limit?, Option.some_or] at hn ⊢
          exact Option.some.inj hn
        · simp only [huid, if_false, UserLine.limit?, Ne.symm huid, Option.none_or] at hn ⊢
          exact ih hz hn
      · have hne : uid ≠ x.uid := fun heq => hmem (heq ▸ List.mem_map_of_mem hx)
        simp only [UserLine.limit?, hne, if_false, Option.none_or] at hn
        exact ih hx hn
      · obtain hx | hx := List.mem_append.1 hx
        · have hne : uid ≠ x.uid := fun heq => hmem (heq ▸ List.mem_map_of_mem hx)
          simp only [UserLine.limit?, hne, if_false, Option.none_or] at hn
          exact ih hx hn
        · obtain rfl := List.mem_singleton.1 hx
          simpa [UserLine.limit?] using hn

end Roster

/-! ### The users of a server -/

namespace Spool

variable {e : Env} {s s' s₀ : Spool} {u : ℕ} {news : List User}

/-- The users of the server, without their counters. -/
def roster (s : Spool) : List User := (List.range s.nusers).map fun u => (s.users u).who

/-- No two users have the same uid. -/
def Distinct (s : Spool) : Prop :=
  ∀ u < s.nusers, ∀ u' < s.nusers, (s.users u).uid = (s.users u').uid → u = u'

theorem length_roster : s.roster.length = s.nusers := by
  rw [roster, List.length_map, List.length_range]

theorem uids_roster : s.roster.map User.uid = (List.range s.nusers).map fun u => (s.users u).uid := by
  rw [roster, List.map_map]
  rfl

theorem mem_roster (hu : u < s.nusers) : (s.users u).who ∈ s.roster :=
  List.mem_map_of_mem (List.mem_range.2 hu)

theorem roster_congr (hn : s'.nusers = s.nusers)
    (h : ∀ u < s.nusers, (s'.users u).who = (s.users u).who) : s'.roster = s.roster := by
  rw [roster, roster, hn]
  exact List.map_congr_left fun u hu => h u (List.mem_range.1 hu)

theorem mem_uids_iff {uid : ℕ} : uid ∈ s.roster.map User.uid ↔ s.findUserByUid uid ≠ none := by
  rw [uids_roster, Queue.findUserByUid]
  simp

theorem roster_readUserLine (hs : s.Distinct) (y : UserLine) :
    (s.readUserLine y).roster = readRoster s.roster y := by
  cases y with
  | slots n =>
    rw [readUserLine, sSetMaxSlots, readRoster]
    split_ifs <;> rfl
  | user name uid n =>
    rw [readUserLine, readRoster]
    cases hfind : s.findUserByUid uid with
    | some u =>
      obtain ⟨hu, huid⟩ := findUserByUid_some hfind
      rw [if_pos (mem_uids_iff.2 (by rw [hfind]; exact Option.some_ne_none u)), roster, roster,
        List.map_map]
      refine List.map_congr_left fun i hi => ?_
      by_cases hiu : i = u
      · subst hiu
        have hself : (s.modUser (some i) fun x => { x with maxSlots := n }).users i =
            { s.users i with maxSlots := n } := Function.update_self ..
        rw [Function.comp, if_pos (show (s.users i).who.uid = uid from huid)]
        exact congrArg User.who hself
      · have hother : (s.modUser (some u) fun x => { x with maxSlots := n }).users i = s.users i :=
          Function.update_of_ne hiu ..
        have hwho : (s.users i).who.uid ≠ uid := fun h =>
          hiu (hs i (List.mem_range.1 hi) u hu (h.trans huid.symm))
        rw [Function.comp, if_neg hwho]
        exact congrArg User.who hother
    | none =>
      have hnot : uid ∉ s.roster.map User.uid := fun h => mem_uids_iff.1 h hfind
      dsimp only
      rw [if_neg hnot, length_roster]
      split_ifs with hfull
      · rfl
      · set x : User := { name := name, uid := uid, maxSlots := n } with hx
        show (List.range (s.nusers + 1)).map
          (fun i => (Function.update s.users s.nusers x i).who) = s.roster ++ [x]
        rw [List.range_succ, List.map_append, List.map_singleton, Function.update_self]
        refine congrArg (· ++ [x.who]) (List.map_congr_left fun i hi => ?_)
        rw [Function.update_of_ne (ne_of_lt (List.mem_range.1 hi))]

theorem roster_readLines {F : List UserLine} (hs : s.Distinct) :
    (F.foldl readUserLine s).roster = F.foldl readRoster s.roster := by
  induction F generalizing s with
  | nil => rfl
  | cons y F ih =>
    rw [List.foldl_cons, List.foldl_cons, ih ((readUserLine_reads y).uids hs),
      roster_readUserLine hs]

/-- **The file of the users and lines for new ones**, read by a server that knows the first. -/
theorem roster_readUserFile {F : List UserLine} (hs : s.Distinct)
    (hF : ∀ y ∈ F, ∀ uid, y.uid? = some uid → uid ∈ s.roster.map User.uid ∨ 100 ≤ s.nusers)
    (hfile : e.userFile = F ++ news.map User.line) (hnd : (news.map User.uid).Nodup)
    (hnew : ∀ x ∈ news, x.uid ∉ s.roster.map User.uid) :
    (s.readUserFile e).roster =
      (s.roster.map fun x => { x with maxSlots := (lastLimit F x.uid).getD x.maxSlots }) ++
        (news.take (100 - s.nusers)).map User.listed := by
  have hknown := foldl_known (l := s.roster) (F := F) (by rwa [length_roster])
  rw [readUserFile, hfile, roster_readLines hs, List.foldl_append, hknown, foldl_new hnd,
    List.length_map, length_roster]
  rwa [uids_limits]

/-! ### A refresh -/

theorem findUserByUid_self (hs : s.Distinct) (hu : u < s.nusers) :
    s.findUserByUid (s.users u).uid = some u := by
  cases hfind : s.findUserByUid (s.users u).uid with
  | none => exact absurd rfl (findUserByUid_none hfind u hu)
  | some u' =>
    obtain ⟨hu', huid⟩ := findUserByUid_some hfind
    rw [hs u' hu' u hu huid]

/-- A file is not rejected exactly if it leaves the limits as they are. -/
theorem refreshRejection_none_iff (hids : s.view.Ids) : s.refreshRejection e = none ↔
    ∀ u < s.nusers, ((s.readUserFile e).users u).maxSlots = (s.users u).maxSlots := by
  have hread := readUserFile_reads (e := e) (s := s)
  rw [refreshRejection, List.findSome?_eq_none_iff]
  constructor
  · intro h u hu
    exact refreshComplaint_none hu hread hids (h u (List.mem_range.2 hu))
  · intro h u hu
    have hu := List.mem_range.1 hu
    have hself := findUserByUid_self (hread.uids hids.uids) (hu.trans_le hread.nusers)
    rw [(hread.old u hu).1] at hself
    simp [refreshComplaint, hself, h u hu]

/-- The refresh is accepted and returns; the users are those before and the new ones, and the number
of slots is the one before. -/
def RefreshAdds (e : Env) (s : Spool) (socket : ℤ) (news : List User) : Prop :=
  s.refreshRejection e = none ∧ ∃ s', s.sRefreshUsers e socket = .ok s' ∧
    s'.roster = s.roster ++ news.map User.listed ∧ s'.maxSlots = s.maxSlots

/-- The new users are distinct, and not among those of the server. -/
def News (s : Spool) (news : List User) : Prop :=
  (news.map User.uid).Nodup ∧ ∀ x ∈ news, ∀ u < s.nusers, x.uid ≠ (s.users u).uid

theorem maxSlots_of_usage {late : Job → Prop} {v v' : View} (h : Usage e late v v') :
    v'.maxSlots = v.maxSlots := by
  refine h.moves.invariant (I := fun w => w.maxSlots = v.maxSlots) rfl fun {w a} hI ha _ => ?_
  rw [Act.maxSlots_apply]
  cases a with
  | maxSlots n =>
    obtain ha | ha | ha := ha
    · exact ha.elim
    · cases ha
    · exact ha.1.elim
  | _ => exact hI

theorem getElem?_roster (hu : u < s.nusers) : s.roster[u]? = some (s.users u).who := by
  rw [roster, List.getElem?_map, List.getElem?_range hu]
  rfl

theorem lastSlots_news {F : List UserLine} : lastSlots (F ++ news.map User.line) = lastSlots F := by
  have hnone : (news.map User.line).filterMap UserLine.slots? = [] := by
    rw [List.filterMap_eq_nil_iff]
    intro y hy
    obtain ⟨x, -, rfl⟩ := List.mem_map.1 hy
    rfl
  rw [lastSlots, List.filterMap_append, hnone, List.append_nil]
  rfl

theorem getD_eq_iff {α : Type*} {o : Option α} {a : α} : o.getD a = a ↔ ∀ n, o = some n → n = a := by
  cases o with
  | none => simp
  | some n => simp

/-- The recount of an accepted refresh returns, and changes no user. -/
theorem refresh_returns (hcov : s.view.Covered) (howner : ∀ p ∈ s.view.activeJobs, p.user ≠ none)
    (socket : ℤ) (h : s.refreshRejection e = none) :
    ∃ s', s.sRefreshUsers e socket = .ok s' ∧ s'.roster = (s.readUserFile e).roster ∧
      s'.maxSlots = (s.readUserFile e).maxSlots := by
  have hread := readUserFile_reads (e := e) (s := s)
  rw [refreshRejection] at h
  simp only [sRefreshUsers, h]
  set new := (s.readUserFile e).send socket (.line "refresh the list success!\n") with hnew
  have hview : new.view = { s.view with
      users := (s.readUserFile e).users
      nusers := (s.readUserFile e).nusers
      maxSlots := (s.readUserFile e).maxSlots } := hread.view
  have hids : new.view.Ids := by
    rw [hview]
    exact ⟨hcov.ids.nodup, hcov.ids.lt, hread.uids hcov.ids.uids⟩
  have hcov' : new.view.Covered := by
    refine ⟨hids, ?_, ?_⟩
    · rw [hview]
      exact hcov.nonneg
    · rw [hview]
      exact hcov.freed
  obtain ⟨s', hs'⟩ : ∃ s', new.sUpdateSlotsUsage e = .ok s' := by
    rw [sUpdateSlotsUsage_ok_iff hcov', View.orphans_eq_zero, hview]
    exact fun p hp hnone => absurd hnone (howner p hp)
  have husage := sUpdateSlotsUsage_usage hids hs'
  exact ⟨s', hs', roster_congr husage.nusers_eq fun u _ => husage.who u, maxSlots_of_usage husage⟩

/-- **When a refresh with known users adds the new ones.** -/
theorem refreshAdds_iff {F : List UserLine} (hcov : s.view.Covered)
    (howner : ∀ p ∈ s.view.activeJobs, p.user ≠ none) (socket : ℤ)
    (hF : ∀ y ∈ F, ∀ uid, y.uid? = some uid → uid ∈ s.roster.map User.uid ∨ 100 ≤ s.nusers)
    (hfile : e.userFile = F ++ news.map User.line) (hnew : s.News news) :
    s.RefreshAdds e socket news ↔ news.length ≤ 100 - s.nusers ∧
      (∀ u < s.nusers, ∀ n, lastLimit F (s.users u).uid = some n → n = (s.users u).maxSlots) ∧
      ∀ n, lastSlots F = some n → n = s.maxSlots := by
  have hread := readUserFile_reads (e := e) (s := s)
  have hroster := roster_readUserFile hcov.ids.uids hF hfile hnew.1 fun x hx hmem => by
    rw [uids_roster] at hmem
    obtain ⟨u, hu, heq⟩ := List.mem_map.1 hmem
    exact hnew.2 x hx u (List.mem_range.1 hu) heq.symm
  have hlimit : ∀ u < s.nusers, ((s.readUserFile e).users u).maxSlots =
      (lastLimit F (s.users u).uid).getD (s.users u).maxSlots := by
    intro u hu
    have hget := getElem?_roster (hu.trans_le hread.nusers)
    rw [hroster, List.getElem?_append_left (by rwa [List.length_map, length_roster]),
      List.getElem?_map, getElem?_roster hu] at hget
    exact (congrArg User.maxSlots (Option.some.inj hget)).symm
  have hrej : s.refreshRejection e = none ↔ ∀ u < s.nusers, ∀ n,
      lastLimit F (s.users u).uid = some n → n = (s.users u).maxSlots := by
    rw [refreshRejection_none_iff hcov.ids]
    refine forall₂_congr fun u hu => ?_
    rw [hlimit u hu, getD_eq_iff]
  have hslots : (s.readUserFile e).maxSlots = s.maxSlots ↔ ∀ n, lastSlots F = some n → n = s.maxSlots := by
    rw [maxSlots_readUserFile, slotsAfter_eq, hfile, lastSlots_news, getD_eq_iff]
  -- an accepted file leaves the old users as they are
  have hsame : s.refreshRejection e = none → ((s.readUserFile e).roster =
      s.roster ++ news.map User.listed ↔ news.length ≤ 100 - s.nusers) := by
    intro h
    have hold : (s.roster.map fun x => { x with maxSlots := (lastLimit F x.uid).getD x.maxSlots }) =
        s.roster := by
      refine (List.map_congr_left fun x hx => ?_).trans (List.map_id _)
      obtain ⟨u, hu, rfl⟩ := List.mem_map.1 hx
      have hu := List.mem_range.1 hu
      have hkeep : (lastLimit F (s.users u).who.uid).getD (s.users u).who.maxSlots =
          (s.users u).who.maxSlots := getD_eq_iff.2 (hrej.1 h u hu)
      rw [hkeep]
      rfl
    rw [hroster, hold, List.append_cancel_left_eq]
    constructor
    · intro heq
      have hlen := congrArg List.length heq
      rw [List.length_map, List.length_map, List.length_take] at hlen
      omega
    · intro hle
      rw [List.take_of_length_le hle]
  constructor
  · rintro ⟨h, s', hs', hros, hmax⟩
    obtain ⟨s'', hs'', hros', hmax'⟩ := refresh_returns hcov howner socket h
    obtain rfl : s' = s'' := Except.ok.inj (hs'.symm.trans hs'')
    exact ⟨(hsame h).1 (hros'.symm.trans hros), hrej.1 h, hslots.1 (hmax'.symm.trans hmax)⟩
  · rintro ⟨hroom, hlim, hmax⟩
    have h := hrej.2 hlim
    obtain ⟨s', hs', hros', hmax'⟩ := refresh_returns hcov howner socket h
    exact ⟨h, s', hs', hros'.trans ((hsame h).2 hroom), hmax'.trans (hslots.2 hmax)⟩

/-! ### The users of a new process -/

/-- The number of slots when the limits are lowered: `TS_SLOTS` in the environment comes before the
user file. -/
def startSlots (e : Env) : ℤ :=
  if e.tsSlots.getD 0 = 0 then (lastSlots e.userFile).getD 1 else (e.tsSlots.getD 0).natAbs

theorem lastSlots_pos {F : List UserLine} {n : ℤ} (h : lastSlots F = some n) : 0 < n := by
  obtain ⟨y, -, hy⟩ := List.mem_filterMap.1 (List.mem_of_getLast? h)
  cases y with
  | slots k =>
    rw [UserLine.slots?, Option.ite_none_right_eq_some] at hy
    exact Option.some.inj hy.2 ▸ hy.1
  | user name uid k => cases hy

theorem startSlots_pos : 0 < startSlots e := by
  rw [startSlots]
  split_ifs with hz
  · cases h : lastSlots e.userFile with
    | none => exact zero_lt_one
    | some n => exact lastSlots_pos h
  · omega

theorem maxSlots_setDefaultMaxslots :
    (((s₀.boot e).readUserFile e).setDefaultMaxslots e).maxSlots = startSlots e := by
  have hread : ((s₀.boot e).readUserFile e).maxSlots = (lastSlots e.userFile).getD 1 := by
    rw [maxSlots_readUserFile, slotsAfter_eq]
    rfl
  rw [setDefaultMaxslots, startSlots]
  cases e.tsSlots with
  | none => exact hread
  | some n =>
    dsimp only [Option.getD_some]
    rw [sSetMaxSlots, if_neg (lt_irrefl 0)]
    by_cases hn : n = 0
    · simp [hn, hread]
    · have hpos : (0 : ℤ) < n.natAbs := by omega
      rw [if_pos hpos, if_neg hn]
      rfl

theorem roster_capUsers : s.capUsers.roster = s.roster.map (User.capped s.maxSlots) := by
  rw [roster, roster, List.map_map]
  refine List.map_congr_left fun u hu => ?_
  have hu : u < s.nusers := List.mem_range.1 hu
  simp only [capUsers, onQueue, hu, true_and, Function.comp, User.capped]
  by_cases h : (s.users u).uid ≠ 0 ∧ s.maxSlots < (s.users u).maxSlots
  · rw [if_pos h]
    exact (if_pos h).symm
  · rw [if_neg h]
    exact (if_neg h).symm

theorem roster_initCpuBind : (s.initCpuBind e).roster = s.roster := by
  rw [initCpuBind]
  dsimp only
  split_ifs
  · rw [sSetMaxSlots, if_neg (lt_irrefl 0)]
    split_ifs <;> rfl
  · rfl
  · rfl

theorem roster_initJobids : (s.initJobids e).roster = s.roster := by
  rw [initJobids]
  split_ifs <;> rfl

theorem roster_sAddJob {j : Job} : (s.sAddJob e j).roster = s.roster := by
  have hcount : (s.onQueue fun q => q.countQueued j.user).roster = s.roster := by
    refine roster_congr (by cases j.user <;> rfl) fun u _ => ?_
    show ((s.countQueued j.user).users u).who = _
    rw [Queue.users_countQueued]
    split_ifs <;> rfl
  rw [sAddJob]
  split
  · split_ifs <;> rfl
  · dsimp only
    split_ifs
    all_goals first
      | exact hcount
      | rfl

theorem roster_reload : (s₀.reload e).roster =
    (e.userFile.foldl readRoster [{ name := "Root" }]).map (User.capped (startSlots e)) := by
  have hopened : (opened e s₀).roster =
      (e.userFile.foldl readRoster [{ name := "Root" }]).map (User.capped (startSlots e)) := by
    have hdefault : (((s₀.boot e).readUserFile e).setDefaultMaxslots e).roster =
        ((s₀.boot e).readUserFile e).roster := by
      rw [setDefaultMaxslots]
      split
      · rw [sSetMaxSlots, if_neg (lt_irrefl 0)]
        split_ifs <;> rfl
      · rfl
    have hboot : (s₀.boot e).Distinct := (started_boot (e := e)).uids
    rw [opened, roster_initJobids]
    refine roster_initCpuBind.trans ?_
    rw [roster_capUsers, maxSlots_setDefaultMaxslots, hdefault, readUserFile, roster_readLines hboot]
    rfl
  rw [reload_eq, sReadSqlite, ← hopened]
  have hjobs := Except.foldl_induction (R := fun s s' : Spool => s'.roster = s.roster)
    (fun _ => rfl) (fun h h' => h'.trans h) (l := rowsInOrder e (opened e s₀).dbJobs)
    (f := fun s r => s.sAddJob e (s.readDb e r true)) (opened e s₀) fun _ => roster_sAddJob
  have hfin : ∀ (l : List Row) (s : Spool), (l.foldl (fun s r => s.onQueue fun q =>
      { q with finishedJobs := q.finishedJobs ++ [s.readDb e r false] }) s).roster = s.roster := by
    intro l
    induction l with
    | nil => exact fun _ => rfl
    | cons r l ih => exact fun s => (ih _).trans rfl
  exact (hfin _ _).trans hjobs

/-- The users are those of the file with which the server has been started, their limits lowered to
`n` and perhaps negated. -/
structure StartedWith (F : List UserLine) (n : ℤ) (s : Spool) : Prop where
  known : ∀ y ∈ F, ∀ uid, y.uid? = some uid → uid ∈ s.roster.map User.uid ∨ 100 ≤ s.nusers
  limit : ∀ u < s.nusers, ∀ k, lastLimit F (s.users u).uid = some k →
    (s.users u).maxSlots.natAbs = (if (s.users u).uid ≠ 0 ∧ n < k then n else k).natAbs

theorem startedWith_reload : StartedWith e.userFile (startSlots e) (s₀.reload e) := by
  have hroster : (s₀.reload e).roster = (e.userFile.foldl readRoster [{ name := "Root" }]).map
      (User.capped (startSlots e)) := roster_reload
  constructor
  · intro y hy uid huid
    have huids : (s₀.reload e).roster.map User.uid =
        (e.userFile.foldl readRoster [{ name := "Root" }]).map User.uid := by
      rw [hroster, List.map_map]
      exact List.map_congr_left fun x _ => User.uid_capped _ x
    have hlen := congrArg List.length huids
    rw [List.length_map, List.length_map, length_roster] at hlen
    rw [huids, hlen]
    exact known_foldl y hy uid huid
  · intro u hu k hk
    have hmem := mem_roster hu
    rw [hroster] at hmem
    obtain ⟨x, hx, hxu⟩ := List.mem_map.1 hmem
    have huid : ((s₀.reload e).users u).uid = x.uid :=
      (congrArg User.uid hxu).symm.trans (User.uid_capped _ x)
    have hmax : ((s₀.reload e).users u).maxSlots = _ :=
      (congrArg User.maxSlots hxu).symm.trans (User.maxSlots_capped _ x)
    rw [huid] at hk ⊢
    rw [hmax, limit_foldl hx hk]

end Spool

/-! ### Runs -/

namespace Server

variable {e e₀ : Env} {s s' s₀ s₁ : Server} {C : Config} {i : Input} {news : List User}

/-- No job asks for less than zero slots, and between the start and the refresh there is neither
another start nor another refresh. -/
def sameFile (l : Env × Input) (s : Server) : Prop :=
  asksSlots l s ∧ (match l.2 with
    | .message _ (.request .refreshUsers) | .restart => false
    | _ => true) = true

theorem sameFile.ne {l : Env × Input} (h : sameFile l s) :
    l.2 ≠ .restart ∧ ∀ index, l.2 ≠ .message index (.request .refreshUsers) := by
  refine ⟨fun hl => ?_, fun index hl => ?_⟩
  · have h := h.2
    rw [hl] at h
    cases h
  · have h := h.2
    rw [hl] at h
    cases h

theorem step_nusers_eq (hs : s.Sound) (hen : s.Enabled i) (hi : i ≠ .restart)
    (hrefresh : ∀ index, i ≠ .message index (.request .refreshUsers)) (h : s.step e i = .ok s') :
    s'.nusers = s.nusers := by
  have hcourse := step_course (K := fun _ => True) hs hen hi (fun _ _ => trivial) h
  refine hcourse.invariant (I := fun w => w.nusers = s.nusers) rfl (fun {w a} hI ha hg => ?_)
    fun hI husage => husage.nusers_eq.trans hI
  by_cases hus : ∀ us n, a ≠ .users us n
  · have hmove : Moves (fun a _ => ∀ us n, a ≠ .users us n) w (a.apply w) := .single a hg hus rfl
    exact (hmove.nusers_eq fun us n _ h => h us n rfl).trans hI
  · simp only [ne_eq, not_forall, not_not] at hus
    obtain ⟨us, n, rfl⟩ := hus
    obtain ⟨index, rfl, -⟩ | ⟨-, -, -, -, -, hn, -⟩ | ⟨-, -, -, -, -, hn, -⟩ := ha.users
    · exact absurd rfl (hrefresh index)
    · exact hn.trans hI
    · exact hn.trans hI

/-- The users stay those of the start. -/
theorem startedWith_step {F : List UserLine} {n : ℤ} {l : Env × Input} (hs : s.Sound)
    (hv : s.StartedWith F n) (hok : sameFile l s) (hst : Step C s l s') : s'.StartedWith F n := by
  obtain ⟨hi, hrefresh⟩ := hok.ne
  obtain ⟨-, hen, h⟩ := hst
  have hn := step_nusers_eq hs hen hi hrefresh h
  have huid : ∀ u < s.nusers, (s'.users u).uid = (s.users u).uid := fun u hu =>
    step_uid hs hen hi h hu
  constructor
  · have huids : s'.toSpool.roster.map User.uid = s.toSpool.roster.map User.uid := by
      rw [Spool.uids_roster, Spool.uids_roster, hn]
      exact List.map_congr_left fun u hu => huid u (List.mem_range.1 hu)
    rw [huids, hn]
    exact hv.known
  · intro u hu k hk
    rw [hn] at hu
    have habs : (s'.users u).maxSlots.natAbs = (s.users u).maxSlots.natAbs :=
      step_who (P := fun x => x.maxSlots.natAbs = (s.users u).maxSlots.natAbs) hs hen hi h hu rfl
        (fun _ x hx => by simp only [User.suspended]; omega)
        fun _ x hx => by simp only [User.resumed]; omega
    rw [huid u hu] at hk ⊢
    exact habs.trans (hv.limit u hu k hk)

theorem startedWith_restart (h : s.step e .restart = .ok s') :
    s'.StartedWith e.userFile (Spool.startSlots e) := by
  rw [step, Except.bind_eq_ok] at h
  obtain ⟨sp, hsp, h⟩ := h
  cases h
  have husage := Spool.serverMain_usage hsp
  have hstart : Spool.StartedWith e.userFile (Spool.startSlots e) (s.reload e) :=
    Spool.startedWith_reload
  have hn : sp.nusers = (s.reload e).nusers := husage.nusers_eq
  have hroster : sp.roster = (s.reload e).roster := Spool.roster_congr hn fun u _ => husage.who u
  constructor
  · show ∀ y ∈ e.userFile, ∀ uid, y.uid? = some uid → uid ∈ sp.roster.map User.uid ∨ 100 ≤ sp.nusers
    rw [hroster, hn]
    exact hstart.known
  · show ∀ u < sp.nusers, ∀ k, lastLimit e.userFile (sp.users u).uid = some k →
      (sp.users u).maxSlots.natAbs =
        (if (sp.users u).uid ≠ 0 ∧ Spool.startSlots e < k then Spool.startSlots e else k).natAbs
    intro u hu k hk
    have huid : (sp.users u).uid = ((s.reload e).users u).uid := by
      have hwho := congrArg User.uid (husage.who u)
      exact hwho
    have hmax : (sp.users u).maxSlots = ((s.reload e).users u).maxSlots :=
      User.maxSlots_of_who (husage.who u)
    rw [huid] at hk ⊢
    rw [hmax]
    exact hstart.limit u (hn ▸ hu) k hk

/-- **A refresh with the file of the start adds the new users and changes nothing else** exactly if
there is room for them, no user in the file has been capped or is suspended against the file, and
the file sets no other number of slots. -/
theorem unchanged_refresh_adds {s₂ : Server} (socket : ℤ) (h₀ : s₀.Fresh)
    (hr₀ : Run (Step C) asksSlots s₀ s₁) (hrows : asksSlots (e₀, .restart) s₁)
    (hst : Step C s₁ (e₀, .restart) s₂) (hr : Run (Step C) sameFile s₂ s)
    (hfile : e.userFile = e₀.userFile ++ news.map User.line) (hnew : s.News news) :
    s.RefreshAdds e socket news ↔ news.length ≤ 100 - s.nusers ∧
      (∀ u < s.nusers, ∀ n, lastLimit e₀.userFile (s.users u).uid = some n →
        ((s.users u).uid = 0 ∨ n ≤ Spool.startSlots e₀) ∧ (0 ≤ n ↔ 0 ≤ (s.users u).maxSlots)) ∧
      ∀ n, Spool.lastSlots e₀.userFile = some n → n = s.maxSlots := by
  have hsolv := solvent_step (Run.solvent h₀ hr₀) hrows hst
  obtain ⟨hs, hwith⟩ := hr.invariant
    (I := fun s => s.Solvent ∧ s.StartedWith e₀.userFile (Spool.startSlots e₀))
    ⟨hsolv, startedWith_restart hst.2.2⟩ fun hI hok hst =>
      ⟨solvent_step hI.1 hok.1 hst, startedWith_step hI.1.sound hI.2 hok hst⟩
  have howner : ∀ p ∈ s.view.activeJobs, p.user ≠ none := by
    intro p hp hnone
    obtain ⟨u, -, hu⟩ := hs.queued.owner p hp
    rw [hnone] at hu
    cases hu
  rw [Spool.refreshAdds_iff hs.covered howner socket hwith.known hfile hnew]
  refine and_congr_right fun _ => and_congr_left fun _ => ?_
  refine forall₂_congr fun u hu => forall₂_congr fun n hn => ?_
  -- the limit that is kept is the one of the file, capped, up to its sign
  have habs := hwith.limit u hu n hn
  have hpos := Spool.startSlots_pos (e := e₀)
  by_cases hcap : (s.users u).uid ≠ 0 ∧ Spool.startSlots e₀ < n
  · rw [if_pos hcap] at habs
    refine ⟨fun heq => ?_, fun h => ?_⟩
    · rw [← heq] at habs
      omega
    · exact absurd h.1 (by omega)
  · rw [if_neg hcap] at habs
    rw [not_and_or, not_not, not_lt] at hcap
    refine ⟨fun heq => ⟨hcap, by rw [heq]⟩, fun h => ?_⟩
    obtain ⟨-, hsign⟩ := h
    omega

instance : ∀ l s, Decidable (sameFile l s) := fun l s =>
  inferInstanceAs (Decidable (asksSlots l s ∧ _ = true))

/-- The world with a line for a new user behind the file. -/
def grownWorld (now : ℤ) : Env :=
  { world now with userFile := (world 0).userFile ++ [.user "guest" 1001 1] }

/-- The new user. -/
def guest : User := { name := "guest", uid := 1001, maxSlots := 1 }

instance {sp : Spool} {news : List User} : Decidable (sp.News news) :=
  inferInstanceAs (Decidable (_ ∧ _))

/-- The user 1000 is suspended and resumed, and a new user is added. -/
theorem resumed_user_kept : ∃ s : Server, s.nusers = 2 ∧ s.News [guest] ∧
    s.RefreshAdds (grownWorld 5) 7 [guest] := by
  obtain ⟨s₁, s₂, hr₀, hst, hP⟩ := exists_run_step asksSlots started
    (fun s₁ s₂ => asksSlots (world 1, .restart) s₁ ∧ reaches sameFile
      (fun s => s.nusers = 2 ∧ s.News [guest] ∧ (s.users 0).uid = 0 ∧ (s.users 1).uid = 1000 ∧
        (s.users 1).maxSlots = 2)
      [(world 2, .accept 5 1000), (world 3, .message 0 (.request (.suspendUser 0))),
        (world 4, .accept 5 1000), (world 4, .message 0 (.request (.resumeUser 0)))] s₂)
    (world 1, .restart) [] (by simp) (by decide +kernel)
  obtain ⟨hrows, hP⟩ := of_decide_eq_true hP
  obtain ⟨s, hr, hP⟩ := exists_run plainConfig _ _ _ _ (by simp [world]) hP
  obtain ⟨hn, hnew, hroot, huid, hmax⟩ := of_decide_eq_true hP
  refine ⟨s, hn, hnew, (unchanged_refresh_adds 7 fresh_started hr₀ hrows hst hr rfl hnew).2
    ⟨by rw [hn]; decide, fun u hu n hlast => ?_, fun n hlast => by cases hlast⟩⟩
  obtain rfl | rfl : u = 0 ∨ u = 1 := by omega
  · rw [hroot] at hlast
    cases hlast
  · rw [huid] at hlast ⊢
    cases hlast
    rw [hmax]
    decide

/-- The user 1000 is suspended, and the file of the start is rejected. -/
theorem suspended_user_rejects : ¬∀ (C : Config) (s₀ s₁ s₂ s : Server) (e₀ e : Env) (socket : ℤ)
    (news : List User), s₀.Fresh → Run (Step C) asksSlots s₀ s₁ → asksSlots (e₀, .restart) s₁ →
    Step C s₁ (e₀, .restart) s₂ → Run (Step C) sameFile s₂ s →
    e.userFile = e₀.userFile ++ news.map User.line → s.News news →
    s.RefreshAdds e socket news := by
  intro hall
  obtain ⟨s₁, s₂, hr₀, hst, hP⟩ := exists_run_step asksSlots started
    (fun s₁ s₂ => asksSlots (world 1, .restart) s₁ ∧ reaches sameFile
      (fun s => (s.refreshRejection (world 4)).isSome)
      [(world 2, .accept 5 1000), (world 3, .message 0 (.request (.suspendUser 0)))] s₂)
    (world 1, .restart) [] (by simp) (by decide +kernel)
  obtain ⟨hrows, hP⟩ := of_decide_eq_true hP
  obtain ⟨s, hr, hrej⟩ := exists_run plainConfig _ _ _ _ (by simp [world]) hP
  obtain ⟨hnone, -⟩ := hall _ _ _ _ s _ (world 4) 7 [] fresh_started hr₀ hrows hst hr rfl
    ⟨List.nodup_nil, fun x hx => absurd hx List.not_mem_nil⟩
  rw [hnone] at hrej
  cases hrej

end Server

end TaskSpooler
