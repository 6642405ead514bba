import ShainManager.ChoiceChat.Page
import ShainManager.Lib.Run
import ShainManager.Passwords

/-!
# The profiles and the home page

Everything the app writes to the remote database lies below `users/<uid>`: registrations,
receipts and submitted months. `fetchnickname` (`lib/ui/homepage.dart`) awaits the signed-in
user, reads the profile of that moment once and shows its entries `name`, `email` and `avatar`
in the drawer. No writer has an entry `avatar`.

* `users_independent`: what is stored for a user depends on the operations of that user alone.
* `home_shows_registration`: in every run in which an account is registered once, before
  anything else is written for it, a home page that has read a profile shows the name and the
  address of the registration, and `null` for the picture.
-/

namespace ShainManager

open Machine PathTree

/-! ## One user's part of the database -/

/-- The user for whom the operation writes. -/
def UserOp.uid : UserOp → String
  | .signUp uid _ _ _ => uid
  | .photo uid _ => uid
  | .timework uid _ _ => uid

/-- What the operation writes, by the path below the user. -/
def UserOp.below : UserOp → List (List String × Option Value)
  | .signUp uid email password nickname =>
    ([], none) :: (profileFields uid email password nickname).map fun kv => ([kv.1], kv.2)
  | .photo _ url => [(["photo"], some (.str url))]
  | .timework _ data flag =>
    (data.timework.map fun kv => (["timework", data.ymdWork, kv.1], kv.2)) ++
      [(["timework", "flag"], some (.str flag))]

namespace HomePageLemmas

variable {uid : String}

theorem apply_eq_writes (op : UserOp) (db : RealtimeDb) :
    op.apply db = writes (op.below.map fun w => (userPath op.uid ++ w.1, w.2)) db := by
  cases op with
  | signUp uid email password nickname => rfl
  | photo uid url => rfl
  | timework uid data flag => rfl

/-- An operation of the user works on the user's part alone. -/
theorem sub_apply_self {op : UserOp} (h : op.uid = uid) (db : RealtimeDb) :
    sub (userPath uid) (op.apply db) = writes op.below (sub (userPath uid) db) := by
  rw [apply_eq_writes, h]
  exact sub_writes_append (userPath uid)

/-- An operation of another user does not reach it. -/
theorem sub_apply_other {op : UserOp} (h : op.uid ≠ uid) (db : RealtimeDb) :
    sub (userPath uid) (op.apply db) = sub (userPath uid) db := by
  rw [apply_eq_writes]
  refine sub_writes_apart fun w hw => ?_
  obtain ⟨w', -, rfl⟩ := List.mem_map.mp hw
  exact (apart_userPath h).append_left _

/-- The operations of the other users can be left out. The two databases may differ elsewhere. -/
theorem sub_applyAll_filter (ops : List UserOp) {db db' : RealtimeDb}
    (h : sub (userPath uid) db = sub (userPath uid) db') :
    sub (userPath uid) (applyAll db ops) =
      sub (userPath uid) (applyAll db' (ops.filter fun op => decide (op.uid = uid))) := by
  induction ops generalizing db db' with
  | nil => exact h
  | cons op ops ih =>
    by_cases hu : op.uid = uid
    · rw [List.filter_cons_of_pos (by simpa using hu)]
      have hsame : sub (userPath uid) (op.apply db) = sub (userPath uid) (op.apply db') := by
        rw [sub_apply_self hu, sub_apply_self hu, h]
      exact ih hsame
    · rw [List.filter_cons_of_neg (by simpa using hu)]
      have hkept : sub (userPath uid) (op.apply db) = sub (userPath uid) db' := by
        rw [sub_apply_other hu, h]
      exact ih hkept

end HomePageLemmas

open HomePageLemmas

/-- For every sequence of registrations, receipts and submissions of any users: what is stored
for a user is what the operations of that user alone leave. -/
theorem users_independent (db : RealtimeDb) (ops : List UserOp) (uid : String) :
    sub (userPath uid) (applyAll db ops) =
      sub (userPath uid) (applyAll db (ops.filter fun op => decide (op.uid = uid))) :=
  sub_applyAll_filter ops rfl

/-! ## The home page -/

/-- A value of the database in a string interpolation. -/
def interpolatedValue : Option Value → String
  | none => "null"
  | some (.str s) => s
  | some (.int n) => toString n
  | some (.bool b) => toString b

/-- The fields of `_HomePageState`. -/
structure HomePage where
  nickname : Option String := some ""
  useravatar : Option Value := none
  useremail : Option String := some ""
deriving DecidableEq, Repr

/-- The callback of `once()`. A null snapshot throws at its first entry, and an entry that is no
text throws where it is assigned. -/
def HomePage.onValue (p : HomePage) (value : Option Profile) : HomePage :=
  match value with
  | none => p
  | some data =>
    match asString (data "name") with
    | none => p
    | some nickname =>
      let p := { p with nickname, useravatar := data "avatar" }
      match asString (data "email") with
      | none => p
      | some useremail => { p with useremail }

/-- The name, the address and the picture in the drawer. -/
def HomePage.drawer (p : HomePage) : String × String × String :=
  (interpolated p.nickname, interpolated p.useremail, interpolatedValue p.useravatar)

/-- How far `fetchnickname` of a page is. -/
inductive HomeStage
  | opened
  | asking (uid : String)
  | done (uid : Option String)
deriving DecidableEq, Repr

structure OpenHome where
  stage : HomeStage := .opened
  page : HomePage := {}
deriving DecidableEq, Repr

/-- The operations so far and the home pages. -/
structure Homes where
  ops : List UserOp := []
  homes : List OpenHome := []
deriving DecidableEq, Repr

def Homes.db (s : Homes) : RealtimeDb := applyAll (fun _ => none) s.ops

/-- What `once()` gives for a user: null when nothing has been written for it
(`part_absent_iff`). -/
def Homes.value (s : Homes) (uid : String) : Option Profile :=
  if ∃ op ∈ s.ops, op.uid = uid then some (profileOf s.db uid) else none

/-- * `write op`: an operation on `users`;
* `openHome`: a home page is opened;
* `currentUser k uid`: the signed-in user of this moment reaches the page `k`;
* `value k`: the profile of this moment reaches it. -/
inductive HomeEvent
  | write (op : UserOp)
  | openHome
  | currentUser (k : Nat) (uid : Option String)
  | value (k : Nat)
deriving DecidableEq, Repr

def homeStep (s : Homes) : HomeEvent → Option Homes
  | .write op => some { s with ops := s.ops ++ [op] }
  | .openHome => some { s with homes := s.homes ++ [{}] }
  | .currentUser k user =>
    match s.homes[k]? with
    | some ⟨.opened, page⟩ =>
      match user with
      -- `usercurrent.uid` of null throws
      | none => some { s with homes := s.homes.set k ⟨.done none, page⟩ }
      | some uid => some { s with homes := s.homes.set k ⟨.asking uid, page⟩ }
    | _ => none
  | .value k =>
    match s.homes[k]? with
    | some ⟨.asking uid, page⟩ =>
      some { s with homes := s.homes.set k ⟨.done (some uid), page.onValue (s.value uid)⟩ }
    | _ => none

/-- An account is registered once, before anything else is written for it. -/
def RegisteredFirst (s : Homes) : HomeEvent → Prop
  | .write (.signUp uid _ _ _) => ∀ op ∈ s.ops, op.uid ≠ uid
  | .write op => ∃ op' ∈ s.ops, op'.uid = op.uid
  | _ => True

instance (s : Homes) : ∀ e, Decidable (RegisteredFirst s e)
  | .write (.signUp _ _ _ _) => inferInstanceAs (Decidable (∀ op ∈ s.ops, _))
  | .write (.photo _ _) => inferInstanceAs (Decidable (∃ op ∈ s.ops, _))
  | .write (.timework _ _ _) => inferInstanceAs (Decidable (∃ op ∈ s.ops, _))
  | .openHome | .currentUser _ _ | .value _ => .isTrue trivial

namespace HomePageLemmas

variable {s s' : Homes} {uid : String}

theorem db_write (s : Homes) (op : UserOp) :
    ({ s with ops := s.ops ++ [op] } : Homes).db = op.apply s.db := by
  exact List.foldl_append

theorem profileOf_eq_sub (db : RealtimeDb) (uid f : String) :
    profileOf db uid f = sub (userPath uid) db [f] := rfl

/-- A receipt or a submission leaves the entries other than `photo` and `timework`. -/
theorem profileOf_apply {op : UserOp} {f : String} (h : ¬ op.Registers uid) (hphoto : f ≠ "photo")
    (htimework : f ≠ "timework") (db : RealtimeDb) :
    profileOf (op.apply db) uid f = profileOf db uid f := by
  rw [profileOf_eq_sub, profileOf_eq_sub]
  by_cases hu : op.uid = uid
  · have hap : ∀ w ∈ op.below, Apart w.1 [f] := by
      intro w hw
      cases op with
      | signUp uid' email password nickname => exact absurd hu h
      | photo uid' url =>
        rw [List.mem_singleton.mp hw]
        exact apart_snoc [] hphoto.symm
      | timework uid' data flag =>
        have htop : Apart ["timework"] [f] := apart_snoc [] htimework.symm
        rcases List.mem_append.mp hw with hw | hw
        · obtain ⟨kv, -, rfl⟩ := List.mem_map.mp hw
          exact htop.append_left [data.ymdWork, kv.1]
        · rw [List.mem_singleton.mp hw]
          exact htop.append_left ["flag"]
    rw [sub_apply_self hu]
    have hsub := congrFun (sub_writes_apart hap (t := sub (userPath uid) db)) []
    simpa only [sub, List.append_nil] using hsub
  · rw [sub_apply_other hu]

/-- The profile holds the name and the address of the registration, and no picture. -/
structure Registered (db : RealtimeDb) (uid email nickname : String) : Prop where
  name : profileOf db uid "name" = some (.str nickname)
  email : profileOf db uid "email" = some (.str email)
  avatar : profileOf db uid "avatar" = none

theorem registered_signUp (db : RealtimeDb) (uid email password nickname : String) :
    Registered (signUpSet db uid email password nickname) uid email nickname :=
  ⟨signUpSet_field db (by simp [profileFields]), signUpSet_field db (by simp [profileFields]),
    signUpSet_absent db (by simp [profileFields])⟩

theorem Registered.apply {db : RealtimeDb} {email nickname : String} {op : UserOp}
    (h : Registered db uid email nickname) (hop : ¬ op.Registers uid) :
    Registered (op.apply db) uid email nickname :=
  ⟨(profileOf_apply hop (by decide) (by decide) db).trans h.name,
    (profileOf_apply hop (by decide) (by decide) db).trans h.email,
    (profileOf_apply hop (by decide) (by decide) db).trans h.avatar⟩

/-- The profile of every registered user still shows the registration, and everything else was
written for a registered user. -/
structure AllRegistered (s : Homes) : Prop where
  shown : ∀ {uid email password nickname}, .signUp uid email password nickname ∈ s.ops →
    Registered s.db uid email nickname
  first : ∀ op ∈ s.ops, ∃ email password nickname, .signUp op.uid email password nickname ∈ s.ops

theorem allRegistered_write {op : UserOp} (h : AllRegistered s) (hok : RegisteredFirst s (.write op)) :
    AllRegistered { s with ops := s.ops ++ [op] } := by
  constructor
  · intro uid email password nickname hmem
    rw [db_write]
    rcases List.mem_append.mp hmem with hin | hin
    · refine (h.shown hin).apply ?_
      cases op with
      | signUp uid' email' password' nickname' => exact fun he => hok _ hin he.symm
      | photo uid' url => exact id
      | timework uid' data flag => exact id
    · obtain rfl := List.mem_singleton.mp hin
      exact registered_signUp s.db uid email password nickname
  · -- the user of an earlier operation is registered
    have hold : ∀ op' ∈ s.ops, ∃ email password nickname,
        .signUp op'.uid email password nickname ∈ s.ops ++ [op] := by
      intro op' hop'
      obtain ⟨email, password, nickname, hmem⟩ := h.first op' hop'
      exact ⟨email, password, nickname, List.mem_append_left _ hmem⟩
    intro op' hop'
    rcases List.mem_append.mp hop' with hin | hin
    · exact hold op' hin
    · obtain rfl := List.mem_singleton.mp hin
      cases op' with
      | signUp uid email password nickname => exact ⟨email, password, nickname, hop'⟩
      | photo uid url =>
        obtain ⟨first, hfirst, hu⟩ := hok
        exact hu ▸ hold first hfirst
      | timework uid data flag =>
        obtain ⟨first, hfirst, hu⟩ := hok
        exact hu ▸ hold first hfirst

/-- An operation leaves something below its user. -/
theorem part_apply_ne (op : UserOp) (t : Tree String Value) : writes op.below t ≠ fun _ => none := by
  obtain ⟨ws, p, v, hbelow⟩ : ∃ ws p v, op.below = ws ++ [(p, some v)] := by
    cases op with
    | signUp uid email password nickname =>
      exact ⟨([], none) :: ((profileFields uid email password nickname).take 5).map
        (fun kv => ([kv.1], kv.2)), ["timework"], .str "", rfl⟩
    | photo uid url => exact ⟨[], ["photo"], .str url, rfl⟩
    | timework uid data flag => exact ⟨_, ["timework", "flag"], .str flag, rfl⟩
  intro h
  have hp := congrFun h p
  rw [hbelow, writes_append, writes_cons] at hp
  exact absurd (hp.symm.trans write_self) nofun

/-- Nothing is stored for a user exactly when nothing has been written for it. -/
theorem part_absent_iff (s : Homes) (uid : String) :
    sub (userPath uid) s.db = (fun _ => none) ↔ ¬ ∃ op ∈ s.ops, op.uid = uid := by
  obtain ⟨ops, homes⟩ := s
  induction ops using List.reverseRecOn with
  | nil => exact ⟨fun _ => by rintro ⟨op, hop, -⟩; exact absurd hop List.not_mem_nil, fun _ => rfl⟩
  | append_singleton ops op ih =>
    rw [db_write ⟨ops, homes⟩ op]
    by_cases hu : op.uid = uid
    · rw [sub_apply_self hu]
      refine iff_of_false (part_apply_ne op _) (not_not_intro ?_)
      exact ⟨op, List.mem_append_right _ List.mem_cons_self, hu⟩
    · rw [sub_apply_other hu, ih]
      refine not_congr ⟨?_, ?_⟩
      · rintro ⟨op', hop', he⟩
        exact ⟨op', List.mem_append_left _ hop', he⟩
      · rintro ⟨op', hop', he⟩
        rcases List.mem_append.mp hop' with hin | hin
        · exact ⟨op', hin, he⟩
        · rw [List.mem_singleton.mp hin] at he
          exact absurd he hu

/-- A page is blank, or it has read a profile and shows a registration. -/
def HomeOk (s : Homes) (o : OpenHome) : Prop :=
  o.page = {} ∨ ∃ uid email password nickname, o.stage = .done (some uid) ∧
    .signUp uid email password nickname ∈ s.ops ∧ o.page.drawer = (nickname, email, "null")

/-- What the profile of a registered user does to the drawer. -/
theorem drawer_onValue {email password nickname : String} (h : AllRegistered s)
    (hmem : .signUp uid email password nickname ∈ s.ops) (p : HomePage) :
    (p.onValue (s.value uid)).drawer = (nickname, email, "null") := by
  have hr := h.shown hmem
  unfold Homes.value
  rw [if_pos ⟨_, hmem, rfl⟩]
  simp only [HomePage.onValue, hr.name, hr.email, hr.avatar, asString]
  rfl

theorem homeOk_value (h : AllRegistered s) (uid : String) :
    HomeOk s ⟨.done (some uid), HomePage.onValue {} (s.value uid)⟩ := by
  by_cases hop : ∃ op ∈ s.ops, op.uid = uid
  · obtain ⟨op, hop, rfl⟩ := hop
    obtain ⟨email, password, nickname, hmem⟩ := h.first op hop
    exact .inr ⟨op.uid, email, password, nickname, rfl, hmem, drawer_onValue h hmem {}⟩
  · unfold Homes.value
    rw [if_neg hop]
    exact .inl rfl

/-- The pages are in order, and one that has not read a profile is blank. -/
structure HomesOk (s : Homes) : Prop where
  registered : AllRegistered s
  homes : ∀ o ∈ s.homes, HomeOk s o
  blank : ∀ o ∈ s.homes, (∀ uid, o.stage ≠ .done (some uid)) → o.page = {}

theorem homesOk_step {e : HomeEvent} (h : HomesOk s) (hok : RegisteredFirst s e)
    (hs : homeStep s e = some s') : HomesOk s' := by
  cases e with
  | write op =>
    cases hs
    refine ⟨allRegistered_write h.registered hok, fun o ho => ?_, h.blank⟩
    rcases h.homes o ho with hblank | ⟨uid, email, password, nickname, hstage, hmem, hdrawer⟩
    · exact .inl hblank
    · exact .inr ⟨uid, email, password, nickname, hstage, List.mem_append_left _ hmem, hdrawer⟩
  | openHome =>
    cases hs
    refine ⟨⟨h.registered.shown, h.registered.first⟩, fun o ho => ?_, fun o ho => ?_⟩
    · rcases List.mem_append.mp ho with ho | ho
      · exact h.homes o ho
      · rw [List.mem_singleton.mp ho]
        exact .inl rfl
    · rcases List.mem_append.mp ho with ho | ho
      · exact h.blank o ho
      · rw [List.mem_singleton.mp ho]
        exact fun _ => rfl
  | currentUser k user =>
    simp only [homeStep] at hs
    split at hs
    · next page hk =>
      have hpage : page = {} := h.blank _ (List.mem_of_getElem? hk) nofun
      subst hpage
      -- the page stays blank, whatever the answer
      have hset : ∀ stage : HomeStage, HomesOk { s with homes := s.homes.set k ⟨stage, {}⟩ } := by
        intro stage
        refine ⟨⟨h.registered.shown, h.registered.first⟩, fun o ho => ?_, fun o ho => ?_⟩
        · rcases List.mem_or_eq_of_mem_set ho with ho | rfl
          · exact h.homes o ho
          · exact .inl rfl
        · rcases List.mem_or_eq_of_mem_set ho with ho | rfl
          · exact h.blank o ho
          · exact fun _ => rfl
      split at hs
      · cases hs
        exact hset _
      · cases hs
        exact hset _
    · cases hs
  | value k =>
    simp only [homeStep] at hs
    split at hs
    · next uid page hk =>
      cases hs
      have hpage : page = {} := h.blank _ (List.mem_of_getElem? hk) nofun
      subst hpage
      refine ⟨⟨h.registered.shown, h.registered.first⟩, fun o ho => ?_, fun o ho => ?_⟩
      · rcases List.mem_or_eq_of_mem_set ho with ho | rfl
        · exact h.homes o ho
        · exact homeOk_value h.registered uid
      · rcases List.mem_or_eq_of_mem_set ho with ho | rfl
        · exact h.blank o ho
        · exact fun hne => absurd rfl (hne uid)
    · cases hs

end HomePageLemmas

/-- In every run of writes and home pages in which an account is registered once, before anything
else is written for it: a page shows nothing, or the name and the address that the user whose
profile it has read gave at the registration, and `null` for the picture. A page that asks for the
profile of a registered user gets to show it. -/
theorem home_shows_registration {s : Homes} (h : Reach homeStep RegisteredFirst {} s) :
    (∀ o ∈ s.homes, o.page.drawer = ("", "", "null") ∨ ∃ uid email password nickname,
      o.stage = .done (some uid) ∧ .signUp uid email password nickname ∈ s.ops ∧
      o.page.drawer = (nickname, email, "null")) ∧
    ∀ k uid page email password nickname, s.homes[k]? = some ⟨.asking uid, page⟩ →
      .signUp uid email password nickname ∈ s.ops →
      ∃ s', homeStep s (.value k) = some s' ∧
        (s'.homes[k]?).map (·.page.drawer) = some (nickname, email, "null") := by
  have hok : HomesOk s := by
    refine h.invariant ?_ fun _ hi ho hs => homesOk_step hi ho hs
    exact ⟨⟨fun hmem => absurd hmem List.not_mem_nil, fun _ hop => absurd hop List.not_mem_nil⟩,
      fun _ ho => absurd ho List.not_mem_nil, fun _ ho => absurd ho List.not_mem_nil⟩
  refine ⟨fun o ho => ?_, ?_⟩
  · rcases hok.homes o ho with hblank | hshown
    · rw [hblank]
      exact .inl rfl
    · exact .inr hshown
  · intro k uid page email password nickname hk hmem
    refine ⟨{ s with homes := s.homes.set k ⟨.done (some uid), page.onValue (s.value uid)⟩ }, ?_, ?_⟩
    · simp only [homeStep, hk]
    · have hlt : k < s.homes.length := (List.getElem?_eq_some_iff.mp hk).1
      simp only [List.getElem?_set_self hlt, Option.map_some]
      rw [drawer_onValue hok.registered hmem]

/-- A home page is opened before the registration has been stored, and one after a receipt. -/
def twoHomes : List HomeEvent :=
  [.openHome, .currentUser 0 (some "u"), .value 0, .write (.signUp "u" "a@b.com" "secret" "田中"),
   .write (.photo "u" "url"), .openHome, .currentUser 1 (some "u")]

theorem home_shows_registration_twoHomes :
    ∃ s s', Reach homeStep RegisteredFirst {} s ∧ homeStep s (.value 1) = some s' ∧
      (s.homes[0]?).map (·.page.drawer) = some ("", "", "null") ∧
      (s'.homes[1]?).map (·.page.drawer) = some ("田中", "a@b.com", "null") := by
  obtain ⟨s, hs, hblank, hasking, hmem⟩ := exists_reach_of_run homeStep RegisteredFirst {} twoHomes
    (p := fun s => (s.homes[0]?).map (·.page.drawer) = some ("", "", "null") ∧
      s.homes[1]? = some ⟨.asking "u", {}⟩ ∧ .signUp "u" "a@b.com" "secret" "田中" ∈ s.ops)
    (by decide)
  obtain ⟨s', hs', hdrawer⟩ := (home_shows_registration hs).2 1 "u" {} _ _ _ hasking hmem
  exact ⟨s, s', hs, hs', hblank, hdrawer⟩

end ShainManager
