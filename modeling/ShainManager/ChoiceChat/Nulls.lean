import ShainManager.ChoiceChat.Search
import ShainManager.Lib.Run

/-!
# Missing values on the chat-selection page

The page reads the entries `name`, `email` and `avatar` of every profile, and the previews use
the signed-in user. `signUp` (`lib/services/authentication.dart`) writes no `avatar`, and
nothing makes the previews wait for `currentUser`.

* `no_null_iff`: the runs in which no null is used.
* `tiles_and_previews`: which of the values are missing, and when.
* `tile_without_avatar`: a run with one user.
-/

namespace ShainManager

open Machine PathTree

/-! ## Profiles -/

/-- The arguments of a `signUp`, and the id of the account. -/
structure SignUp where
  uid : String
  email : String
  password : String
  nickname : String
deriving DecidableEq, Repr

/-- The database after some registrations. -/
def signUps (regs : List SignUp) : RealtimeDb :=
  regs.foldl (fun db r => signUpSet db r.uid r.email r.password r.nickname) fun _ => none

/-- The values of `users`, in the order of `uids`. -/
def profiles (regs : List SignUp) (uids : List String) : List Profile :=
  uids.map (profileOf (signUps regs))

/-! ## The machine -/

/-- `tiles` are the positions at which a tile has been built. -/
structure ChoiceState where
  page : ChoicePage := {}
  arrived : Bool := false
  tiles : List Nat := []
deriving DecidableEq, Repr

/-- The arrival of the profiles and of a result of `currentUser`, a build of the page, a search,
the build of a tile, and a snapshot of the messages for a tile. -/
inductive ChoiceEvent
  | users
  | currentUser (user : Option FirebaseUser)
  | build
  | search (query : String)
  | tile (index : Nat)
  | messages (index : Nat) (values : List MessageData)
deriving DecidableEq, Repr

def choiceStep (datas : List Profile) (s : ChoiceState) : ChoiceEvent → Option ChoiceState
  | .users =>
    if s.arrived then none
    else some { s with page := s.page.onUsers datas, arrived := true }
  | .currentUser user =>
    if s.page.awaiting = 0 then none
    else some { s with page := { s.page with user, awaiting := s.page.awaiting - 1 } }
  | .build => some { s with page := s.page.fetchnewmess }
  | .search query => some { s with page := s.page.fillout query }
  | .tile index =>
    if index < s.page.listdata.length then some { s with tiles := index :: s.tiles } else none
  | .messages index values =>
    if index ∈ s.tiles ∧ index < s.page.listdata.length then
      match s.page.previewBuilder index values with
      | none => some s
      | some (_, page) => some { s with page }
    else none

/-- What the step passes on is not null: a tile has a title and an image, and a preview has its
two addresses. -/
def ChoiceState.NullFree (s : ChoiceState) : ChoiceEvent → Prop
  | .tile index => ∀ t ∈ s.page.itemBuilder index, t.title ≠ none ∧ t.backgroundImage ≠ none
  | .messages index values => s.page.previewBuilder index values ≠ none
  | .users => True
  | .currentUser _ => True
  | .build => True
  | .search _ => True

/-- No tile is built. -/
def noTile (_ : ChoiceState) : ChoiceEvent → Prop
  | .tile _ => False
  | _ => True

instance (s : ChoiceState) : ∀ e, Decidable (noTile s e)
  | .tile _ => .isFalse id
  | .users | .currentUser _ | .build | .search _ | .messages _ _ => .isTrue trivial

/-! ## What a step can do -/

inductive ChoiceMove (datas : List Profile) : ChoiceState → ChoiceEvent → ChoiceState → Prop
  | users {s : ChoiceState} :
      ChoiceMove datas s .users { s with page := s.page.onUsers datas, arrived := true }
  | currentUser {s : ChoiceState} {user : Option FirebaseUser} {awaiting : Nat} :
      ChoiceMove datas s (.currentUser user) { s with page := { s.page with user, awaiting } }
  | build {s : ChoiceState} : ChoiceMove datas s .build { s with page := s.page.fetchnewmess }
  | search {s : ChoiceState} {query : String} :
      ChoiceMove datas s (.search query) { s with page := s.page.fillout query }
  | tile {s : ChoiceState} {index : Nat} (hlt : index < s.page.listdata.length) :
      ChoiceMove datas s (.tile index) { s with tiles := index :: s.tiles }
  | throws {s : ChoiceState} {index : Nat} {values : List MessageData} (hmem : index ∈ s.tiles)
      (hnone : s.page.previewBuilder index values = none) :
      ChoiceMove datas s (.messages index values) s
  | messages {s : ChoiceState} {index : Nat} {values : List MessageData} {newmess : Option String}
      (hmem : index ∈ s.tiles) :
      ChoiceMove datas s (.messages index values) { s with page := { s.page with newmess } }

/-- A preview changes `newmess` only. -/
theorem previewBuilder_eq_some {p p' : ChoicePage} {index : Nat} {values : List MessageData}
    {text : String} (h : p.previewBuilder index values = some (text, p')) :
    ∃ newmess, p' = { p with newmess } := by
  simp only [ChoicePage.previewBuilder, Option.bind_eq_bind, Option.bind_eq_some_iff,
    Option.pure_def, Option.some.injEq, Prod.mk.injEq] at h
  obtain ⟨user, -, item, -, useremail, -, -, hp⟩ := h
  exact ⟨_, hp.symm⟩

theorem choiceMove_of_step {datas : List Profile} {s s' : ChoiceState} {e : ChoiceEvent}
    (h : choiceStep datas s e = some s') : ChoiceMove datas s e s' := by
  cases e with
  | users =>
    simp only [choiceStep] at h
    split at h
    · cases h
    · cases h
      exact .users
  | currentUser user =>
    simp only [choiceStep] at h
    split at h
    · cases h
    · cases h
      exact .currentUser
  | build =>
    cases h
    exact .build
  | search query =>
    cases h
    exact .search
  | tile index =>
    simp only [choiceStep] at h
    split at h
    · next hlt =>
      cases h
      exact .tile hlt
    · cases h
  | messages index values =>
    simp only [choiceStep] at h
    split at h
    · next hmem =>
      split at h
      · next hnone =>
        cases h
        exact .throws hmem.1 hnone
      · next text page hpreview =>
        cases h
        obtain ⟨newmess, rfl⟩ := previewBuilder_eq_some hpreview
        exact .messages hmem.1
    · cases h

namespace NullsLemmas

/-! ## What the profiles hold -/

/-- A user as `signUp` leaves it. -/
structure Registered (u : UserList) : Prop where
  name : u.username ≠ none
  email : u.useremail ≠ none
  avatar : u.useravatar = none

theorem signUps_snoc (regs : List SignUp) (r : SignUp) :
    signUps (regs ++ [r]) = signUpSet (signUps regs) r.uid r.email r.password r.nickname := by
  exact List.foldl_append

theorem profile_signUps {regs : List SignUp} {uid : String} (h : uid ∈ regs.map SignUp.uid) :
    ∃ email nickname, profileOf (signUps regs) uid "email" = some (.str email) ∧
      profileOf (signUps regs) uid "name" = some (.str nickname) ∧
      profileOf (signUps regs) uid "avatar" = none := by
  induction regs using List.reverseRecOn with
  | nil => exact absurd h List.not_mem_nil
  | append_singleton regs r ih =>
    rw [signUps_snoc]
    rcases eq_or_ne r.uid uid with rfl | hne
    · refine ⟨r.email, r.nickname, ?_, ?_, ?_⟩
      · exact signUpSet_field _ (by simp [profileFields])
      · exact signUpSet_field _ (by simp [profileFields])
      · exact signUpSet_absent _ (by simp [profileFields])
    · have hother : profileOf (signUpSet (signUps regs) r.uid r.email r.password r.nickname) uid =
          profileOf (signUps regs) uid := by
        funext entry
        exact congrFun (sub_signUpSet_other _ hne r.email r.password r.nickname) [entry]
      rw [hother]
      refine ih ?_
      rw [List.map_append] at h
      rcases List.mem_append.mp h with h | h
      · exact h
      · exact absurd (List.mem_singleton.mp h).symm hne

theorem registered_userListOf {data : Profile} {email nickname : String} {u : UserList}
    (hemail : data "email" = some (.str email)) (hname : data "name" = some (.str nickname))
    (havatar : data "avatar" = none) (h : userListOf data = some u) : Registered u := by
  unfold userListOf at h
  rw [hemail, hname, havatar] at h
  cases h
  exact ⟨Option.some_ne_none _, Option.some_ne_none _, rfl⟩

theorem registered_usersOf {regs : List SignUp} {uids : List String}
    (h : ∀ uid ∈ uids, uid ∈ regs.map SignUp.uid) : ∀ u ∈ usersOf (profiles regs uids), Registered u := by
  induction uids with
  | nil => exact fun u hu => absurd hu List.not_mem_nil
  | cons uid uids ih =>
    intro u hu
    obtain ⟨email, nickname, hemail, hname, havatar⟩ := profile_signUps (h uid List.mem_cons_self)
    rw [profiles, List.map_cons, usersOf] at hu
    split at hu
    · exact absurd hu List.not_mem_nil
    · next userList huser =>
      rcases List.mem_cons.mp hu with rfl | hu
      · exact registered_userListOf hemail hname havatar huser
      · exact ih (fun uid hmem => h uid (List.mem_cons_of_mem _ hmem)) u hu

/-! ## What the page holds -/

/-- All users of the page are registered. -/
structure AllRegistered (p : ChoicePage) : Prop where
  shown : ∀ u ∈ p.listdata, Registered u
  back : ∀ u ∈ p.listdataback, Registered u

theorem allRegistered_fresh : AllRegistered {} :=
  ⟨fun _ h => absurd h List.not_mem_nil, fun _ h => absurd h List.not_mem_nil⟩

variable {datas : List Profile} {s s' : ChoiceState} {e : ChoiceEvent}

theorem allRegistered_onUsers {p : ChoicePage} (hdatas : ∀ u ∈ usersOf datas, Registered u)
    (h : AllRegistered p) : AllRegistered (p.onUsers datas) := by
  unfold ChoicePage.onUsers
  split
  · obtain ⟨hlist, hback⟩ := addUsers_eq p datas
    constructor
    · rw [hlist]
      exact List.forall_mem_append.mpr ⟨h.shown, hdatas⟩
    · rw [hback]
      exact List.forall_mem_append.mpr ⟨h.back, hdatas⟩
  · exact h

theorem allRegistered_fillout {p : ChoicePage} {query : String} (h : AllRegistered p) :
    AllRegistered (p.fillout query) := by
  rcases eq_or_ne query "" with rfl | hq
  · exact ⟨h.back, h.back⟩
  · rw [SearchLemmas.fillout_found hq
      (SearchLemmas.dummyListData_eq fun u hu => (h.shown u hu).name)]
    exact ⟨fun u hu => h.shown u (List.mem_filter.mp hu).1, h.back⟩

theorem allRegistered_move (hdatas : ∀ u ∈ usersOf datas, Registered u) (h : AllRegistered s.page)
    (hm : ChoiceMove datas s e s') : AllRegistered s'.page := by
  cases hm with
  | users => exact allRegistered_onUsers hdatas h
  | currentUser => exact ⟨h.shown, h.back⟩
  | build => exact ⟨h.shown, h.back⟩
  | search => exact allRegistered_fillout h
  | tile hlt => exact h
  | throws hmem hnone => exact h
  | messages hmem => exact ⟨h.shown, h.back⟩

/-- Every tile has a title and no image. -/
theorem itemBuilder_of_lt {p : ChoicePage} (h : AllRegistered p) {index : Nat}
    (hlt : index < p.listdata.length) : ∃ name, p.itemBuilder index = some ⟨some name, none⟩ := by
  have hu := h.shown _ (List.getElem_mem hlt)
  obtain ⟨name, hname⟩ := Option.ne_none_iff_exists'.mp hu.name
  refine ⟨name, ?_⟩
  unfold ChoicePage.itemBuilder
  rw [List.getElem?_eq_getElem hlt, Option.map_some, hname, hu.avatar]

/-- A preview fails exactly when the signed-in user is null. -/
theorem previewBuilder_eq_none {p : ChoicePage} (h : AllRegistered p) {index : Nat}
    (hlt : index < p.listdata.length) (values : List MessageData) :
    p.previewBuilder index values = none ↔ p.user = none := by
  obtain ⟨email, hemail⟩ := Option.ne_none_iff_exists'.mp (h.shown _ (List.getElem_mem hlt)).email
  unfold ChoicePage.previewBuilder
  cases p.user with
  | none => exact iff_of_true rfl rfl
  | some user =>
    refine iff_of_false ?_ (Option.some_ne_none user)
    rw [List.getElem?_eq_getElem hlt, Option.bind_eq_bind, Option.bind_some, Option.bind_eq_bind,
      Option.bind_some, hemail]
    exact Option.some_ne_none _

/-! ## Runs without tiles -/

theorem tiles_move (hok : noTile s e) (hm : ChoiceMove datas s e s') : s'.tiles = s.tiles := by
  cases hm with
  | tile hlt => exact absurd hok id
  | _ => rfl

/-- Before the first tile, a step uses no null exactly if it builds no tile. -/
theorem nullFree_iff (htiles : s.tiles = []) (h : AllRegistered s.page)
    (hm : ChoiceMove datas s e s') : s.NullFree e ↔ noTile s e := by
  cases hm with
  | users => exact Iff.rfl
  | currentUser => exact Iff.rfl
  | build => exact Iff.rfl
  | search => exact Iff.rfl
  | tile hlt =>
    obtain ⟨name, htile⟩ := itemBuilder_of_lt h hlt
    exact iff_of_false (fun hfree => (hfree _ htile).2 rfl) id
  | throws hmem hnone =>
    -- there is no tile that the snapshot could be for
    rw [htiles] at hmem
    exact absurd hmem List.not_mem_nil
  | messages hmem =>
    rw [htiles] at hmem
    exact absurd hmem List.not_mem_nil

end NullsLemmas

open NullsLemmas

variable {regs : List SignUp} {uids : List String} {s : ChoiceState}

/-- In every state that the page reaches with profiles written by `signUp`: every tile has the
name of its user and no image, and a preview fails exactly as long as the signed-in user is
null. Names and addresses are never missing. -/
theorem tiles_and_previews (huids : ∀ uid ∈ uids, uid ∈ regs.map SignUp.uid)
    (h : Reach (choiceStep (profiles regs uids)) anyStep {} s) {index : Nat}
    (hlt : index < s.page.listdata.length) :
    (∃ name, s.page.itemBuilder index = some ⟨some name, none⟩) ∧
      ∀ values, s.page.previewBuilder index values = none ↔ s.page.user = none := by
  have hall : AllRegistered s.page := by
    refine h.invariant (I := fun s => AllRegistered s.page) allRegistered_fresh ?_
    exact fun _ hi _ hs =>
      allRegistered_move (registered_usersOf huids) hi (choiceMove_of_step hs)
  exact ⟨itemBuilder_of_lt hall hlt, previewBuilder_eq_none hall hlt⟩

/-- For all profiles written by `signUp`, in any order, and every order in which they, the
results of `currentUser`, the snapshots of the messages, the searches and the builds happen:
no step uses a null, if and only if no tile is built. -/
theorem no_null_iff {es : List ChoiceEvent} (huids : ∀ uid ∈ uids, uid ∈ regs.map SignUp.uid)
    (hrun : run (choiceStep (profiles regs uids)) anyStep {} es = some s) :
    (∀ n s' e, run (choiceStep (profiles regs uids)) anyStep {} (es.take n) = some s' →
      es[n]? = some e → s'.NullFree e) ↔
    run (choiceStep (profiles regs uids)) noTile {} es = some s := by
  refine forall_step_iff_run (I := fun s => s.tiles = [] ∧ AllRegistered s.page) ?_ ?_
    ⟨rfl, allRegistered_fresh⟩ hrun
  · intro s e s' hI hok hs
    have hm := choiceMove_of_step hs
    exact ⟨(tiles_move hok hm).trans hI.1, allRegistered_move (registered_usersOf huids) hI.2 hm⟩
  · intro s e s' hI hs
    exact nullFree_iff hI.1 hI.2 (choiceMove_of_step hs)

/-- One registered user. -/
def oneUser : List Profile := profiles [⟨"u", "a@x.com", "secret", "田中"⟩] ["u"]

theorem no_null_beforeTiles :
    ∃ s, run (choiceStep oneUser) anyStep {} [.build, .currentUser (some ⟨some "a@x.com"⟩), .users] =
        some s ∧ s.page.listdata.length = 1 ∧
      ∀ n s' e, run (choiceStep oneUser) anyStep {}
          ([.build, .currentUser (some ⟨some "a@x.com"⟩), .users].take n) = some s' →
        [ChoiceEvent.build, .currentUser (some ⟨some "a@x.com"⟩), .users][n]? = some e →
        s'.NullFree e := by
  have huids : ∀ uid ∈ ["u"],
      uid ∈ [(⟨"u", "a@x.com", "secret", "田中"⟩ : SignUp)].map SignUp.uid := by decide
  obtain ⟨s, hs, hlen, hok⟩ := exists_run (choiceStep oneUser) anyStep {}
    [.build, .currentUser (some ⟨some "a@x.com"⟩), .users]
    (p := fun s => s.page.listdata.length = 1 ∧ run (choiceStep oneUser) noTile {}
      [.build, .currentUser (some ⟨some "a@x.com"⟩), .users] = some s) (by decide)
  exact ⟨s, hs, hlen, (no_null_iff huids hs).mpr hok⟩

/-- The profiles arrive and the page is built again. The tile passes a null image on, and when
the messages arrive before `currentUser`, the preview uses a null user. -/
theorem tile_without_avatar :
    ∃ s, run (choiceStep oneUser) anyStep {} [.build, .users, .build, .tile 0] = some s ∧
      s.page.itemBuilder 0 = some ⟨some "田中", none⟩ ∧ ¬ s.NullFree (.tile 0) ∧
      choiceStep oneUser s (.messages 0 []) ≠ none ∧ ¬ s.NullFree (.messages 0 []) := by
  obtain ⟨s, hs, htile, henabled, hpreview⟩ := exists_run (choiceStep oneUser) anyStep {}
    [.build, .users, .build, .tile 0]
    (p := fun s => s.page.itemBuilder 0 = some ⟨some "田中", none⟩ ∧
      choiceStep oneUser s (.messages 0 []) ≠ none ∧ s.page.previewBuilder 0 [] = none) (by decide)
  exact ⟨s, hs, htile, fun hfree => (hfree _ htile).2 rfl, henabled, fun hfree => hfree hpreview⟩

end ShainManager
