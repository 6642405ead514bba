import ShainManager.Dart
import ShainManager.Users

/-!
# The chat-selection page

`lib/ui/choicechat.dart`. The page downloads the profiles once, lists the users that the
search text selects, and shows below each user the last message of their conversation. Three
asynchronous sources feed it: the profiles, the results of `currentUser`, and the snapshots
of the messages.

What Dart may have as null is an `Option`. A function that throws gives `none`.
-/

namespace ShainManager

/-! ## The users -/

structure UserList where
  username : Option String := none
  useremail : Option String := none
  useravatar : Option String := none
deriving DecidableEq, Repr

structure FirebaseUser where
  email : Option String
deriving DecidableEq, Repr

/-- The fields of `_choicechatState`. `awaiting` counts the calls of `fetchnewmess` whose
`currentUser` has not answered. -/
structure ChoicePage where
  listdataback : List UserList := []
  listdata : List UserList := []
  newmess : Option String := none
  user : Option FirebaseUser := none
  awaiting : Nat := 0
deriving DecidableEq, Repr

/-- What is read of a profile, by the name of the entry. -/
abbrev Profile := String → Option Value

/-- The profile `users/<uid>`. -/
def profileOf (db : RealtimeDb) (uid : String) : Profile := fun entry => db (userPath uid ++ [entry])

/-- The assignment of an entry to a variable of type `String`. -/
def asString : Option Value → Option (Option String)
  | none => some none
  | some (.str s) => some (some s)
  | some (.int _) => none
  | some (.bool _) => none

/-- The `userList` that `initState` fills from a profile. -/
def userListOf (data : Profile) : Option UserList := do
  let useremail ← asString (data "email")
  let useravatar ← asString (data "avatar")
  let username ← asString (data "name")
  return { username, useremail, useravatar }

/-- `fetchnewmess` up to its await. -/
def ChoicePage.fetchnewmess (p : ChoicePage) : ChoicePage := { p with awaiting := p.awaiting + 1 }

/-- The loop over the profiles. It ends where one cannot be read. -/
def ChoicePage.addUsers (p : ChoicePage) : List Profile → ChoicePage
  | [] => p
  | data :: rest =>
    match userListOf data with
    | none => p
    | some userList =>
      let p := { p with
        listdata := p.listdata ++ [userList], listdataback := p.listdataback ++ [userList] }
      p.fetchnewmess.addUsers rest

/-- The callback of `child('users').once()`. Without profiles `datas` is null, and the loop
throws at once. -/
def ChoicePage.onUsers (p : ChoicePage) (datas : List Profile) : ChoicePage :=
  if p.listdata.length = 0 then p.addUsers datas else p

/-- The users that the loop adds. -/
def usersOf : List Profile → List UserList
  | [] => []
  | data :: rest =>
    match userListOf data with
    | none => []
    | some userList => userList :: usersOf rest

/-! ## The search -/

/-- The loop of `fillout`. `item.username.contains` throws when the name is null. -/
def dummyListData (query : String) (dummySearchList : List UserList) : Option (List UserList) :=
  dummySearchList.foldlM (fun acc item => do
    let username ← item.username
    return if Contains username query then acc ++ [item] else acc) []

/-- `fillout`. Where the loop throws, `setState` is not reached. -/
def ChoicePage.fillout (p : ChoicePage) (query : String) : ChoicePage :=
  if query ≠ "" then
    match dummyListData query p.listdata with
    | none => p
    | some found => { p with listdata := found }
  else { p with listdata := p.listdataback }

/-! ## The messages -/

/-- A document of `messages`. -/
structure MessageData where
  text : Option String
  from_ : Option String
  to_ : Option String
deriving DecidableEq, Repr

/-- One turn of the loop over the documents, on `newmess` and `userList.usermess`. -/
def previewStep (userto touser : String) (state : Option String × Option String)
    (item : MessageData) : Option String × Option String :=
  if item.to_ = some userto then (item.text, item.text)
  else if item.to_ = some touser then (item.text, item.text)
  else (some "", state.2)

/-- The text below a user. -/
def previewText (usermess : Option String) : String :=
  match usermess with
  | some mess => "メッセージ：" ++ mess
  | none => ""

/-- The builder of the `StreamBuilder` of the tile `index`, with the documents of a snapshot.
It throws when the signed-in user or the address of the tile's user is null. -/
def ChoicePage.previewBuilder (p : ChoicePage) (index : Nat) (values : List MessageData) :
    Option (String × ChoicePage) := do
  let user ← p.user
  let item ← p.listdata[index]?
  let useremail ← item.useremail
  let userto := interpolated user.email ++ useremail
  let touser := useremail ++ interpolated user.email
  let (newmess, usermess) := values.foldl (previewStep userto touser) (p.newmess, none)
  return (previewText usermess, { p with newmess })

/-! ## The tiles -/

/-- What a tile passes to `Text` and to `NetworkImage`. -/
structure UserTile where
  title : Option String
  backgroundImage : Option String
deriving DecidableEq, Repr

/-- The `itemBuilder` of the list. -/
def ChoicePage.itemBuilder (p : ChoicePage) (index : Nat) : Option UserTile :=
  (p.listdata[index]?).map fun item => ⟨item.username, item.useravatar⟩

/-! ## After the download -/

theorem addUsers_eq (p : ChoicePage) (datas : List Profile) :
    (p.addUsers datas).listdata = p.listdata ++ usersOf datas ∧
      (p.addUsers datas).listdataback = p.listdataback ++ usersOf datas := by
  induction datas generalizing p with
  | nil => simp [ChoicePage.addUsers, usersOf]
  | cons data rest ih =>
    rw [ChoicePage.addUsers, usersOf]
    cases userListOf data with
    | none => simp
    | some userList =>
      obtain ⟨hlist, hback⟩ := ih (ChoicePage.fetchnewmess { p with
        listdata := p.listdata ++ [userList], listdataback := p.listdataback ++ [userList] })
      dsimp only
      rw [hlist, hback]
      simp [ChoicePage.fetchnewmess]

end ShainManager
