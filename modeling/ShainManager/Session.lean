import ShainManager.Dialogs
import ShainManager.HomePage

/-!
# Sessions

The login page stays below all other pages. A sign-in or a sign-up (`lib/ui/login_page.dart`) is
awaited while the page can be used; Firebase changes the signed-in user before the page goes on.
The pages above do not keep the user: each action awaits `currentUser()` when it needs the user
(`lib/ui/homepage.dart`, `lib/ui/listtaikin.dart`, `lib/ui/receiptphoto.dart`,
`lib/ui/choicechat.dart`), and only the chat page has a user of its own, the one of the moment when
it was opened. Its close button signs out and goes back to the login page.

The owner of a page is the user whose sign-in or sign-up opened the pages below it.

* `session_serves_its_user`: when the buttons of the login page are pressed with no other sign-in or
  sign-up on its way, and each user is answered while the pages of the owner are open, every page
  belongs to the signed-in user and all that is done is done for the owner of the page.
* `sessions_apart`: then what is stored for a user comes from the sessions of that user.
* `signUp_takes_over`: otherwise the month of one user can be stored for another.
-/

namespace ShainManager

open Machine PathTree

/-! ## Pages and actions -/

/-- A sign-in, or a sign-up with the texts of its fields. -/
inductive AuthKind
  | signIn
  | signUp (email password nickname : String)
deriving DecidableEq, Repr

/-- A call of `Auth`, with the user once Firebase has signed the user in. -/
structure AuthCall where
  kind : AuthKind
  uid : Option String := none
deriving DecidableEq, Repr

/-- A route above the login page: a page of the owner, the dialog after a sign-up, or a chat with
the user that was passed to it. -/
inductive SessionRoute
  | page (name : PageName) (owner : String)
  | verifyEmailSent (owner : String)
  | chat (owner : String) (user : Option String)
deriving DecidableEq, Repr

def SessionRoute.owner : SessionRoute → String
  | .page _ owner => owner
  | .verifyEmailSent owner => owner
  | .chat owner _ => owner

/-- What is done for a user: `fetchnickname`, `sendEmailVerification`, the `set` of `signUp`,
`sendtimeworkDatabase`, `sendimageDatabase`, `choiceperson`, and `callback` of the chat. -/
inductive Action
  | fetchnickname
  | sendEmailVerification
  | register (email password nickname : String)
  | sendtimework (data : FetchDatafromSQLite) (flag : String)
  | sendimage (url : String)
  | choiceperson
  | callback
deriving DecidableEq, Repr

/-- An action that was begun on a page of `owner` and done for `user`. -/
structure Served where
  owner : String
  user : String
  action : Action
deriving DecidableEq, Repr

/-- What it writes to the database. -/
def Served.op (x : Served) : Option UserOp :=
  match x.action with
  | .register email password nickname => some (.signUp x.user email password nickname)
  | .sendtimework data flag => some (.timework x.user data flag)
  | .sendimage url => some (.photo x.user url)
  | _ => none

/-! ## The app -/

/-- `FirebaseAuth.instance`, the routes above the login page from the top, the calls of `Auth` and
the actions that await the user, and the actions done. -/
structure Session where
  current : Option String := none
  stack : List SessionRoute := []
  auths : List AuthCall := []
  requests : List (String × Action) := []
  served : List Served := []
deriving DecidableEq, Repr

/-- * `press kind`: a button of the login page;
* `authenticate k uid`: Firebase signs in the user of the call `k`;
* `reject k`: the call throws;
* `resume k`: the login page goes on after the call;
* `navigate name`: a page is opened from the topmost one;
* `ask action`: an action is begun on the topmost page;
* `answer k`: `currentUser()` of the action `k` is answered;
* `send`: `callback` of the chat;
* `back`: the topmost route is removed, by the user or by a timer;
* `close`: the close button of the chat. -/
inductive SessionEvent
  | press (kind : AuthKind)
  | authenticate (k : Nat) (uid : String)
  | reject (k : Nat)
  | resume (k : Nat)
  | navigate (name : PageName)
  | ask (action : Action)
  | answer (k : Nat)
  | send
  | back
  | close
deriving DecidableEq, Repr

/-- The pages that a page opens. -/
def PageName.opens : PageName → PageName → Bool
  | .HomePage, .HomePage | .HomePage, .manageEmp | .HomePage, .choicechat
  | .HomePage, .receiptphoto => true
  | .manageEmp, .listtaikin => true
  | _, _ => false

/-- The actions that a page begins. -/
def PageName.begins : PageName → Action → Bool
  | .listtaikin, .sendtimework _ _ => true
  | .receiptphoto, .sendimage _ => true
  | .choicechat, .choiceperson => true
  | _, _ => false

/-- A new page of the owner. `fetchnickname` is called by `initState`. -/
def Session.push (s : Session) (name : PageName) (owner : String) : Session :=
  { s with
    stack := .page name owner :: s.stack
    requests := if name = .HomePage then s.requests ++ [(owner, .fetchnickname)] else s.requests }

/-- The rest of `_signinButtonconfirm` and of `_signupButtonconfirm`. -/
def Session.confirm (s : Session) (uid : String) : AuthKind → Session
  | .signIn => if uid ≠ "" then s.push .HomePage uid else s
  | .signUp email password nickname =>
    { s with
      served := s.served ++ [⟨uid, uid, .register email password nickname⟩]
      stack := .verifyEmailSent uid :: s.stack
      requests := s.requests ++ [(uid, .sendEmailVerification)] }

/-- The rest of an action, with the answer. Without a user it throws, except for `choiceperson`,
which opens the chat as long as its own page is there. -/
def Session.serve (s : Session) (owner : String) : Action → Session
  | .choiceperson =>
    if .page .choicechat owner ∈ s.stack then { s with stack := .chat owner s.current :: s.stack }
    else s
  | action =>
    match s.current with
    | some user => { s with served := s.served ++ [⟨owner, user, action⟩] }
    | none => s

def sessionStep (s : Session) : SessionEvent → Option Session
  | .press kind => if s.stack = [] then some { s with auths := s.auths ++ [⟨kind, none⟩] } else none
  | .authenticate k uid =>
    match s.auths[k]? with
    | some ⟨kind, none⟩ => some { s with current := some uid, auths := s.auths.set k ⟨kind, uid⟩ }
    | _ => none
  | .reject k =>
    match s.auths[k]? with
    | some ⟨_, none⟩ => some { s with auths := s.auths.eraseIdx k }
    | _ => none
  | .resume k =>
    match s.auths[k]? with
    | some ⟨kind, some uid⟩ =>
      some (Session.confirm { s with auths := s.auths.eraseIdx k } uid kind)
    | _ => none
  | .navigate name =>
    match s.stack with
    | .page top owner :: _ => if top.opens name then some (s.push name owner) else none
    | _ => none
  | .ask action =>
    match s.stack with
    | .page top owner :: _ =>
      if top.begins action then some { s with requests := s.requests ++ [(owner, action)] }
      else none
    | _ => none
  | .answer k =>
    match s.requests[k]? with
    | some (owner, action) =>
      some (Session.serve { s with requests := s.requests.eraseIdx k } owner action)
    | none => none
  | .send =>
    match s.stack with
    | .chat owner (some user) :: _ =>
      some { s with served := s.served ++ [⟨owner, user, .callback⟩] }
    | _ => none
  | .back =>
    match s.stack with
    | _ :: rest => some { s with stack := rest }
    | [] => none
  | .close =>
    match s.stack with
    | .chat _ _ :: _ => some { s with current := none, stack := [] }
    | _ => none

/-- The owner of the topmost page. -/
def Session.owner (s : Session) : Option String := s.stack.head?.map SessionRoute.owner

/-- A button of the login page is pressed with nothing on its way, and the user of an action is
answered while a page of its owner is open. -/
def Attended (s : Session) : SessionEvent → Prop
  | .press _ => s.auths = []
  | .answer k => ∀ x ∈ s.requests[k]?, s.owner = some x.1
  | _ => True

instance (s : Session) : ∀ e, Decidable (Attended s e)
  | .press _ => inferInstanceAs (Decidable (_ = _))
  | .answer k => inferInstanceAs (Decidable (∀ x ∈ s.requests[k]?, _))
  | .authenticate _ _ | .reject _ | .resume _ | .navigate _ | .ask _ | .send | .back | .close =>
    .isTrue trivial

/-! ## What a run keeps -/

/-- At most one call of `Auth` is on its way, and only while the login page is on top. Every page
belongs to the signed-in user, and every chat has its owner as its user. -/
structure SessionInv (s : Session) : Prop where
  single : s.auths.length ≤ 1
  signed : ∀ a ∈ s.auths, ∀ uid, a.uid = some uid → s.current = some uid
  opened : ∀ r ∈ s.stack, s.current = some r.owner ∧ s.auths = []
  chats : ∀ owner user, .chat owner user ∈ s.stack → user = some owner
  served : ∀ x ∈ s.served, x.user = x.owner

namespace SessionLemmas

variable {s s' : Session}

/-- A call that is on its way is the only one, and no page is open. -/
theorem auth_only (h : SessionInv s) {k : Nat} {a : AuthCall} (hk : s.auths[k]? = some a) :
    s.auths = [a] ∧ k = 0 ∧ s.stack = [] := by
  have hone := h.single
  have hstack : s.stack = [] := by
    refine List.eq_nil_iff_forall_not_mem.mpr fun r hr => ?_
    rw [(h.opened r hr).2] at hk
    cases hk
  cases hauths : s.auths with
  | nil =>
    rw [hauths] at hk
    cases hk
  | cons b rest =>
    rw [hauths, List.length_cons] at hone
    obtain rfl : rest = [] := List.eq_nil_of_length_eq_zero (by omega)
    rw [hauths] at hk
    cases k with
    | zero =>
      cases hk
      exact ⟨rfl, rfl, hstack⟩
    | succ k => cases hk

/-- Only the login page is there. -/
theorem sessionInv_login (hstack : s.stack = []) (hone : s.auths.length ≤ 1)
    (hsigned : ∀ a ∈ s.auths, ∀ uid, a.uid = some uid → s.current = some uid)
    (hserved : ∀ x ∈ s.served, x.user = x.owner) : SessionInv s := by
  refine ⟨hone, hsigned, ?_, ?_, hserved⟩ <;> simp [hstack]

theorem sessionInv_idle (hauths : s.auths = []) (hstack : s.stack = [])
    (hserved : ∀ x ∈ s.served, x.user = x.owner) : SessionInv s :=
  sessionInv_login hstack (by simp [hauths]) (by simp [hauths]) hserved

/-- One more page of the signed-in user. -/
theorem sessionInv_cons (h : SessionInv s) {r : SessionRoute} (hr : s.current = some r.owner)
    (hauths : s.auths = []) (hchat : ∀ owner user, r = .chat owner user → user = some owner)
    {requests : List (String × Action)} :
    SessionInv { s with stack := r :: s.stack, requests } := by
  refine ⟨h.single, h.signed, List.forall_mem_cons.mpr ⟨⟨hr, hauths⟩, h.opened⟩, ?_, h.served⟩
  intro owner user hmem
  obtain he | hmem := List.mem_cons.mp hmem
  · exact hchat owner user he.symm
  · exact h.chats owner user hmem

/-- One more action. -/
theorem sessionInv_served (h : SessionInv s) {x : Served} (hx : x.user = x.owner) :
    SessionInv { s with served := s.served ++ [x] } :=
  ⟨h.single, h.signed, h.opened, h.chats,
    List.forall_mem_append.mpr ⟨h.served, List.forall_mem_singleton.mpr hx⟩⟩

theorem sessionInv_requests (h : SessionInv s) (requests : List (String × Action)) :
    SessionInv { s with requests } :=
  ⟨h.single, h.signed, h.opened, h.chats, h.served⟩

theorem push_inv (h : SessionInv s) {owner : String} (hcur : s.current = some owner)
    (hauths : s.auths = []) (name : PageName) : SessionInv (s.push name owner) :=
  sessionInv_cons h (r := .page name owner) hcur hauths fun _ _ he => nomatch he

theorem confirm_inv (h : SessionInv s) {uid : String} (hcur : s.current = some uid)
    (hauths : s.auths = []) (kind : AuthKind) : SessionInv (s.confirm uid kind) := by
  cases kind with
  | signIn =>
    unfold Session.confirm
    dsimp only
    split
    · exact push_inv h hcur hauths _
    · exact h
  | signUp email password nickname =>
    have hserved := sessionInv_served h (x := ⟨uid, uid, .register email password nickname⟩) rfl
    exact sessionInv_cons hserved (r := .verifyEmailSent uid) hcur hauths fun _ _ he => nomatch he

theorem serve_inv (h : SessionInv s) {owner : String} (hcur : s.current = some owner)
    (hauths : s.auths = []) (action : Action) : SessionInv (s.serve owner action) := by
  unfold Session.serve
  split
  · split
    · refine sessionInv_cons h (r := .chat owner s.current) hcur hauths fun owner' user he => ?_
      cases he
      exact hcur
    · exact h
  · split
    · next user huser => exact sessionInv_served h (Option.some.inj (huser.symm.trans hcur))
    · exact h

theorem session_press (h : SessionInv s) {kind : AuthKind} (hok : Attended s (.press kind))
    (hs : sessionStep s (.press kind) = some s') : SessionInv s' := by
  simp only [sessionStep] at hs
  split at hs
  · next hstack =>
    cases hs
    have hauths : s.auths = [] := hok
    exact sessionInv_login hstack (by simp [hauths]) (by simp [hauths]) h.served
  · cases hs

theorem session_authenticate (h : SessionInv s) {k : Nat} {uid : String}
    (hs : sessionStep s (.authenticate k uid) = some s') : SessionInv s' := by
  simp only [sessionStep] at hs
  split at hs
  · next kind hk =>
    cases hs
    obtain ⟨hauths, rfl, hstack⟩ := auth_only h hk
    exact sessionInv_login hstack (by simp [hauths]) (by simp [hauths]) h.served
  · cases hs

theorem session_reject (h : SessionInv s) {k : Nat} (hs : sessionStep s (.reject k) = some s') :
    SessionInv s' := by
  simp only [sessionStep] at hs
  split at hs
  · next kind hk =>
    cases hs
    obtain ⟨hauths, rfl, hstack⟩ := auth_only h hk
    exact sessionInv_idle (by simp [hauths]) hstack h.served
  · cases hs

theorem session_resume (h : SessionInv s) {k : Nat} (hs : sessionStep s (.resume k) = some s') :
    SessionInv s' := by
  simp only [sessionStep] at hs
  split at hs
  · next kind uid hk =>
    cases hs
    have hcur := h.signed _ (List.mem_of_getElem? hk) uid rfl
    obtain ⟨hauths, rfl, hstack⟩ := auth_only h hk
    have hidle : s.auths.eraseIdx 0 = [] := by simp [hauths]
    have hinv : SessionInv { s with auths := s.auths.eraseIdx 0 } :=
      sessionInv_idle hidle hstack h.served
    exact confirm_inv hinv hcur hidle kind
  · cases hs

theorem session_navigate (h : SessionInv s) {name : PageName}
    (hs : sessionStep s (.navigate name) = some s') : SessionInv s' := by
  simp only [sessionStep] at hs
  split at hs
  · next top owner rest hstack =>
    split at hs
    · cases hs
      obtain ⟨hcur, hauths⟩ := h.opened (.page top owner) (by simp [hstack])
      exact push_inv h hcur hauths name
    · cases hs
  · cases hs

theorem session_ask (h : SessionInv s) {action : Action}
    (hs : sessionStep s (.ask action) = some s') : SessionInv s' := by
  simp only [sessionStep] at hs
  split at hs
  · split at hs
    · cases hs
      exact sessionInv_requests h _
    · cases hs
  · cases hs

theorem session_answer (h : SessionInv s) {k : Nat} (hok : Attended s (.answer k))
    (hs : sessionStep s (.answer k) = some s') : SessionInv s' := by
  simp only [sessionStep] at hs
  split at hs
  · next owner action hk =>
    cases hs
    obtain ⟨r, hr, howner⟩ := Option.map_eq_some_iff.mp (hok _ hk)
    obtain ⟨hcur, hauths⟩ := h.opened r (List.mem_of_mem_head? hr)
    rw [howner] at hcur
    exact serve_inv (sessionInv_requests h (s.requests.eraseIdx k)) hcur hauths action
  · cases hs

theorem session_send (h : SessionInv s) (hs : sessionStep s .send = some s') : SessionInv s' := by
  simp only [sessionStep] at hs
  split at hs
  · next owner user rest hstack =>
    cases hs
    have huser := h.chats owner (some user) (by simp [hstack])
    exact sessionInv_served h (Option.some.inj huser)
  · cases hs

theorem session_back (h : SessionInv s) (hs : sessionStep s .back = some s') : SessionInv s' := by
  simp only [sessionStep] at hs
  split at hs
  · next r rest hstack =>
    cases hs
    have hsub : rest ⊆ s.stack := by simp [hstack]
    exact ⟨h.single, h.signed, fun r hr => h.opened r (hsub hr),
      fun owner user hr => h.chats owner user (hsub hr), h.served⟩
  · cases hs

theorem session_close (h : SessionInv s) (hs : sessionStep s .close = some s') :
    SessionInv s' := by
  simp only [sessionStep] at hs
  split at hs
  · next owner user rest hstack =>
    cases hs
    have hauths := (h.opened (.chat owner user) (by simp [hstack])).2
    exact sessionInv_idle hauths rfl h.served
  · cases hs

theorem sessionInv_reachable {c : Option String}
    (h : Reach sessionStep Attended { current := c } s) : SessionInv s := by
  refine h.invariant (sessionInv_idle rfl rfl fun x hx => absurd hx List.not_mem_nil) ?_
  intro s e s' _ hinv hok hs
  cases e with
  | press kind => exact session_press hinv hok hs
  | authenticate k uid => exact session_authenticate hinv hs
  | reject k => exact session_reject hinv hs
  | resume k => exact session_resume hinv hs
  | navigate name => exact session_navigate hinv hs
  | ask action => exact session_ask hinv hs
  | answer k => exact session_answer hinv hok hs
  | send => exact session_send hinv hs
  | back => exact session_back hinv hs
  | close => exact session_close hinv hs

end SessionLemmas

open SessionLemmas HomePageLemmas

variable {s : Session} {c : Option String}

/-- Whoever was signed in at the start, in every state of a run whose steps are attended: every
page above the login page belongs to the signed-in user, and everything that is done for a user
was begun on a page of that user. -/
theorem session_serves_its_user (h : Reach sessionStep Attended { current := c } s) :
    (∀ r ∈ s.stack, s.current = some r.owner) ∧ ∀ x ∈ s.served, x.user = x.owner := by
  have hinv := sessionInv_reachable h
  exact ⟨fun r hr => (hinv.opened r hr).1, hinv.served⟩

/-- A day of the month list. -/
def someDay : FetchDatafromSQLite :=
  { id := some 1, ymdWork := "20200106", enterbutton := true, outbutton := true
    imgdirenter := "", imgdirout := "", nowWorkenter := "09:00", nowWorkout := "18:00" }

/-- One user submits a day, opens a chat, writes and signs out; another signs up, signs in and
submits a receipt. -/
def twoSessions : List SessionEvent :=
  [.press .signIn, .authenticate 0 "u", .resume 0, .answer 0,
   .navigate .manageEmp, .navigate .listtaikin, .ask (.sendtimework someDay "202001"), .answer 0,
   .back, .back, .navigate .choicechat, .ask .choiceperson, .answer 0, .send, .close,
   .press (.signUp "v@a.com" "secret" "田中"), .authenticate 0 "v", .resume 0, .answer 0, .back,
   .press .signIn, .authenticate 0 "v", .resume 0, .navigate .receiptphoto,
   .ask (.sendimage "url"), .answer 1]

theorem session_serves_its_user_twoSessions :
    ∃ s, Reach sessionStep Attended { current := some "w" } s ∧
      s.stack = [.page .receiptphoto "v", .page .HomePage "v"] ∧ s.served.length = 6 ∧
      (∀ r ∈ s.stack, s.current = some r.owner) ∧ ∀ x ∈ s.served, x.user = x.owner := by
  obtain ⟨s, hs, hstack, hlen⟩ := exists_reach_of_run sessionStep Attended { current := some "w" }
    twoSessions (p := fun s => s.stack = [.page .receiptphoto "v", .page .HomePage "v"] ∧
      s.served.length = 6) (by decide)
  exact ⟨s, hs, hstack, hlen, session_serves_its_user hs⟩

/-- A sign-up is on its way when the user signs in: it changes the signed-in user below the pages
of the sign-in, and the day that is submitted there is stored for the new account. -/
theorem signUp_takes_over :
    (run sessionStep anyStep {} [.press (.signUp "v@a.com" "secret" "田中"), .press .signIn,
      .authenticate 1 "u", .resume 1, .navigate .manageEmp, .navigate .listtaikin,
      .ask (.sendtimework someDay "202001"), .authenticate 0 "v", .answer 1]).map (·.served) =
      some [⟨"u", "v", .sendtimework someDay "202001"⟩] := by decide

/-! ## What is stored -/

theorem uid_of_op {x : Served} {op : UserOp} (h : x.op = some op) : op.uid = x.user := by
  obtain ⟨owner, user, action⟩ := x
  cases action <;> cases h <;> rfl

/-- The writes for a user are those of the user's own sessions. -/
theorem ops_filter {served : List Served} (h : ∀ x ∈ served, x.user = x.owner) (u : String) :
    (served.filterMap Served.op).filter (fun op => decide (op.uid = u)) =
      (served.filter fun x => decide (x.owner = u)).filterMap Served.op := by
  rw [List.filter_filterMap, List.filterMap_filter]
  refine List.filterMap_congr fun x hx => ?_
  cases hop : x.op with
  | none => simp [Option.filter]
  | some op =>
    have huid : op.uid = x.owner := (uid_of_op hop).trans (h x hx)
    simp [Option.filter, huid]

/-- In every attended run, what is stored for a user is what the sessions of that user alone leave,
whatever is done in the sessions of the others. -/
theorem sessions_apart (h : Reach sessionStep Attended { current := c } s) (db : RealtimeDb)
    (u : String) :
    sub (userPath u) (applyAll db (s.served.filterMap Served.op)) =
      sub (userPath u)
        (applyAll db ((s.served.filter fun x => decide (x.owner = u)).filterMap Served.op)) := by
  rw [← ops_filter (sessionInv_reachable h).served u]
  exact sub_applyAll_filter _ rfl

theorem sessions_apart_twoSessions :
    ∃ s, Reach sessionStep Attended { current := some "w" } s ∧
      (s.served.filter fun x => decide (x.owner = "v")).filterMap Served.op =
        [.signUp "v" "v@a.com" "secret" "田中", .photo "v" "url"] ∧
      sub (userPath "v") (applyAll (fun _ => none) (s.served.filterMap Served.op)) =
        sub (userPath "v") (applyAll (fun _ => none)
          [.signUp "v" "v@a.com" "secret" "田中", .photo "v" "url"]) := by
  obtain ⟨s, hs, hops⟩ := exists_reach_of_run sessionStep Attended { current := some "w" }
    twoSessions (p := fun s => (s.served.filter fun x => decide (x.owner = "v")).filterMap Served.op =
      [.signUp "v" "v@a.com" "secret" "田中", .photo "v" "url"]) (by decide)
  have hsame := congrArg (fun ops => sub (userPath "v") (applyAll (fun _ => none) ops)) hops
  exact ⟨s, hs, hops, (sessions_apart hs _ "v").trans hsame⟩

end ShainManager
