import ShainManager.Lib.Counting
import ShainManager.Lib.Run
import ShainManager.Users

/-!
# Accounts and profiles

`signUp` and `signIn` (`lib/services/authentication.dart`) with their callers on the login
page (`lib/ui/login_page.dart`). `signUp` awaits the current user and the creation of the
account, starts the `set` of the profile without awaiting it and returns; its caller then
shows the dialog. Nothing is undone when one of the remote operations fails.

A call is at the operation that it waits for. The account exists from the moment that the
server creates it; its response comes later or is lost. Of the sign-in of Firebase Auth only
`FirebaseAuth` is used.

* `in_step_iff`: the runs in which accounts and profiles are in step all the time, and those
  after which they are.
* `account_without_profile`: a run after which they are not.
-/

namespace ShainManager

open Machine

/-- An account, with the name given at its registration. -/
structure Account where
  uid : String
  email : String
  password : String
  nickname : String
deriving DecidableEq, Repr

/-- The operation that a call of `signUp` waits for. After `created` the account exists;
at `setting` the call has returned and only its `set` is left. -/
inductive SignUpStage
  | currentUser
  | creating
  | created (uid : String)
  | setting (uid : String)
deriving DecidableEq, Repr

structure SignUpCall where
  email : String
  password : String
  nickname : String
  stage : SignUpStage
deriving DecidableEq, Repr

/-- `calls` are the calls of `signUp` in the order of their start, `none` once they are over.
`dialogs` are the users whose registration was reported, `signedIn` those who have signed in. -/
structure AuthState where
  accounts : List Account := []
  db : RealtimeDb := fun _ => none
  calls : List (Option SignUpCall) := []
  dialogs : List String := []
  signedIn : List String := []

/-- The sign-in of Firebase Auth with an address and a password. A success gives the uid of an
account, and an account whose address no other has is reached with its own password. -/
structure FirebaseAuth where
  signInWithEmailAndPassword : List Account → String → String → Option String
  known : ∀ {accounts : List Account} {email password uid : String},
    signInWithEmailAndPassword accounts email password = some uid → ∃ a ∈ accounts, a.uid = uid
  own : ∀ {accounts : List Account} {a : Account}, a ∈ accounts →
    (∀ b ∈ accounts, b.email = a.email → b = a) →
    signInWithEmailAndPassword accounts a.email a.password = some a.uid

/-- `fail` is a failure before the account exists, `lose` one of the response after it
does. -/
inductive AuthEvent
  | signUp (email password nickname : String)
  | currentUser (k : Nat)
  | create (k : Nat) (uid : String)
  | respond (k : Nat)
  | setStored (k : Nat)
  | setFailed (k : Nat)
  | fail (k : Nat)
  | lose (k : Nat)
  | signIn (email password : String)
deriving DecidableEq, Repr

/-- The call `k`, unless it is over. -/
def callAt (calls : List (Option SignUpCall)) (k : Nat) : Option SignUpCall := (calls[k]?).join

def authStep (auth : FirebaseAuth) (s : AuthState) : AuthEvent → Option AuthState
  | .signUp email password nickname =>
    some { s with calls := s.calls ++ [some { email, password, nickname, stage := .currentUser }] }
  | .currentUser k =>
    match callAt s.calls k with
    | some ⟨email, password, nickname, .currentUser⟩ =>
      some { s with calls := s.calls.set k (some ⟨email, password, nickname, .creating⟩) }
    | _ => none
  | .create k uid =>
    match callAt s.calls k with
    | some ⟨email, password, nickname, .creating⟩ =>
      -- an address in use is refused, and the new uid is one of its own
      if ∀ a ∈ s.accounts, a.email ≠ email ∧ a.uid ≠ uid then
        some { s with
          accounts := s.accounts ++ [⟨uid, email, password, nickname⟩]
          calls := s.calls.set k (some ⟨email, password, nickname, .created uid⟩) }
      else none
    | _ => none
  | .respond k =>
    match callAt s.calls k with
    | some ⟨email, password, nickname, .created uid⟩ =>
      some { s with
        calls := s.calls.set k (some ⟨email, password, nickname, .setting uid⟩)
        dialogs := s.dialogs ++ [uid] }
    | _ => none
  | .setStored k =>
    match callAt s.calls k with
    | some ⟨email, password, nickname, .setting uid⟩ =>
      some { s with
        calls := s.calls.set k none
        db := signUpSet s.db uid email password nickname }
    | _ => none
  | .setFailed k =>
    match callAt s.calls k with
    | some ⟨_, _, _, .setting _⟩ => some { s with calls := s.calls.set k none }
    | _ => none
  | .fail k =>
    match callAt s.calls k with
    | some ⟨_, _, _, .currentUser⟩ => some { s with calls := s.calls.set k none }
    | some ⟨_, _, _, .creating⟩ => some { s with calls := s.calls.set k none }
    | _ => none
  | .lose k =>
    match callAt s.calls k with
    | some ⟨_, _, _, .created _⟩ => some { s with calls := s.calls.set k none }
    | _ => none
  | .signIn email password =>
    some { s with
      signedIn := s.signedIn ++ (auth.signInWithEmailAndPassword s.accounts email password).toList }

/-! ## In step -/

/-- The entry `f` of `users/<uid>`. -/
def entryOf (db : RealtimeDb) (uid f : String) : Option Value := db (userPath uid ++ [f])

/-- `users/<uid>` has the name and the address given at registration. -/
def HasProfile (db : RealtimeDb) (a : Account) : Prop :=
  entryOf db a.uid "name" = some (.str a.nickname) ∧ entryOf db a.uid "email" = some (.str a.email)

/-- Who can sign in has a profile, and so has who was told that the registration succeeded. -/
def AuthState.InStep (auth : FirebaseAuth) (s : AuthState) : Prop :=
  (∀ email password uid, auth.signInWithEmailAndPassword s.accounts email password = some uid →
    ∃ a ∈ s.accounts, a.uid = uid ∧ HasProfile s.db a) ∧
  ∀ uid ∈ s.dialogs, ∃ a ∈ s.accounts, a.uid = uid ∧ HasProfile s.db a

/-- No call is going on, and no `set`. -/
def AuthState.AtRest (s : AuthState) : Prop := ∀ c ∈ s.calls, c = none

instance (s : AuthState) : Decidable s.AtRest := inferInstanceAs (Decidable (∀ c ∈ s.calls, _))

/-- A remote operation fails after the account has been created. -/
def AuthEvent.Loses : AuthEvent → Prop
  | .setFailed _ => True
  | .lose _ => True
  | _ => False

/-! ## What a step can do -/

/-- The account that the call has created. -/
def SignUpCall.uid? (c : SignUpCall) : Option String :=
  match c.stage with
  | .currentUser => none
  | .creating => none
  | .created uid => some uid
  | .setting uid => some uid

/-- The call `k` has created the account `uid` and is not over. -/
def Carries (calls : List (Option SignUpCall)) (k : Nat) (c : SignUpCall) (uid : String) : Prop :=
  callAt calls k = some c ∧ c.uid? = some uid

/-- A step creates an account, answers to a call, stores or drops a profile, or does none of
this. -/
inductive AuthMove (s : AuthState) : AuthEvent → AuthState → Prop
  | quiet {e : AuthEvent} {s' : AuthState} (haccounts : s'.accounts = s.accounts)
      (hdb : s'.db = s.db) (hdialogs : s'.dialogs = s.dialogs)
      (hcalls : ∀ k c uid, Carries s'.calls k c uid ↔ Carries s.calls k c uid)
      (hkeeps : ¬ e.Loses) (hcreates : ∀ k uid, e ≠ .create k uid) : AuthMove s e s'
  | create {k : Nat} {uid email password nickname : String}
      (hk : callAt s.calls k = some ⟨email, password, nickname, .creating⟩)
      (hfresh : ∀ a ∈ s.accounts, a.email ≠ email ∧ a.uid ≠ uid) :
      AuthMove s (.create k uid)
        { s with
          accounts := s.accounts ++ [⟨uid, email, password, nickname⟩]
          calls := s.calls.set k (some ⟨email, password, nickname, .created uid⟩) }
  | respond {k : Nat} {uid email password nickname : String}
      (hk : callAt s.calls k = some ⟨email, password, nickname, .created uid⟩) :
      AuthMove s (.respond k)
        { s with
          calls := s.calls.set k (some ⟨email, password, nickname, .setting uid⟩)
          dialogs := s.dialogs ++ [uid] }
  | stored {k : Nat} {uid email password nickname : String}
      (hk : callAt s.calls k = some ⟨email, password, nickname, .setting uid⟩) :
      AuthMove s (.setStored k)
        { s with
          calls := s.calls.set k none
          db := signUpSet s.db uid email password nickname }
  | dropped {e : AuthEvent} {k : Nat} {c : SignUpCall} {uid : String}
      (hk : Carries s.calls k c uid) (hloses : e.Loses) :
      AuthMove s e { s with calls := s.calls.set k none }

namespace RegistrationLemmas

variable {auth : FirebaseAuth} {s s' : AuthState} {calls : List (Option SignUpCall)} {k j : Nat}
  {c : SignUpCall} {uid : String}

theorem callAt_set {c₀ : SignUpCall} (hk : callAt calls k = some c₀) (x : Option SignUpCall)
    (j : Nat) : callAt (calls.set k x) j = if j = k then x else callAt calls j := by
  have hlt : k < calls.length := by
    refine Nat.lt_of_not_le fun hle => ?_
    unfold callAt at hk
    rw [List.getElem?_eq_none hle] at hk
    cases hk
  unfold callAt
  rcases eq_or_ne j k with rfl | hne
  · rw [List.getElem?_set_self hlt, if_pos rfl]
    rfl
  · rw [List.getElem?_set_ne hne.symm, if_neg hne]

/-- What the calls carry after the call `k` has become `x`. -/
theorem carries_set {c₀ : SignUpCall} (hk : callAt calls k = some c₀) {x : Option SignUpCall} :
    Carries (calls.set k x) j c uid ↔
      (j = k ∧ x = some c ∧ c.uid? = some uid) ∨ (j ≠ k ∧ Carries calls j c uid) := by
  unfold Carries
  rw [callAt_set hk]
  rcases eq_or_ne j k with rfl | hne
  · simp
  · simp [hne]

/-- A call that carries nothing becomes another. -/
theorem carries_set_quiet {c₀ : SignUpCall} (hk : callAt calls k = some c₀) (hc₀ : c₀.uid? = none)
    {x : Option SignUpCall} (hx : ∀ c ∈ x, c.uid? = none) :
    Carries (calls.set k x) j c uid ↔ Carries calls j c uid := by
  rw [carries_set hk]
  constructor
  · rintro (⟨-, hxc, hc⟩ | ⟨-, h⟩)
    · rw [hx c hxc] at hc
      cases hc
    · exact h
  · intro h
    refine .inr ⟨?_, h⟩
    rintro rfl
    cases hk.symm.trans h.1
    exact absurd (hc₀.symm.trans h.2) nofun

theorem carries_append (hc : c.uid? = none) {c' : SignUpCall} :
    Carries (calls ++ [some c]) j c' uid ↔ Carries calls j c' uid := by
  unfold Carries callAt
  rcases Nat.lt_trichotomy j calls.length with hlt | rfl | hgt
  · rw [List.getElem?_append_left hlt]
  · rw [List.getElem?_concat_length, List.getElem?_eq_none (Nat.le_refl _)]
    constructor
    · rintro ⟨he, hc'⟩
      cases he
      exact absurd (hc.symm.trans hc') nofun
    · rintro ⟨he, -⟩
      cases he
  · rw [List.getElem?_eq_none (by simp; omega), List.getElem?_eq_none (Nat.le_of_lt hgt)]

theorem authMove_of_step {e : AuthEvent} (h : authStep auth s e = some s') : AuthMove s e s' := by
  cases e with
  | signUp email password nickname =>
    cases h
    exact .quiet rfl rfl rfl (fun k c uid => carries_append rfl) id nofun
  | currentUser k =>
    simp only [authStep] at h
    split at h
    · next hk =>
      cases h
      refine .quiet rfl rfl rfl (fun j c uid => carries_set_quiet hk rfl ?_) id nofun
      intro c hc
      cases hc
      rfl
    · cases h
  | create k uid =>
    simp only [authStep] at h
    split at h
    · next hk =>
      split at h
      · next hfresh =>
        cases h
        exact .create hk hfresh
      · cases h
    · cases h
  | respond k =>
    simp only [authStep] at h
    split at h
    · next hk =>
      cases h
      exact .respond hk
    · cases h
  | setStored k =>
    simp only [authStep] at h
    split at h
    · next hk =>
      cases h
      exact .stored hk
    · cases h
  | setFailed k =>
    simp only [authStep] at h
    split at h
    · next hk =>
      cases h
      exact .dropped ⟨hk, rfl⟩ trivial
    · cases h
  | fail k =>
    simp only [authStep] at h
    split at h
    · next hk =>
      cases h
      exact .quiet rfl rfl rfl (fun j c uid => carries_set_quiet hk rfl nofun) id nofun
    · next hk =>
      cases h
      exact .quiet rfl rfl rfl (fun j c uid => carries_set_quiet hk rfl nofun) id nofun
    · cases h
  | lose k =>
    simp only [authStep] at h
    split at h
    · next hk =>
      cases h
      exact .dropped ⟨hk, rfl⟩ trivial
    · cases h
  | signIn email password =>
    cases h
    exact .quiet rfl rfl rfl (fun k c uid => Iff.rfl) id nofun

/-! ## Where an account is on its way to its profile -/

theorem entryOf_signUpSet (db : RealtimeDb) {uid email password nickname f : String}
    {v : Option Value} (h : (f, v) ∈ profileFields uid email password nickname) :
    entryOf (signUpSet db uid email password nickname) uid f = v :=
  signUpSet_field db h

theorem entryOf_signUpSet_other (db : RealtimeDb) {uid uid' : String} (h : uid ≠ uid')
    (email password nickname f : String) :
    entryOf (signUpSet db uid email password nickname) uid' f = entryOf db uid' f :=
  congrFun (sub_signUpSet_other db h email password nickname) [f]

/-- An account has one call that carries it at most, and no profile until that call is over. -/
structure OnTheWay (s : AuthState) : Prop where
  account : ∀ {k c uid}, Carries s.calls k c uid →
    ⟨uid, c.email, c.password, c.nickname⟩ ∈ s.accounts
  once : ∀ {k k' c c' uid}, Carries s.calls k c uid → Carries s.calls k' c' uid → k = k'
  unset : ∀ {k c uid}, Carries s.calls k c uid → entryOf s.db uid "name" = none
  unknown : ∀ {uid}, (∀ a ∈ s.accounts, a.uid ≠ uid) → entryOf s.db uid "name" = none
  uids : ∀ a ∈ s.accounts, ∀ a' ∈ s.accounts, a.uid = a'.uid → a = a'
  emails : ∀ a ∈ s.accounts, ∀ a' ∈ s.accounts, a.email = a'.email → a = a'
  dialogs : ∀ uid ∈ s.dialogs, ∃ a ∈ s.accounts, a.uid = uid

theorem onTheWay_init : OnTheWay {} := by
  have hno : ∀ {k c uid}, ¬ Carries ({} : AuthState).calls k c uid := fun h => nomatch h.1
  exact ⟨fun h => absurd h hno, fun h => absurd h hno, fun h => absurd h hno, fun _ => rfl,
    nofun, nofun, nofun⟩

/-- One more element with a key of its own. -/
theorem inj_append {α β : Type} {f : α → β} {l : List α} {x : α}
    (h : ∀ a ∈ l, ∀ a' ∈ l, f a = f a' → a = a') (hx : ∀ a ∈ l, f a ≠ f x) :
    ∀ a ∈ l ++ [x], ∀ a' ∈ l ++ [x], f a = f a' → a = a' := by
  refine Counting.forall_pairs_snoc (fun a b hab he => ?_) h (fun a ha he => ?_) fun _ => rfl
  · exact (hab he.symm).symm
  · exact absurd he (hx a ha)

theorem onTheWay_create {email password nickname : String} (h : OnTheWay s)
    (hk : callAt s.calls k = some ⟨email, password, nickname, .creating⟩)
    (hfresh : ∀ a ∈ s.accounts, a.email ≠ email ∧ a.uid ≠ uid) :
    OnTheWay { s with
      accounts := s.accounts ++ [⟨uid, email, password, nickname⟩]
      calls := s.calls.set k (some ⟨email, password, nickname, .created uid⟩) } := by
  have hold : ∀ a ∈ s.accounts, a ∈ s.accounts ++ [⟨uid, email, password, nickname⟩] :=
    fun a ha => List.mem_append_left _ ha
  have hnew : (⟨uid, email, password, nickname⟩ : Account) ∈
      s.accounts ++ [⟨uid, email, password, nickname⟩] :=
    List.mem_append_right _ (List.mem_singleton.mpr rfl)
  -- no other call carries the new account
  have hother : ∀ {j c}, ¬ Carries s.calls j c uid := fun hc => (hfresh _ (h.account hc)).2 rfl
  refine ⟨?_, ?_, ?_, ?_, ?_, ?_, ?_⟩
  · intro j c uid' hc
    rcases (carries_set hk).mp hc with ⟨-, he, hu⟩ | ⟨-, hc⟩
    · cases he
      cases hu
      exact hnew
    · exact hold _ (h.account hc)
  · intro j j' c c' uid' hc hc'
    rcases (carries_set hk).mp hc with ⟨rfl, he, hu⟩ | ⟨-, hc⟩
    · cases he
      cases hu
      rcases (carries_set hk).mp hc' with ⟨rfl, -, -⟩ | ⟨-, hc'⟩
      · rfl
      · exact absurd hc' hother
    · rcases (carries_set hk).mp hc' with ⟨-, he, hu⟩ | ⟨-, hc'⟩
      · cases he
        cases hu
        exact absurd hc hother
      · exact h.once hc hc'
  · intro j c uid' hc
    rcases (carries_set hk).mp hc with ⟨-, he, hu⟩ | ⟨-, hc⟩
    · cases he
      cases hu
      exact h.unknown fun a ha => (hfresh a ha).2
    · exact h.unset hc
  · intro uid' hno
    exact h.unknown fun a ha => hno a (hold a ha)
  · exact inj_append h.uids fun a ha => (hfresh a ha).2
  · exact inj_append h.emails fun a ha => (hfresh a ha).1
  · intro uid' hd
    obtain ⟨a, ha, hu⟩ := h.dialogs uid' hd
    exact ⟨a, hold a ha, hu⟩

/-- A call that carries an account goes on with it. -/
theorem carries_set_same {c c' : SignUpCall} (hk : Carries s.calls k c uid)
    (hc' : c'.uid? = some uid) {x : SignUpCall} {uid' : String}
    (h : Carries (s.calls.set k (some c')) j x uid') :
    (j = k ∧ x = c' ∧ uid' = uid) ∨ Carries s.calls j x uid' := by
  rcases (carries_set hk.1).mp h with ⟨rfl, he, hu⟩ | ⟨-, h⟩
  · cases he
    exact .inl ⟨rfl, rfl, Option.some.inj (hu.symm.trans hc')⟩
  · exact .inr h

theorem onTheWay_respond {email password nickname : String} (h : OnTheWay s)
    (hk : callAt s.calls k = some ⟨email, password, nickname, .created uid⟩) :
    OnTheWay { s with
      calls := s.calls.set k (some ⟨email, password, nickname, .setting uid⟩)
      dialogs := s.dialogs ++ [uid] } := by
  have hcarry : Carries s.calls k ⟨email, password, nickname, .created uid⟩ uid := ⟨hk, rfl⟩
  have hcases : ∀ {j x uid'},
      Carries (s.calls.set k (some ⟨email, password, nickname, .setting uid⟩)) j x uid' →
      ∃ x', Carries s.calls j x' uid' ∧ x'.email = x.email ∧ x'.password = x.password ∧
        x'.nickname = x.nickname := by
    intro j x uid' hc
    rcases carries_set_same hcarry rfl hc with ⟨rfl, rfl, rfl⟩ | hc
    · exact ⟨_, hcarry, rfl, rfl, rfl⟩
    · exact ⟨x, hc, rfl, rfl, rfl⟩
  refine ⟨?_, ?_, ?_, h.unknown, h.uids, h.emails, ?_⟩
  · intro j c uid' hc
    obtain ⟨x', hx', he, hp, hn⟩ := hcases hc
    rw [← he, ← hp, ← hn]
    exact h.account hx'
  · intro j j' c c' uid' hc hc'
    obtain ⟨x, hx, -⟩ := hcases hc
    obtain ⟨x', hx', -⟩ := hcases hc'
    exact h.once hx hx'
  · intro j c uid' hc
    obtain ⟨x, hx, -⟩ := hcases hc
    exact h.unset hx
  · intro uid' hd
    rcases List.mem_append.mp hd with hd | hd
    · exact h.dialogs uid' hd
    · rw [List.mem_singleton.mp hd]
      exact ⟨_, h.account hcarry, rfl⟩

/-- The calls that are left when the call `k` is over. -/
theorem carries_over (hk : Carries s.calls k c uid) {x : SignUpCall} {uid' : String}
    (h : Carries (s.calls.set k none) j x uid') : j ≠ k ∧ Carries s.calls j x uid' := by
  rcases (carries_set hk.1).mp h with ⟨-, he, -⟩ | h
  · cases he
  · exact h

theorem onTheWay_dropped (h : OnTheWay s) (hk : Carries s.calls k c uid) :
    OnTheWay { s with calls := s.calls.set k none } := by
  refine ⟨?_, ?_, ?_, h.unknown, h.uids, h.emails, h.dialogs⟩
  · intro j c uid' hc
    exact h.account (carries_over hk hc).2
  · intro j j' c c' uid' hc hc'
    exact h.once (carries_over hk hc).2 (carries_over hk hc').2
  · intro j c uid' hc
    exact h.unset (carries_over hk hc).2

theorem onTheWay_stored {email password nickname : String} (h : OnTheWay s)
    (hk : callAt s.calls k = some ⟨email, password, nickname, .setting uid⟩) :
    OnTheWay { s with
      calls := s.calls.set k none
      db := signUpSet s.db uid email password nickname } := by
  have hcarry : Carries s.calls k ⟨email, password, nickname, .setting uid⟩ uid := ⟨hk, rfl⟩
  have hdropped := onTheWay_dropped h hcarry
  refine ⟨hdropped.account, hdropped.once, ?_, ?_, h.uids, h.emails, h.dialogs⟩
  · intro j c uid' hc
    obtain ⟨hne, hc⟩ := carries_over hcarry hc
    dsimp only
    rw [entryOf_signUpSet_other, h.unset hc]
    rintro rfl
    exact hne (h.once hc hcarry)
  · intro uid' hno
    dsimp only
    rw [entryOf_signUpSet_other, h.unknown hno]
    exact hno _ (h.account hcarry)

theorem onTheWay_move {e : AuthEvent} (h : OnTheWay s) (hm : AuthMove s e s') : OnTheWay s' := by
  cases hm with
  | quiet haccounts hdb hdialogs hcalls _ _ =>
    refine ⟨?_, ?_, ?_, ?_, ?_, ?_, ?_⟩
    · intro k c uid hc
      rw [haccounts]
      exact h.account ((hcalls k c uid).mp hc)
    · intro k k' c c' uid hc hc'
      exact h.once ((hcalls k c uid).mp hc) ((hcalls k' c' uid).mp hc')
    · intro k c uid hc
      rw [hdb]
      exact h.unset ((hcalls k c uid).mp hc)
    · rw [haccounts, hdb]
      exact h.unknown
    · rw [haccounts]
      exact h.uids
    · rw [haccounts]
      exact h.emails
    · rw [haccounts, hdialogs]
      exact h.dialogs
  | create hk hfresh => exact onTheWay_create h hk hfresh
  | respond hk => exact onTheWay_respond h hk
  | stored hk => exact onTheWay_stored h hk
  | dropped hk _ => exact onTheWay_dropped h hk

/-! ## Accounts with and without a profile -/

/-- In step means that every account has a profile. -/
theorem inStep_iff (auth : FirebaseAuth) (h : OnTheWay s) :
    s.InStep auth ↔ ∀ a ∈ s.accounts, HasProfile s.db a := by
  constructor
  · rintro ⟨hsign, -⟩ a ha
    -- the account signs in with its own address and password
    have hlogin := auth.own ha fun b hb he => h.emails b hb a ha he
    obtain ⟨a', ha', hu, hprofile⟩ := hsign _ _ _ hlogin
    rwa [h.uids a' ha' a ha hu] at hprofile
  · intro hall
    refine ⟨?_, ?_⟩
    · intro email password uid hlogin
      obtain ⟨a, ha, hu⟩ := auth.known hlogin
      exact ⟨a, ha, hu, hall a ha⟩
    · intro uid hd
      obtain ⟨a, ha, hu⟩ := h.dialogs uid hd
      exact ⟨a, ha, hu, hall a ha⟩

theorem not_hasProfile {a : Account} (h : entryOf s.db a.uid "name" = none) :
    ¬ HasProfile s.db a := by
  intro hp
  exact absurd (h.symm.trans hp.1) nofun

/-- Right after its creation an account has no profile. -/
theorem not_inStep_of_create (h : OnTheWay s) (hs : authStep auth s (.create k uid) = some s') :
    ¬ s'.InStep auth := by
  have hmove := authMove_of_step hs
  have h' := onTheWay_move h hmove
  rw [inStep_iff auth h']
  intro hall
  cases hmove with
  | quiet _ _ _ _ _ hcreates => exact hcreates k uid rfl
  | @create _ _ email password nickname hk hfresh =>
    have hcarry : Carries (s.calls.set k (some ⟨email, password, nickname, .created uid⟩)) k
        ⟨email, password, nickname, .created uid⟩ uid :=
      (carries_set hk).mpr (.inl ⟨rfl, rfl, rfl⟩)
    exact not_hasProfile (h'.unset hcarry) (hall _ (h'.account hcarry))
  | dropped _ hloses => exact hloses

/-- An account that will never have a profile. -/
def Orphaned (s : AuthState) : Prop :=
  ∃ a ∈ s.accounts, entryOf s.db a.uid "name" = none ∧ ∀ k c, ¬ Carries s.calls k c a.uid

theorem orphaned_move {e : AuthEvent} (ho : Orphaned s) (hm : AuthMove s e s') : Orphaned s' := by
  obtain ⟨a, ha, hname, hno⟩ := ho
  cases hm with
  | quiet haccounts hdb _ hcalls _ _ =>
    refine ⟨a, haccounts ▸ ha, hdb ▸ hname, fun k c hc => hno k c ((hcalls k c _).mp hc)⟩
  | create hk hfresh =>
    refine ⟨a, List.mem_append_left _ ha, hname, ?_⟩
    intro j c hc
    rcases (carries_set hk).mp hc with ⟨-, he, hu⟩ | ⟨-, hc⟩
    · cases he
      exact (hfresh a ha).2 (Option.some.inj hu).symm
    · exact hno j c hc
  | @respond k uid _ _ _ hk =>
    refine ⟨a, ha, hname, ?_⟩
    intro j c hc
    rcases carries_set_same ⟨hk, rfl⟩ rfl hc with ⟨-, -, hu⟩ | hc
    · exact hno k _ ⟨hk, congrArg some hu.symm⟩
    · exact hno j c hc
  | @stored k uid email password nickname hk =>
    have hne : uid ≠ a.uid := by
      rintro rfl
      exact hno k _ ⟨hk, rfl⟩
    refine ⟨a, ha, ?_, fun j c hc => hno j c (carries_over ⟨hk, rfl⟩ hc).2⟩
    dsimp only
    rw [entryOf_signUpSet_other _ hne, hname]
  | dropped hk _ => exact ⟨a, ha, hname, fun j c hc => hno j c (carries_over hk hc).2⟩

/-- A lost response and a failed `set` leave an account without a profile. -/
theorem orphaned_of_loses {e : AuthEvent} (h : OnTheWay s) (hm : AuthMove s e s')
    (he : e.Loses) : Orphaned s' := by
  cases hm with
  | quiet _ _ _ _ hkeeps _ => exact absurd he hkeeps
  | create => exact absurd he id
  | respond => exact absurd he id
  | stored => exact absurd he id
  | dropped hk _ =>
    refine ⟨_, h.account hk, h.unset hk, ?_⟩
    intro j c hc
    obtain ⟨hne, hc⟩ := carries_over hk hc
    exact hne (h.once hc hk)

/-- Every account is on its way or has its profile. -/
def Accounted (s : AuthState) : Prop :=
  ∀ a ∈ s.accounts, (∃ k c, Carries s.calls k c a.uid) ∨ HasProfile s.db a

theorem accounted_stored {email password nickname : String} (h : OnTheWay s) (hall : Accounted s)
    (hk : callAt s.calls k = some ⟨email, password, nickname, .setting uid⟩) :
    Accounted { s with
      calls := s.calls.set k none
      db := signUpSet s.db uid email password nickname } := by
  have hcarry : Carries s.calls k ⟨email, password, nickname, .setting uid⟩ uid := ⟨hk, rfl⟩
  intro a ha
  rcases eq_or_ne uid a.uid with rfl | hne
  · -- the profile that is stored is the one of the account
    refine .inr ?_
    rw [h.uids a ha _ (h.account hcarry) rfl]
    exact ⟨entryOf_signUpSet _ (by simp [profileFields]), entryOf_signUpSet _ (by simp [profileFields])⟩
  · rcases hall a ha with ⟨j, c, hc⟩ | hp
    · refine .inl ⟨j, c, (carries_set hk).mpr (.inr ⟨?_, hc⟩)⟩
      rintro rfl
      cases hk.symm.trans hc.1
      exact hne (Option.some.inj hc.2)
    · refine .inr ?_
      unfold HasProfile
      dsimp only
      rw [entryOf_signUpSet_other _ hne, entryOf_signUpSet_other _ hne]
      exact hp

theorem accounted_move {e : AuthEvent} (h : OnTheWay s) (hall : Accounted s)
    (hm : AuthMove s e s') (hno : ¬ e.Loses) : Accounted s' := by
  cases hm with
  | quiet haccounts hdb _ hcalls _ _ =>
    intro a ha
    rw [hdb]
    refine (hall a (haccounts ▸ ha)).imp_left ?_
    rintro ⟨k, c, hc⟩
    exact ⟨k, c, (hcalls k c _).mpr hc⟩
  | create hk hfresh =>
    intro a ha
    rcases List.mem_append.mp ha with ha | ha
    · refine (hall a ha).imp_left ?_
      rintro ⟨j, c, hc⟩
      refine ⟨j, c, (carries_set hk).mpr (.inr ⟨?_, hc⟩)⟩
      rintro rfl
      cases hk.symm.trans hc.1
      cases hc.2
    · rw [List.mem_singleton.mp ha]
      exact .inl ⟨_, _, (carries_set hk).mpr (.inl ⟨rfl, rfl, rfl⟩)⟩
  | @respond k uid _ _ _ hk =>
    intro a ha
    refine (hall a ha).imp_left ?_
    rintro ⟨j, c, hc⟩
    rcases eq_or_ne j k with rfl | hne
    · cases hk.symm.trans hc.1
      exact ⟨j, _, (carries_set hk).mpr (.inl ⟨rfl, rfl, hc.2⟩)⟩
    · exact ⟨j, c, (carries_set hk).mpr (.inr ⟨hne, hc⟩)⟩
  | stored hk => exact accounted_stored h hall hk
  | dropped _ hloses => exact absurd hloses hno

/-! ## Runs -/

variable {es : List AuthEvent}

theorem onTheWay_run (h : OnTheWay s) (hr : run (authStep auth) anyStep s es = some s') : OnTheWay s' :=
  (reach_of_run hr).invariant h fun _ hi _ hs => onTheWay_move hi (authMove_of_step hs)

theorem orphaned_run (h : OnTheWay s) (hr : run (authStep auth) anyStep s es = some s')
    (hlost : Orphaned s ∨ ∃ e ∈ es, e.Loses) : Orphaned s' := by
  induction es generalizing s with
  | nil =>
    cases hr
    exact hlost.resolve_right (by simp)
  | cons e es ih =>
    obtain ⟨-, s₁, hs, hr⟩ := run_cons_eq_some.mp hr
    have hm := authMove_of_step hs
    refine ih (onTheWay_move h hm) hr ?_
    rcases hlost with ho | ⟨e', he', hloses⟩
    · exact .inl (orphaned_move ho hm)
    · rcases List.mem_cons.mp he' with rfl | he'
      · exact .inl (orphaned_of_loses h hm hloses)
      · exact .inr ⟨e', he', hloses⟩

theorem accounted_run (h : OnTheWay s) (hall : Accounted s)
    (hr : run (authStep auth) anyStep s es = some s') (hno : ∀ e ∈ es, ¬ e.Loses) : Accounted s' := by
  induction es generalizing s with
  | nil =>
    cases hr
    exact hall
  | cons e es ih =>
    obtain ⟨-, s₁, hs, hr⟩ := run_cons_eq_some.mp hr
    have hm := authMove_of_step hs
    refine ih (onTheWay_move h hm) (accounted_move h hall hm (hno e List.mem_cons_self)) hr ?_
    exact fun e' he' => hno e' (List.mem_cons_of_mem _ he')

/-- Only a creation adds an account. -/
theorem accounts_run (hr : run (authStep auth) anyStep s es = some s')
    (hno : ∀ k uid, AuthEvent.create k uid ∉ es) : s'.accounts = s.accounts := by
  induction es generalizing s with
  | nil =>
    cases hr
    rfl
  | cons e es ih =>
    obtain ⟨-, s₁, hs, hr⟩ := run_cons_eq_some.mp hr
    rw [ih hr fun k uid hmem => hno k uid (List.mem_cons_of_mem _ hmem)]
    cases authMove_of_step hs with
    | quiet haccounts => exact haccounts
    | @create k uid => exact absurd List.mem_cons_self (hno k uid)
    | respond => rfl
    | stored => rfl
    | dropped => rfl

theorem not_carries_of_atRest (h : s.AtRest) : ¬ Carries s.calls k c uid := by
  rintro ⟨hk, -⟩
  unfold callAt at hk
  cases hget : s.calls[k]? with
  | none => simp [hget] at hk
  | some x =>
    rw [hget, h x (List.mem_of_getElem? hget)] at hk
    cases hk

end RegistrationLemmas

open RegistrationLemmas

/-- For every run of calls of `signUp` and `signIn` in which any remote operation may fail:
accounts and profiles are in step in all its states if and only if it creates no account.
After a run that leaves no call and no `set` going on, they are in step if and only if no
`set` has failed and no response to a creation has been lost. -/
theorem in_step_iff (auth : FirebaseAuth) {es : List AuthEvent} {s : AuthState}
    (hrun : run (authStep auth) anyStep {} es = some s) :
    ((∀ n s', run (authStep auth) anyStep {} (es.take n) = some s' → s'.InStep auth) ↔
      ∀ k uid, AuthEvent.create k uid ∉ es) ∧
    (s.AtRest → (s.InStep auth ↔ ∀ e ∈ es, ¬ e.Loses)) := by
  refine ⟨⟨?_, ?_⟩, fun hrest => ⟨?_, ?_⟩⟩
  · intro hall k uid hmem
    obtain ⟨es₁, es₂, rfl⟩ := List.append_of_mem hmem
    rw [run_append] at hrun
    obtain ⟨s₁, hr₁, hr₂⟩ := Option.bind_eq_some_iff.mp hrun
    obtain ⟨-, s₂, hs, -⟩ := run_cons_eq_some.mp hr₂
    -- the state right after the creation is one of the run
    have htake : (es₁ ++ .create k uid :: es₂).take (es₁.length + 1) = es₁ ++ [.create k uid] := by
      rw [List.take_length_add_append]
      rfl
    refine not_inStep_of_create (onTheWay_run onTheWay_init hr₁) hs (hall (es₁.length + 1) s₂ ?_)
    rw [htake, run_append, hr₁]
    exact run_cons_eq_some.mpr ⟨trivial, s₂, hs, rfl⟩
  · intro hno n s' hr
    rw [inStep_iff auth (onTheWay_run onTheWay_init hr),
      accounts_run hr fun k uid hmem => hno k uid (List.mem_of_mem_take hmem)]
    exact nofun
  · intro hin e he hloses
    obtain ⟨a, ha, hname, -⟩ := orphaned_run onTheWay_init hrun (.inr ⟨e, he, hloses⟩)
    exact not_hasProfile hname ((inStep_iff auth (onTheWay_run onTheWay_init hrun)).mp hin a ha)
  · intro hno
    rw [inStep_iff auth (onTheWay_run onTheWay_init hrun)]
    intro a ha
    have hall := accounted_run onTheWay_init nofun hrun hno a ha
    refine hall.resolve_left ?_
    rintro ⟨k, c, hc⟩
    exact not_carries_of_atRest hrest hc

/-- The first account with the address and the password. -/
def accountList : FirebaseAuth where
  signInWithEmailAndPassword accounts email password :=
    (accounts.find? fun a => decide (a.email = email ∧ a.password = password)).map (·.uid)
  known := by
    intro accounts email password uid h
    obtain ⟨a, ha, hu⟩ := Option.map_eq_some_iff.mp h
    exact ⟨a, List.mem_of_find?_eq_some ha, hu⟩
  own := by
    intro accounts a ha hone
    obtain ⟨b, hb⟩ : ∃ b, accounts.find? (fun x =>
        decide (x.email = a.email ∧ x.password = a.password)) = some b := by
      rw [← Option.isSome_iff_exists, List.find?_isSome]
      exact ⟨a, ha, by simp⟩
    have hmatch := List.find?_some hb
    have hba := hone b (List.mem_of_find?_eq_some hb) (of_decide_eq_true hmatch).1
    rw [hb, hba]
    rfl

/-- A registration up to the return of `signUp`. -/
def registration : List AuthEvent :=
  [.signUp "a@x.com" "secret" "田中", .currentUser 0, .create 0 "u", .respond 0]

theorem in_step_after_registration :
    ∃ s, run (authStep accountList) anyStep {} (registration ++ [.setStored 0]) = some s ∧
      s.dialogs = ["u"] ∧ s.InStep accountList := by
  obtain ⟨s, hs, hrest, hdialogs⟩ := exists_run (authStep accountList) anyStep {}
    (registration ++ [.setStored 0]) (p := fun s => s.AtRest ∧ s.dialogs = ["u"]) (by decide)
  refine ⟨s, hs, hdialogs, ((in_step_iff accountList hs).2 hrest).mpr ?_⟩
  intro e he
  simp only [registration, List.cons_append, List.nil_append, List.mem_cons, List.not_mem_nil,
    or_false] at he
  rcases he with rfl | rfl | rfl | rfl | rfl <;> exact id

/-- The `set` fails. The dialog has been shown, and the user can sign in without a profile. -/
theorem account_without_profile :
    ∃ s, run (authStep accountList) anyStep {}
        (registration ++ [.setFailed 0, .signIn "a@x.com" "secret"]) = some s ∧
      s.AtRest ∧ s.dialogs = ["u"] ∧ s.signedIn = ["u"] ∧ ¬ s.InStep accountList := by
  obtain ⟨s, hs, hrest, hdialogs, hsigned, hnames⟩ := exists_run (authStep accountList) anyStep {}
    (registration ++ [.setFailed 0, .signIn "a@x.com" "secret"])
    (p := fun s => s.AtRest ∧ s.dialogs = ["u"] ∧ s.signedIn = ["u"] ∧
      s.accounts.map (fun a => entryOf s.db a.uid "name") = [none]) (by decide)
  refine ⟨s, hs, hrest, hdialogs, hsigned, ?_⟩
  intro hin
  obtain ⟨a, ha, -, hprofile⟩ := hin.2 "u" (by rw [hdialogs]; exact List.mem_cons_self)
  have hmem : entryOf s.db a.uid "name" ∈ s.accounts.map fun a => entryOf s.db a.uid "name" :=
    List.mem_map_of_mem ha
  rw [hnames, List.mem_singleton] at hmem
  exact not_hasProfile hmem hprofile

end ShainManager
