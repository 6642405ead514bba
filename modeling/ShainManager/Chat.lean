import Mathlib.Data.List.Perm.Basic
import Mathlib.Logic.Function.Basic
import ShainManager.Dart
import ShainManager.Lib.Counting

/-!
# The chat page

`lib/ui/chat.dart`. `callback` adds a document to the collection `messages`
whose key `to` is the concatenation of the two e-mail addresses, and the page of
a user and a partner shows the documents whose key is the concatenation of their
addresses in either order.

The key has no separator, so two pairs of addresses can have the same key.

* `chat_exact_iff`: the page of `u` and `v` shows exactly their messages if and
  only if no message of another pair has their key in either order.
* `chat_exact_always_iff`: this holds of everything they and others can send if and
  only if no other two addresses concatenate to theirs.
* `chat_shows_foreign_message`: four ordinary addresses for which it does not.
-/

namespace ShainManager

/-- A document of the collection `messages`, with its server timestamp. -/
structure MessageDoc where
  text : String
  from_ : String
  to_ : String
  date : Nat
deriving DecidableEq, Repr

/-- What the page shows of a document. `τ` is `String` for the documents of `callback`, and
`Option String` where a field may be null. -/
structure Mapdata (τ : Type) where
  to_ : τ
  from_ : τ
  text : τ
  boolme : Bool
deriving DecidableEq, Repr

/-! ## Sending and showing -/

/-- `callback` of the user `user` with the partner address `data`: the document it
adds, at the server time `date`, unless the text is empty. -/
def callback (user data text : String) (date : Nat) : Option MessageDoc :=
  if text.length > 0 then some { text := text, from_ := user, to_ := user ++ data, date := date }
  else none

section

variable {τ δ : Type} [DecidableEq τ]

/-- The `Mapdata` that `build` makes of the fields of a document, on the page of `user`. -/
def mapdataOf (user to_ from_ text : τ) : Mapdata τ :=
  { to_ := to_, from_ := from_, text := text
    boolme := if from_ = user then true else false }

/-- The list `messages` that `build` fills from the documents of a snapshot. -/
def collectMessages (userto touser : τ) (mapdata : δ → Mapdata τ) (docs : List δ) :
    List (Mapdata τ) :=
  docs.foldl (fun acc doc =>
    let m := mapdata doc
    if m.to_ = userto then acc ++ [m]
    else if m.to_ = touser then acc ++ [m]
    else acc) []

end

/-- `Mapdata` of a document on the page of `user`. -/
def mapdata (user : String) (doc : MessageDoc) : Mapdata String :=
  mapdataOf user doc.to_ doc.from_ doc.text

/-- The messages on the page of `user` with the partner address `data`. -/
def messages (user data : String) (docs : List MessageDoc) : List (Mapdata String) :=
  let userto := user ++ data
  let touser := data ++ user
  collectMessages userto touser (mapdata user) docs

/-! ## Accounts and what they sent -/

/-- A set of accounts with distinct and non-empty addresses. -/
structure Accounts (A : Type) where
  email : A → String
  email_injective : Function.Injective email
  email_ne : ∀ a, email a ≠ ""

/-- A send through `callback`: who, to whom, what, and the server time. -/
structure Sent (A : Type) where
  sender : A
  partner : A
  text : String
  date : Nat
deriving DecidableEq

variable {A : Type}

/-- The document of a send. -/
def Sent.doc (acc : Accounts A) (m : Sent A) : Option MessageDoc :=
  callback (acc.email m.sender) (acc.email m.partner) m.text m.date

/-- The key of the document of a send. -/
def Sent.key (acc : Accounts A) (m : Sent A) : String := acc.email m.sender ++ acc.email m.partner

/-- The message is between `u` and `v`. -/
def Sent.Between (u v : A) (m : Sent A) : Prop :=
  m.sender = u ∧ m.partner = v ∨ m.sender = v ∧ m.partner = u

instance [DecidableEq A] (u v : A) (m : Sent A) : Decidable (m.Between u v) :=
  inferInstanceAs (Decidable (_ ∨ _))

/-- A snapshot of `messages` ordered by date, after the sends of `log` in any
interleaving: the sends that were added, each once, in an order that agrees with
the server times. -/
structure Snapshot (log : List (Sent A)) where
  order : List (Sent A)
  perm : order.Perm (log.filter fun m => decide (m.text.length > 0))
  sorted : order.Pairwise fun m m' => m.date ≤ m'.date

/-- The documents of the snapshot. -/
def Snapshot.docs {log : List (Sent A)} (acc : Accounts A) (snap : Snapshot log) :
    List MessageDoc :=
  snap.order.filterMap (Sent.doc acc)

/-- What the page of `u` should show of a message. -/
def Sent.shown [DecidableEq A] (acc : Accounts A) (u : A) (m : Sent A) : Mapdata String :=
  { to_ := m.key acc, from_ := acc.email m.sender, text := m.text, boolme := decide (m.sender = u) }

/-- The page of `u` with the partner `v` shows the messages between `u` and `v`,
each once and in date order, marked as `u`'s own when `u` sent them, and nothing
else. -/
def ChatExact [DecidableEq A] {log : List (Sent A)} (acc : Accounts A) (snap : Snapshot log)
    (u v : A) : Prop :=
  messages (acc.email u) (acc.email v) (snap.docs acc) =
    (snap.order.filter fun m => decide (m.Between u v)).map (Sent.shown acc u)

/-! ## The filter of the page -/

/-- The key is that of `user` and `data` in one of the two orders. -/
def KeyOf (user data key : String) : Prop := key = user ++ data ∨ key = data ++ user

instance (user data key : String) : Decidable (KeyOf user data key) :=
  inferInstanceAs (Decidable (_ ∨ _))

/-- `build` lists the documents with one of the two keys. -/
theorem collectMessages_eq {τ δ : Type} [DecidableEq τ] (userto touser : τ)
    (mapdata : δ → Mapdata τ) (docs : List δ) :
    collectMessages userto touser mapdata docs =
      (docs.filter fun d =>
        decide ((mapdata d).to_ = userto ∨ (mapdata d).to_ = touser)).map mapdata := by
  have hcollect : ∀ (acc : List (Mapdata τ)) (doc : δ),
      (if (mapdata doc).to_ = userto then acc ++ [mapdata doc]
       else if (mapdata doc).to_ = touser then acc ++ [mapdata doc] else acc) =
      acc ++ ((Option.guard (fun d =>
        decide ((mapdata d).to_ = userto ∨ (mapdata d).to_ = touser)) doc).map mapdata).toList := by
    intro acc doc
    by_cases hto : (mapdata doc).to_ = userto
    · simp [hto, Option.guard]
    · by_cases hfrom : (mapdata doc).to_ = touser
      · simp [hfrom, Option.guard]
      · simp [hto, hfrom, Option.guard]
  calc collectMessages userto touser mapdata docs
      = docs.filterMap fun doc => (Option.guard (fun d =>
          decide ((mapdata d).to_ = userto ∨ (mapdata d).to_ = touser)) doc).map mapdata :=
        foldl_collect hcollect docs []
    _ = (docs.filter fun d =>
          decide ((mapdata d).to_ = userto ∨ (mapdata d).to_ = touser)).map mapdata := by
        rw [← List.map_filterMap, List.filterMap_eq_filter]

theorem messages_eq (user data : String) (docs : List MessageDoc) :
    messages user data docs =
      (docs.filter fun d => decide (KeyOf user data d.to_)).map (mapdata user) :=
  collectMessages_eq (user ++ data) (data ++ user) (mapdata user) docs

section

variable {log : List (Sent A)} {acc : Accounts A} {snap : Snapshot log}

theorem mem_order {m : Sent A} : m ∈ snap.order ↔ m ∈ log ∧ m.text.length > 0 := by
  rw [snap.perm.mem_iff]
  simp

/-- Every message of a snapshot has its document. -/
theorem docs_eq : snap.docs acc = snap.order.map fun m =>
    ⟨m.text, acc.email m.sender, m.key acc, m.date⟩ := by
  unfold Snapshot.docs
  rw [← List.filterMap_eq_map]
  refine List.filterMap_congr fun m hm => ?_
  have htext : m.text.length > 0 := (mem_order.mp hm).2
  simp [Sent.doc, callback, htext, Sent.key]

/-- The page shows the messages whose key is that of its two addresses. -/
theorem messages_docs [DecidableEq A] (u : A) (data : String) :
    messages (acc.email u) data (snap.docs acc) =
      (snap.order.filter fun m => decide (KeyOf (acc.email u) data (m.key acc))).map
        (Sent.shown acc u) := by
  rw [messages_eq, docs_eq, List.filter_map, List.map_map]
  refine List.map_congr_left fun m _ => ?_
  simp [mapdata, mapdataOf, Sent.shown, acc.email_injective.eq_iff]

theorem keyOf_of_between {u v : A} {m : Sent A} (h : m.Between u v) :
    KeyOf (acc.email u) (acc.email v) (m.key acc) := by
  rcases h with ⟨rfl, rfl⟩ | ⟨rfl, rfl⟩
  · exact .inl rfl
  · exact .inr rfl

end

/-- The page is exact if and only if the filter adds no message of another pair. -/
theorem chatExact_iff_order [DecidableEq A] {log : List (Sent A)} (acc : Accounts A)
    (snap : Snapshot log) (u v : A) :
    ChatExact acc snap u v ↔
      ∀ m ∈ snap.order, KeyOf (acc.email u) (acc.email v) (m.key acc) → m.Between u v := by
  unfold ChatExact
  rw [messages_docs]
  constructor
  · intro h
    have hlen := congrArg List.length h
    simp only [List.length_map] at hlen
    exact Counting.forall_of_filter_eq (P := Sent.Between u v)
      (Q := fun m => KeyOf (acc.email u) (acc.email v) (m.key acc))
      (fun m hb => keyOf_of_between hb) hlen
  · intro h
    congr 1
    refine List.filter_congr fun m hm => ?_
    exact decide_eq_decide.mpr ⟨h m hm, keyOf_of_between⟩

/-- For all accounts, all sends in any interleaving and all `u` and `v`, the page
of `u` with the partner `v` shows exactly the messages between them if and only if
every message that has the key of `u` and `v`, in either order, is between them. -/
theorem chat_exact_iff [DecidableEq A] {log : List (Sent A)} (acc : Accounts A)
    (snap : Snapshot log) (u v : A) :
    ChatExact acc snap u v ↔
      ∀ m ∈ log, m.text.length > 0 → KeyOf (acc.email u) (acc.email v) (m.key acc) →
        m.Between u v := by
  rw [chatExact_iff_order]
  constructor
  · intro h m hm htext
    exact h m (mem_order.mpr ⟨hm, htext⟩)
  · intro h m hm
    obtain ⟨hlog, htext⟩ := mem_order.mp hm
    exact h m hlog htext

/-- Whatever is sent, the page of `u` and `v` is exact, if and only if no other two
addresses have the concatenation of theirs, in either order. -/
theorem chat_exact_always_iff [DecidableEq A] (acc : Accounts A) (u v : A) :
    (∀ (log : List (Sent A)) (snap : Snapshot log), ChatExact acc snap u v) ↔
      ∀ a b, KeyOf (acc.email u) (acc.email v) (acc.email a ++ acc.email b) →
        a = u ∧ b = v ∨ a = v ∧ b = u := by
  simp only [chatExact_iff_order]
  constructor
  · intro h a b
    have htext : "hi".length > 0 := by decide
    let snap : Snapshot [(⟨a, b, "hi", 0⟩ : Sent A)] :=
      ⟨[⟨a, b, "hi", 0⟩], by rw [List.filter_cons_of_pos (by simpa using htext)]; simp, by simp⟩
    exact h _ snap ⟨a, b, "hi", 0⟩ (List.mem_singleton.mpr rfl)
  · intro h log snap m _
    exact h m.sender m.partner

def fourAddresses : Fin 4 → String
  | 0 => "a@b.com"
  | 1 => "x@y.com"
  | 2 => "a@b.co"
  | 3 => "mx@y.com"

/-- Four accounts with ordinary addresses. -/
def fourAccounts : Accounts (Fin 4) where
  email := fourAddresses
  email_injective := by
    have h : ∀ a b : Fin 4, fourAddresses a = fourAddresses b → a = b := by decide
    exact fun a b => h a b
  email_ne := by decide

/-- The key of the addresses `a@b.co` and `mx@y.com` is that of `a@b.com` and
`x@y.com`, so the latter two see what the former sent. -/
theorem chat_shows_foreign_message :
    ¬ ∀ (log : List (Sent (Fin 4))) (snap : Snapshot log) (u v : Fin 4),
      ChatExact fourAccounts snap u v := by
  intro h
  have hsnap := h [⟨2, 3, "secret", 1⟩] ⟨[⟨2, 3, "secret", 1⟩], by decide, by decide⟩ 0 1
  revert hsnap
  unfold ChatExact
  decide

end ShainManager
