import ShainManager.Chat
import ShainManager.ChoiceChat.Page

/-!
# The preview of a conversation

The chat-selection page computes the text below a user in a loop over all documents of
`messages`, with a branch that resets the field `newmess`; the chat page collects the
documents of the conversation in a list (`lib/ui/chat.dart`). Each has its own copy of the
rule that compares the keys.

* `preview_agrees`: the preview is the text of the last message that the chat page lists, and
  is empty exactly when it lists none.
* `chatLines_data`: for documents without nulls the list of the chat page is the one of
  `ShainManager.Chat`.
-/

namespace ShainManager

/-- What the chat page shows of a document, any field of which may be null. -/
def chatLine (user : String) (doc : MessageData) : Mapdata (Option String) :=
  mapdataOf (some user) doc.to_ doc.from_ doc.text

/-- The list `messages` of the chat page of `user` with the partner address `data`. -/
def chatLines (user data : String) (docs : List MessageData) : List (Mapdata (Option String)) :=
  let userto := user ++ data
  let touser := data ++ user
  collectMessages (some userto) (some touser) (chatLine user) docs

/-! ## Documents without nulls -/

def MessageDoc.data (doc : MessageDoc) : MessageData :=
  { text := some doc.text, from_ := some doc.from_, to_ := some doc.to_ }

def Mapdata.line (m : Mapdata String) : Mapdata (Option String) :=
  { to_ := some m.to_, from_ := some m.from_, text := some m.text, boolme := m.boolme }

namespace PreviewLemmas

variable {user data : String}

/-- The rule by which both pages select documents. -/
def Selects (user data : String) (doc : MessageData) : Prop :=
  doc.to_ = some (user ++ data) ∨ doc.to_ = some (data ++ user)

instance (doc : MessageData) : Decidable (Selects user data doc) :=
  inferInstanceAs (Decidable (_ ∨ _))

theorem chatLines_eq (docs : List MessageData) :
    chatLines user data docs =
      (docs.filter fun doc => decide (Selects user data doc)).map (chatLine user) :=
  collectMessages_eq (some (user ++ data)) (some (data ++ user)) (chatLine user) docs

theorem chatLines_snoc (docs : List MessageData) (doc : MessageData) :
    chatLines user data (docs ++ [doc]) =
      if Selects user data doc then chatLines user data docs ++ [chatLine user doc]
      else chatLines user data docs := by
  rw [chatLines_eq, chatLines_eq, List.filter_append, List.map_append]
  split
  · next h => simp [h]
  · next h => simp [h]

/-- The branch that resets `newmess` leaves `usermess` alone. -/
theorem previewStep_usermess (state : Option String × Option String) (doc : MessageData) :
    (previewStep (user ++ data) (data ++ user) state doc).2 =
      if Selects user data doc then doc.text else state.2 := by
  have hstep : previewStep (user ++ data) (data ++ user) state doc =
      if Selects user data doc then (doc.text, doc.text) else (some "", state.2) :=
    (ite_or ..).symm
  rw [hstep]
  split
  · rfl
  · rfl

/-- The loop leaves the text of the last line of the chat page in `usermess`. -/
theorem foldl_previewStep (docs : List MessageData) (newmess : Option String) :
    (docs.foldl (previewStep (user ++ data) (data ++ user)) (newmess, none)).2 =
      (chatLines user data docs).getLast?.bind Mapdata.text := by
  induction docs using List.reverseRecOn with
  | nil => rfl
  | append_singleton docs doc ih =>
    rw [List.foldl_append, List.foldl_cons, List.foldl_nil, previewStep_usermess, chatLines_snoc]
    split
    · rw [List.getLast?_concat]
      rfl
    · exact ih

/-- Every line has the text of a document. -/
theorem text_of_mem_chatLines {docs : List MessageData} {m : Mapdata (Option String)}
    (h : m ∈ chatLines user data docs) : ∃ doc ∈ docs, m.text = doc.text := by
  rw [chatLines_eq] at h
  obtain ⟨doc, hdoc, rfl⟩ := List.mem_map.mp h
  exact ⟨doc, List.mem_of_mem_filter hdoc, rfl⟩

theorem append_ne_empty_left {s : String} (h : s ≠ "") (t : String) : s ++ t ≠ "" := by
  intro he
  exact h (String.append_eq_empty_iff.mp he).1

theorem previewText_eq_empty {usermess : Option String} :
    previewText usermess = "" ↔ usermess = none := by
  cases usermess with
  | none => exact iff_of_true rfl rfl
  | some mess =>
    exact iff_of_false (append_ne_empty_left (by decide) mess) (Option.some_ne_none mess)

theorem previewBuilder_eq {p : ChoicePage} {u : FirebaseUser} {v : UserList} {index : Nat}
    (docs : List MessageData) (huser : p.user = some u) (hlisted : p.listdata[index]? = some v)
    (hdata : v.useremail = some data) :
    ∃ p', p.previewBuilder index docs =
      some (previewText ((chatLines (interpolated u.email) data docs).getLast?.bind Mapdata.text), p') := by
  unfold ChoicePage.previewBuilder
  rw [huser, hlisted, Option.bind_eq_bind, Option.bind_some, Option.bind_eq_bind, Option.bind_some,
    hdata, ← foldl_previewStep docs p.newmess]
  exact ⟨_, rfl⟩

end PreviewLemmas

open PreviewLemmas

/-- The chat page of `ShainManager.Chat`, on the same documents. -/
theorem chatLines_data (user data : String) (docs : List MessageDoc) :
    chatLines user data (docs.map MessageDoc.data) = (messages user data docs).map Mapdata.line := by
  rw [messages_eq, chatLines_eq, List.filter_map, List.map_map, List.map_map]
  have hselects : ∀ doc : MessageDoc, Selects user data doc.data ↔ KeyOf user data doc.to_ := by
    intro doc
    simp [Selects, MessageDoc.data, KeyOf]
  have hline : ∀ doc : MessageDoc, chatLine user doc.data = (mapdata user doc).line := by
    intro doc
    simp [chatLine, MessageDoc.data, mapdata, mapdataOf, Mapdata.line]
  have hfilter : docs.filter ((fun doc => decide (Selects user data doc)) ∘ MessageDoc.data) =
      docs.filter fun doc => decide (KeyOf user data doc.to_) :=
    List.filter_congr fun doc _ => decide_eq_decide.mpr (hselects doc)
  rw [hfilter]
  exact List.map_congr_left fun doc _ => hline doc

/-- For every state of the page with a signed-in user `u`, every listed user with an address
and all documents with a text: the preview is the text of the last message that the chat page
of `u` lists with that user, and is empty exactly when it lists none. -/
theorem preview_agrees {p : ChoicePage} {u : FirebaseUser} {v : UserList} {index : Nat}
    {data : String} {docs : List MessageData} (huser : p.user = some u)
    (hlisted : p.listdata[index]? = some v) (hdata : v.useremail = some data)
    (htexts : ∀ doc ∈ docs, doc.text ≠ none) :
    ∃ text p', p.previewBuilder index docs = some (text, p') ∧
      (∀ m ∈ (chatLines (interpolated u.email) data docs).getLast?,
        ∃ mess, m.text = some mess ∧ text = "メッセージ：" ++ mess) ∧
      (text = "" ↔ chatLines (interpolated u.email) data docs = []) := by
  obtain ⟨p', hbuilder⟩ := previewBuilder_eq docs huser hlisted hdata
  refine ⟨_, p', hbuilder, ?_, ?_⟩
  · intro m hm
    obtain ⟨doc, hdoc, htext⟩ := text_of_mem_chatLines (List.mem_of_getLast? hm)
    obtain ⟨mess, hmess⟩ := Option.ne_none_iff_exists'.mp (htexts doc hdoc)
    refine ⟨mess, htext.trans hmess, ?_⟩
    rw [hm, Option.bind_some, htext, hmess]
    rfl
  · rw [previewText_eq_empty]
    cases hlast : (chatLines (interpolated u.email) data docs).getLast? with
    | none => exact iff_of_true rfl (List.getLast?_eq_none_iff.mp hlast)
    | some m =>
      obtain ⟨doc, hdoc, htext⟩ := text_of_mem_chatLines (List.mem_of_getLast? hlast)
      refine iff_of_false ?_ ?_
      · rw [Option.bind_some, htext]
        exact htexts doc hdoc
      · intro hnil
        rw [hnil] at hlast
        cases hlast

/-- A message of the user below, then one of two others and a document without a key. -/
theorem preview_agrees_lastOfThree :
    let p : ChoicePage :=
      { user := some ⟨some "a@x.com"⟩
        listdata := [{ username := some "田中", useremail := some "b@x.com" }] }
    let docs : List MessageData :=
      [⟨some "こんにちは", some "b@x.com", some "b@x.coma@x.com"⟩,
       ⟨some "了解", some "c@x.com", some "c@x.comd@x.com"⟩, ⟨some "", none, none⟩]
    ∃ p', p.previewBuilder 0 docs = some ("メッセージ：こんにちは", p') := by
  intro p docs
  obtain ⟨text, p', hbuilder, hlast, -⟩ :=
    @preview_agrees p ⟨some "a@x.com"⟩ { username := some "田中", useremail := some "b@x.com" } 0
      "b@x.com" docs rfl rfl rfl (by decide)
  obtain ⟨mess, hmess, htext⟩ := hlast ⟨some "b@x.coma@x.com", some "b@x.com", some "こんにちは", false⟩
    (by decide)
  cases hmess
  exact ⟨p', by rw [hbuilder, htext]; rfl⟩

end ShainManager
