import Mathlib.Data.List.Basic
import ShainManager.Dart

/-!
# The task board of the attendance page

`bottomlistTask` (`lib/ui/manageEmp.dart`). A snapshot of the collection `stack`
fills `listtextField` through the side effect of an `async` closure, one call a
document. An exception in the closure ends in its future, which nobody reads, so
the document is passed over and the traversal goes on. The cards are built from
`listtextField` and `appColors`, but the delete button of a card indexes the
documents of the snapshot.

* `cards_paired_iff`: every document has its card, with its texts, and the armed
  delete of a card removes the document that the card shows, if and only if every
  document is readable and the page has a colour for every document.
* `pending_task_shifts_cards`: a task that is not stored yet shifts the cards
  against the documents.
-/

namespace ShainManager

/-! ## Documents -/

/-- The value of a field of a document. A timestamp is its microseconds since the
epoch; a server timestamp that is not known yet is null. -/
inductive FieldValue
  | null
  | text (s : String)
  | timestamp (microseconds : Int)
  | other
deriving DecidableEq, Repr

namespace FieldValue

/-- The assignment of the value to a variable of type `String`. -/
def asString : FieldValue → Option (Option String)
  | null => some none
  | text s => some (some s)
  | _ => none

/-- The getter `microsecondsSinceEpoch`, which null does not have. -/
def microsecondsSinceEpoch : FieldValue → Option Int
  | timestamp t => some t
  | _ => none

end FieldValue

/-- A document of the collection `stack`. -/
structure StackDoc where
  documentID : String
  subject : FieldValue
  assignee : FieldValue
  descrip : FieldValue
  timecreate : FieldValue
deriving DecidableEq, Repr

/-- `createtask`: the document as this device sees it, which has the server's time
only after the server has stored it. -/
def createtask (documentID subject assignee descrip : String) (timecreate : Option Int) :
    StackDoc :=
  { documentID := documentID, subject := .text subject, assignee := .text assignee
    descrip := .text descrip
    timecreate := match timecreate with
      | some t => .timestamp t
      | none => .null }

/-- A snapshot of `stack`. Document ids are unique. -/
structure StackSnapshot where
  documents : List StackDoc
  nodup : (documents.map StackDoc.documentID).Nodup

/-! ## The board -/

structure TextFieldList where
  textFieldSubject : Option String
  textFieldAssignee : Option String
  textFieldDescrip : Option String
  datetimecreate : String
deriving DecidableEq, Repr

/-- What a card shows. -/
structure TaskCard (Color : Type) where
  color : Color
  subject : String
  assignee : String
  descrip : String
  datetimecreate : String
deriving DecidableEq, Repr

/-- The fields of the page that the board reads. `appColors` has one colour for each
build of the page. -/
structure Board (Color : Type) where
  appColors : List Color
  clickicondeleteTask : Bool := false
  listtextField : List TextFieldList := []
deriving DecidableEq, Repr

section

variable {Color : Type}

-- `DateFormat('yyyy年MM月dd(E) HH:mm', "ja_JP")` on the microseconds of an instant
variable (format : Int → String)

/-- The body of the closure, up to `listtextField.add`. -/
def textlist (doc : StackDoc) : Option TextFieldList := do
  let subject ← doc.subject.asString
  let assignee ← doc.assignee.asString
  let descrip ← doc.descrip.asString
  let secondsdatetime ← doc.timecreate.microsecondsSinceEpoch
  return ⟨subject, assignee, descrip, format secondsdatetime⟩

/-- The builder with a snapshot: `listtextField` is emptied, and each call of the
closure adds one element unless it throws. -/
def Board.bottomlistTask (b : Board Color) (snapshot : StackSnapshot) : Board Color :=
  { b with listtextField := snapshot.documents.foldl (fun acc doc =>
      match textlist format doc with
      | some t => acc ++ [t]
      | none => acc) [] }

/-- `itemCount` of the list. -/
def Board.itemCount (b : Board Color) : Nat := b.listtextField.length

/-- The card at `position`. An index out of range throws. -/
def Board.itemBuilder (b : Board Color) (position : Nat) : Option (TaskCard Color) := do
  let color ← b.appColors[position]?
  let t ← b.listtextField[position]?
  return { color := color
           subject := "題名 : " ++ interpolated t.textFieldSubject
           assignee := "担当者：" ++ interpolated t.textFieldAssignee
           descrip := interpolated t.textFieldDescrip
           datetimecreate := t.datetimecreate }

/-- The button of the card at `position`: the document it deletes, if any, and the
page afterwards. The first press arms the buttons. -/
def Board.onPressed (b : Board Color) (snapshot : StackSnapshot) (position : Nat) :
    Option (Option String × Board Color) := do
  let deleted ←
    if b.clickicondeleteTask then
      match snapshot.documents[position]? with
      | some doc => some (some doc.documentID)
      | none => none
    else some none
  return (deleted, { b with clickicondeleteTask := true })

end

/-- The collection after `document(id).delete()`. -/
def deleteDocument (docs : List StackDoc) (id : String) : List StackDoc :=
  docs.filter fun doc => doc.documentID ≠ id

/-! ## Cards and documents -/

/-- The value can be assigned to a `String`. -/
def FieldValue.IsText (v : FieldValue) : Prop := v = .null ∨ ∃ s, v = .text s

/-- The closure can read the document: its time is known, and its texts are texts. -/
structure StackDoc.Readable (doc : StackDoc) : Prop where
  subject : doc.subject.IsText
  assignee : doc.assignee.IsText
  descrip : doc.descrip.IsText
  timecreate : ∃ t, doc.timecreate = .timestamp t

/-- The card shows the subject, the assignee and the description of the document. -/
structure TaskCard.Shows {Color : Type} (card : TaskCard Color) (doc : StackDoc) : Prop where
  subject : ∃ s, doc.subject.asString = some s ∧ card.subject = "題名 : " ++ interpolated s
  assignee : ∃ s, doc.assignee.asString = some s ∧ card.assignee = "担当者：" ++ interpolated s
  descrip : ∃ s, doc.descrip.asString = some s ∧ card.descrip = interpolated s

/-- The board that `bottomlistTask` builds from a snapshot has a card for every
document, the card at a position shows the document at that position, and the armed
button of the card deletes that document and no other. -/
def Paired {Color : Type} (format : Int → String) (b : Board Color) (snapshot : StackSnapshot) :
    Prop :=
  let board := b.bottomlistTask format snapshot
  board.itemCount = snapshot.documents.length ∧
    ∀ position doc, snapshot.documents[position]? = some doc →
      (∃ card, board.itemBuilder position = some card ∧ card.Shows doc) ∧
      (b.clickicondeleteTask = true → ∃ id after,
        board.onPressed snapshot position = some (some id, after) ∧
        deleteDocument snapshot.documents id = snapshot.documents.eraseIdx position)

namespace TaskBoardLemmas

theorem asString_isSome {v : FieldValue} : v.asString.isSome ↔ v.IsText := by
  cases v <;> simp [FieldValue.asString, FieldValue.IsText]

theorem microsecondsSinceEpoch_isSome {v : FieldValue} :
    v.microsecondsSinceEpoch.isSome ↔ ∃ t, v = .timestamp t := by
  cases v <;> simp [FieldValue.microsecondsSinceEpoch]

/-- A filter that drops nothing keeps the positions. -/
theorem getElem?_filterMap {α β : Type} {f : α → Option β} :
    ∀ {l : List α}, (∀ a ∈ l, (f a).isSome) → ∀ p : Nat, (l.filterMap f)[p]? = l[p]?.bind f
  | [], _, p => by simp
  | a :: l, h, p => by
    obtain ⟨b, hb⟩ := Option.isSome_iff_exists.mp (h a List.mem_cons_self)
    rw [List.filterMap_cons_some hb]
    cases p with
    | zero => simp [hb]
    | succ p =>
      simpa using getElem?_filterMap (fun a ha => h a (List.mem_cons_of_mem _ ha)) p

/-- Among documents with distinct ids, deleting by the id at a position removes that
position. -/
theorem deleteDocument_eq_eraseIdx :
    ∀ {docs : List StackDoc}, (docs.map StackDoc.documentID).Nodup →
      ∀ {p : Nat} {doc : StackDoc}, docs[p]? = some doc →
        deleteDocument docs doc.documentID = docs.eraseIdx p
  | [], _, p, doc, h => by simp at h
  | d :: docs, hnd, p, doc, h => by
    rw [List.map_cons, List.nodup_cons] at hnd
    obtain ⟨hd, hnd⟩ := hnd
    unfold deleteDocument
    cases p with
    | zero =>
      obtain rfl : d = doc := by simpa using h
      rw [List.filter_cons_of_neg (by simp), List.eraseIdx_cons_zero, List.filter_eq_self]
      intro d' hd'
      have hne : d'.documentID ≠ d.documentID := fun he => hd (he ▸ List.mem_map_of_mem hd')
      simpa using hne
    | succ p =>
      have hp : docs[p]? = some doc := by simpa using h
      have hne : d.documentID ≠ doc.documentID := by
        intro he
        exact hd (he ▸ List.mem_map_of_mem (List.mem_of_getElem? hp))
      rw [List.filter_cons_of_pos (by simpa using hne), List.eraseIdx_cons_succ]
      exact congrArg (d :: ·) (deleteDocument_eq_eraseIdx hnd hp)

section

variable {Color : Type} {format : Int → String} {b : Board Color} {snapshot : StackSnapshot}

/-- What the closure reads of a document. -/
theorem textlist_eq_some {doc : StackDoc} {t : TextFieldList} :
    textlist format doc = some t ↔
      doc.subject.asString = some t.textFieldSubject ∧
      doc.assignee.asString = some t.textFieldAssignee ∧
      doc.descrip.asString = some t.textFieldDescrip ∧
      ∃ micros, doc.timecreate.microsecondsSinceEpoch = some micros ∧
        t.datetimecreate = format micros := by
  obtain ⟨ts, ta, td, tt⟩ := t
  unfold textlist
  simp only [Option.bind_eq_bind, Option.bind_eq_some_iff, Option.pure_def, Option.some.injEq,
    TextFieldList.mk.injEq]
  constructor
  · rintro ⟨_, hs, _, ha, _, hd, micros, ht, rfl, rfl, rfl, rfl⟩
    exact ⟨hs, ha, hd, micros, ht, rfl⟩
  · rintro ⟨hs, ha, hd, micros, ht, htime⟩
    exact ⟨ts, hs, ta, ha, td, hd, micros, ht, rfl, rfl, rfl, htime.symm⟩

theorem textlist_isSome {doc : StackDoc} : (textlist format doc).isSome ↔ doc.Readable := by
  constructor
  · intro h
    obtain ⟨t, ht⟩ := Option.isSome_iff_exists.mp h
    obtain ⟨hs, ha, hd, micros, htime, -⟩ := textlist_eq_some.mp ht
    exact ⟨asString_isSome.mp (Option.isSome_of_eq_some hs),
      asString_isSome.mp (Option.isSome_of_eq_some ha),
      asString_isSome.mp (Option.isSome_of_eq_some hd),
      microsecondsSinceEpoch_isSome.mp (Option.isSome_of_eq_some htime)⟩
  · rintro ⟨hs, ha, hd, ht⟩
    obtain ⟨subject, hs⟩ := Option.isSome_iff_exists.mp (asString_isSome.mpr hs)
    obtain ⟨assignee, ha⟩ := Option.isSome_iff_exists.mp (asString_isSome.mpr ha)
    obtain ⟨descrip, hd⟩ := Option.isSome_iff_exists.mp (asString_isSome.mpr hd)
    obtain ⟨micros, ht⟩ := Option.isSome_iff_exists.mp (microsecondsSinceEpoch_isSome.mpr ht)
    have hsome : textlist format doc = some ⟨subject, assignee, descrip, format micros⟩ :=
      textlist_eq_some.mpr ⟨hs, ha, hd, micros, ht, rfl⟩
    rw [hsome]
    rfl

theorem listtextField_eq :
    (b.bottomlistTask format snapshot).listtextField =
      snapshot.documents.filterMap (textlist format) := by
  refine foldl_collect (fun acc doc => ?_) snapshot.documents []
  cases textlist format doc <;> simp

/-- One card a document, exactly when every document is readable. -/
theorem itemCount_eq_iff :
    (b.bottomlistTask format snapshot).itemCount = snapshot.documents.length ↔
      ∀ doc ∈ snapshot.documents, doc.Readable := by
  unfold Board.itemCount
  rw [listtextField_eq, List.filterMap_length_eq_length]
  simp only [textlist_isSome]

theorem shows_of_textlist {doc : StackDoc} {t : TextFieldList} (h : textlist format doc = some t)
    (color : Color) :
    TaskCard.Shows ⟨color, "題名 : " ++ interpolated t.textFieldSubject,
      "担当者：" ++ interpolated t.textFieldAssignee, interpolated t.textFieldDescrip,
      t.datetimecreate⟩ doc := by
  obtain ⟨hs, ha, hd, -⟩ := textlist_eq_some.mp h
  exact ⟨⟨_, hs, rfl⟩, ⟨_, ha, rfl⟩, ⟨_, hd, rfl⟩⟩

end

end TaskBoardLemmas

open TaskBoardLemmas

section

variable {Color : Type} {format : Int → String} {b : Board Color} {snapshot : StackSnapshot}

/-- A card that is built has a colour. -/
theorem lt_appColors_of_itemBuilder {position : Nat} {card : TaskCard Color}
    (h : b.itemBuilder position = some card) : position < b.appColors.length := by
  unfold Board.itemBuilder at h
  simp only [Option.bind_eq_bind, Option.bind_eq_some_iff] at h
  obtain ⟨color, hc, -⟩ := h
  exact (List.getElem?_eq_some_iff.mp hc).1

/-- When every document is readable, the card at a position with a colour is made of the
document at the position. -/
theorem itemBuilder_eq (hread : ∀ doc ∈ snapshot.documents, doc.Readable) {position : Nat}
    {doc : StackDoc} (hdoc : snapshot.documents[position]? = some doc)
    (hcolor : position < b.appColors.length) :
    ∃ t, textlist format doc = some t ∧
      (b.bottomlistTask format snapshot).itemBuilder position =
        some ⟨b.appColors[position], "題名 : " ++ interpolated t.textFieldSubject,
          "担当者：" ++ interpolated t.textFieldAssignee, interpolated t.textFieldDescrip,
          t.datetimecreate⟩ := by
  have hsome : ∀ d ∈ snapshot.documents, (textlist format d).isSome :=
    fun d hd => textlist_isSome.mpr (hread d hd)
  obtain ⟨t, ht⟩ := Option.isSome_iff_exists.mp (hsome doc (List.mem_of_getElem? hdoc))
  have hfield : (b.bottomlistTask format snapshot).listtextField[position]? = some t := by
    rw [listtextField_eq, getElem?_filterMap hsome, hdoc, Option.bind_some, ht]
  have happ : (b.bottomlistTask format snapshot).appColors[position]? =
      some b.appColors[position] := List.getElem?_eq_getElem hcolor
  refine ⟨t, ht, ?_⟩
  unfold Board.itemBuilder
  rw [happ, hfield]
  rfl

theorem itemBuilder_shows (hread : ∀ doc ∈ snapshot.documents, doc.Readable) {position : Nat}
    {doc : StackDoc} (hdoc : snapshot.documents[position]? = some doc)
    (hcolor : position < b.appColors.length) :
    ∃ card, (b.bottomlistTask format snapshot).itemBuilder position = some card ∧
      card.Shows doc := by
  obtain ⟨t, ht, hcard⟩ := itemBuilder_eq hread hdoc hcolor
  exact ⟨_, hcard, shows_of_textlist ht b.appColors[position]⟩

/-- The armed button of a position deletes the document at the position, whatever
the cards show. -/
theorem onPressed_deletes (harmed : b.clickicondeleteTask = true) {position : Nat} {doc : StackDoc}
    (hdoc : snapshot.documents[position]? = some doc) :
    b.onPressed snapshot position =
      some (some doc.documentID, { b with clickicondeleteTask := true }) := by
  unfold Board.onPressed
  rw [if_pos harmed, hdoc]
  rfl

end

/-- For every snapshot and every state of the page, cards and documents are paired if
and only if every document is readable, so that its time is known and its texts are
texts, and the page has been built at least as many times as there are documents. -/
theorem cards_paired_iff {Color : Type} (format : Int → String) (b : Board Color)
    (snapshot : StackSnapshot) :
    Paired format b snapshot ↔
      (∀ doc ∈ snapshot.documents, doc.Readable) ∧
        snapshot.documents.length ≤ b.appColors.length := by
  unfold Paired
  dsimp only
  rw [itemCount_eq_iff]
  constructor
  · rintro ⟨hread, hpair⟩
    refine ⟨hread, ?_⟩
    by_contra hlt
    -- the first position without a colour
    have hdoc : snapshot.documents[b.appColors.length]? =
        some snapshot.documents[b.appColors.length] := List.getElem?_eq_getElem (by omega)
    obtain ⟨⟨card, hcard, -⟩, -⟩ := hpair _ _ hdoc
    exact absurd (lt_appColors_of_itemBuilder hcard) (Nat.lt_irrefl _)
  · rintro ⟨hread, hcolors⟩
    refine ⟨hread, fun position doc hdoc => ⟨?_, fun harmed => ?_⟩⟩
    · have hlt : position < snapshot.documents.length := (List.getElem?_eq_some_iff.mp hdoc).1
      exact itemBuilder_shows hread hdoc (by omega)
    · exact ⟨_, _, onPressed_deletes (b := b.bottomlistTask format snapshot) harmed hdoc,
        deleteDocument_eq_eraseIdx snapshot.nodup hdoc⟩

/-- A task that this device has just created stands first, and its time is not known. -/
def pendingSnapshot : StackSnapshot where
  documents := [createtask "new" "新規" "田中" "" none, createtask "old" "旧" "佐藤" "" (some 0)]
  nodup := by decide

/-- The only card shows the old task and its armed button deletes the new one. -/
theorem pending_task_shifts_cards :
    let b : Board Nat := { appColors := [0, 1], clickicondeleteTask := true }
    let format : Int → String := fun _ => "1970年01月01(木) 09:00"
    let board := b.bottomlistTask format pendingSnapshot
    ¬ Paired format b pendingSnapshot ∧
      (board.itemBuilder 0).map TaskCard.subject = some "題名 : 旧" ∧
      (board.onPressed pendingSnapshot 0).map Prod.fst = some (some "new") := by
  refine ⟨fun h => ?_, by decide, by decide⟩
  have hcount := h.1
  revert hcount
  decide

end ShainManager
