import ShainManager.Chat
import ShainManager.Lib.Run

/-!
# The message field of the chat page

`callback` (`lib/ui/chat.dart`) passes the text of the field to `add`, awaits the add and
then clears the field, whatever it holds by then. Nothing keeps it from being called again
while an add is in flight.

Every edit gives the text of the field a new number, so that the text of one moment can be
told from the same words typed again.

* `nothing_lost_nothing_doubled`: the runs in which a clear erases only what has been passed
  to `add`, and no text is added twice.
* `typed_text_lost`: a run in which a text is erased that was never sent.
-/

namespace ShainManager

open Machine

/-- A text of the field, by its number, as a document. -/
abbrev NumberedDoc := Nat × MessageDoc

structure ChatField where
  text : String := ""
  version : Nat := 0
  /-- passed to `add`, which has not completed -/
  inFlight : List NumberedDoc := []
  /-- in the collection -/
  added : List NumberedDoc := []
  /-- everything passed to `add` so far -/
  passed : List NumberedDoc := []
deriving DecidableEq, Repr

inductive ChatEvent
  | edit (text : String)
  | trigger (date : Nat)
  | complete (k : Nat)
  | fail (k : Nat)
deriving DecidableEq, Repr

/-- One event on the page of `user` with the partner address `data`. Both the keyboard and
the button trigger `callback`. A failed add throws and leaves the field alone. -/
def chatStep (user data : String) (s : ChatField) : ChatEvent → Option ChatField
  | .edit text => some { s with text, version := s.version + 1 }
  | .trigger date =>
    match callback user data s.text date with
    | none => some s
    | some doc =>
      some { s with
        inFlight := s.inFlight ++ [(s.version, doc)]
        passed := s.passed ++ [(s.version, doc)] }
  | .complete k =>
    (s.inFlight[k]?).map fun m =>
      { s with inFlight := s.inFlight.eraseIdx k, added := s.added ++ [m], text := "" }
  | .fail k =>
    (s.inFlight[k]?).map fun _ => { s with inFlight := s.inFlight.eraseIdx k }

/-- What a clear would erase now has been passed to `add`. -/
def ChatField.ErasesPassed (s : ChatField) : Prop :=
  s.text = "" ∨ ∃ doc, (s.version, doc) ∈ s.passed ∧ doc.text = s.text

/-- No text has been added twice. -/
def ChatField.AddedOnce (s : ChatField) : Prop := (s.added.map Prod.fst).Nodup

/-- The field is edited, and its text sent, while no add is in flight. -/
def oneAtATime (s : ChatField) : ChatEvent → Prop
  | .edit _ => s.inFlight = []
  | .trigger _ => s.text.length > 0 → s.inFlight = []
  | .complete _ => True
  | .fail _ => True

instance (s : ChatField) : ∀ e, Decidable (oneAtATime s e)
  | .edit _ => inferInstanceAs (Decidable (_ = _))
  | .trigger _ => inferInstanceAs (Decidable (_ → _))
  | .complete _ | .fail _ => .isTrue trivial

namespace ChatSendLemmas

variable {user data : String} {s s' : ChatField}

/-- At most the text of the field is in flight. -/
structure SentOnce (s : ChatField) : Prop where
  flight : s.inFlight = [] ∨ ∃ doc, s.inFlight = [(s.version, doc)] ∧
    (s.version, doc) ∈ s.passed ∧ doc.text = s.text ∧ s.text ≠ ""
  fresh : s.text ≠ "" → ∀ m ∈ s.added, m.1 < s.version
  le : ∀ m ∈ s.added, m.1 ≤ s.version
  nodup : s.AddedOnce

/-- What `callback` adds has the text of the field, which is not empty. -/
theorem text_of_callback {text : String} {date : Nat} {doc : MessageDoc}
    (h : callback user data text date = some doc) : text.length > 0 ∧ doc.text = text := by
  unfold callback at h
  split at h
  · next hlen =>
    cases h
    exact ⟨hlen, rfl⟩
  · cases h

theorem ne_empty_of_length {text : String} (h : text.length > 0) : text ≠ "" := by
  rintro rfl
  exact absurd h (by decide)

/-- The add that completes or fails is the only one. -/
theorem SentOnce.only {k : Nat} {m : NumberedDoc} (h : SentOnce s) (hk : s.inFlight[k]? = some m) :
    s.inFlight.eraseIdx k = [] ∧ m.1 = s.version ∧ s.text ≠ "" := by
  rcases h.flight with hnil | ⟨doc, hone, -, -, htext⟩
  · rw [hnil] at hk
    cases hk
  · rw [hone] at hk
    cases k with
    | zero =>
      cases hk
      exact ⟨by rw [hone]; rfl, rfl, htext⟩
    | succ k => cases hk

theorem sentOnce_trigger {date : Nat} (h : SentOnce s) (hok : oneAtATime s (.trigger date))
    (hs : chatStep user data s (.trigger date) = some s') : SentOnce s' := by
  simp only [chatStep] at hs
  split at hs
  · cases hs
    exact h
  · next doc hdoc =>
    obtain ⟨hlen, htext⟩ := text_of_callback hdoc
    cases hs
    refine ⟨.inr ⟨doc, ?_, ?_, htext, ne_empty_of_length hlen⟩, h.fresh, h.le, h.nodup⟩
    · dsimp only
      rw [hok hlen]
      rfl
    · exact List.mem_append_right _ (List.mem_singleton.mpr rfl)

theorem sentOnce_complete {k : Nat} {m : NumberedDoc} (h : SentOnce s)
    (hk : s.inFlight[k]? = some m) :
    SentOnce { s with inFlight := s.inFlight.eraseIdx k, added := s.added ++ [m], text := "" } := by
  obtain ⟨hrest, hversion, htext⟩ := h.only hk
  refine ⟨.inl hrest, ?_, ?_, ?_⟩
  · intro hne
    exact absurd rfl hne
  · intro x hx
    rcases List.mem_append.mp hx with hx | hx
    · exact h.le x hx
    · rw [List.mem_singleton.mp hx]
      exact Nat.le_of_eq hversion
  · -- the number of the field is larger than those in the collection
    unfold ChatField.AddedOnce
    dsimp only
    rw [List.map_append, List.nodup_append]
    refine ⟨h.nodup, by simp, ?_⟩
    intro a ha b hb
    obtain ⟨x, hx, rfl⟩ := List.mem_map.mp ha
    rw [List.map_singleton, List.mem_singleton] at hb
    rw [hb, hversion]
    exact Nat.ne_of_lt (h.fresh htext x hx)

theorem sentOnce_step {e : ChatEvent} (h : SentOnce s) (hok : oneAtATime s e)
    (hs : chatStep user data s e = some s') : SentOnce s' := by
  cases e with
  | edit text =>
    cases hs
    refine ⟨.inl hok, fun _ m hm => ?_, fun m hm => ?_, h.nodup⟩
    · exact Nat.lt_succ_of_le (h.le m hm)
    · exact Nat.le_succ_of_le (h.le m hm)
  | trigger date => exact sentOnce_trigger h hok hs
  | complete k =>
    obtain ⟨m, hm, rfl⟩ := Option.map_eq_some_iff.mp hs
    exact sentOnce_complete h hm
  | fail k =>
    obtain ⟨m, hm, rfl⟩ := Option.map_eq_some_iff.mp hs
    exact ⟨.inl (h.only hm).1, h.fresh, h.le, h.nodup⟩

theorem sentOnce_init : SentOnce {} :=
  ⟨.inl rfl, fun h => absurd rfl h, fun _ hm => absurd hm List.not_mem_nil, List.nodup_nil⟩

end ChatSendLemmas

open ChatSendLemmas

/-- In every run in which the field is edited, and its text sent, while no add is in flight:
an add that completes clears a text that has been passed to `add`, and no text is added
twice. -/
theorem nothing_lost_nothing_doubled {user data : String} {s : ChatField}
    (h : Reach (chatStep user data) oneAtATime {} s) :
    (∀ {k s'}, chatStep user data s (.complete k) = some s' → s.ErasesPassed) ∧ s.AddedOnce := by
  have hinv : SentOnce s := h.invariant sentOnce_init fun _ hi hok hs => sentOnce_step hi hok hs
  refine ⟨fun {k s'} hs => ?_, hinv.nodup⟩
  obtain ⟨m, hm, -⟩ := Option.map_eq_some_iff.mp hs
  rcases hinv.flight with hnil | ⟨doc, -, hpassed, htext, -⟩
  · rw [hnil] at hm
    cases hm
  · exact .inr ⟨doc, hpassed, htext⟩

/-- Two messages, the first sent again after its add has failed. -/
def politeChat : List ChatEvent :=
  [.edit "おはよう", .trigger 1, .fail 0, .trigger 2, .complete 0, .edit "行きます", .trigger 3]

theorem nothing_lost_politeChat :
    ∃ s, Reach (chatStep "a@x" "b@x") oneAtATime {} s ∧ s.text = "行きます" ∧
      (chatStep "a@x" "b@x" s (.complete 0)).isSome = true ∧ s.ErasesPassed ∧ s.AddedOnce := by
  obtain ⟨s, hr, htext, hsome⟩ := exists_reach_of_run (chatStep "a@x" "b@x") oneAtATime {}
    politeChat
    (p := fun s => s.text = "行きます" ∧
      (chatStep "a@x" "b@x" s (.complete 0)).isSome = true) (by decide)
  obtain ⟨s', hs'⟩ := Option.isSome_iff_exists.mp hsome
  obtain ⟨herases, honce⟩ := nothing_lost_nothing_doubled hr
  exact ⟨s, hr, htext, hsome, herases hs', honce⟩

/-- The user types on while the first message is on its way. -/
def typingOn : List ChatEvent := [.edit "おはよう", .trigger 1, .edit "行きます"]

/-- The button is tapped twice. -/
def tappedTwice : List ChatEvent :=
  [.edit "おはよう", .trigger 1, .trigger 2, .complete 0, .complete 0]

/-- The completion of the first add erases a text that was never sent, and a text that is
sent twice without an edit is added twice. -/
theorem typed_text_lost :
    (∃ s, Reach (chatStep "a@x" "b@x") anyStep {} s ∧
      (chatStep "a@x" "b@x" s (.complete 0)).isSome = true ∧ ¬ s.ErasesPassed) ∧
    ∃ s, Reach (chatStep "a@x" "b@x") anyStep {} s ∧ ¬ s.AddedOnce := by
  constructor
  · obtain ⟨s, hr, htext, hsome, hpassed⟩ := exists_reach_of_run (chatStep "a@x" "b@x") anyStep
      {} typingOn
      (p := fun s => s.text = "行きます" ∧
        (chatStep "a@x" "b@x" s (.complete 0)).isSome = true ∧
        s.passed.map (·.2.text) = ["おはよう"]) (by decide)
    refine ⟨s, hr, hsome, ?_⟩
    rintro (hnil | ⟨doc, hdoc, hsame⟩)
    · exact absurd (htext.symm.trans hnil) (by decide)
    · have hmem : doc.text ∈ s.passed.map (·.2.text) := List.mem_map.mpr ⟨_, hdoc, rfl⟩
      rw [hpassed, List.mem_singleton, hsame, htext] at hmem
      exact absurd hmem (by decide)
  · obtain ⟨s, hr, hp⟩ := exists_reach_of_run (chatStep "a@x" "b@x") anyStep {} tappedTwice
      (p := fun s => s.added.map Prod.fst = [1, 1]) (by decide)
    refine ⟨s, hr, ?_⟩
    unfold ChatField.AddedOnce
    rw [hp]
    decide

end ShainManager
