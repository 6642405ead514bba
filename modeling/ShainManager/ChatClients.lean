import Mathlib.Logic.Function.Basic
import ShainManager.Chat
import ShainManager.Lib.Collection
import ShainManager.Lib.Run

/-!
# The chat on several devices

`callback` (`lib/ui/chat.dart`) adds a document to the shared collection `messages`, from which
nothing is deleted. A device shows its own messages before they are stored, after the others since
they have no date yet, and it hears of stored messages later. The server's clock goes forward.

* `conversation_only_grows`: as long as no add of the device fails, a page loses no message that it
  has shown, whatever the devices do in between.
* `conversations_agree`: each stored message is one call of `callback`; the pages of two users on
  devices that have heard everything show the same conversation, by date.
-/

namespace ShainManager

open Machine Collection

/-! ## Devices -/

/-- A document of `messages` with its id. A message that is not stored has no date: it has the
date 0 here, which no page reads. -/
structure ChatDoc where
  documentID : Nat
  doc : MessageDoc
deriving DecidableEq, Repr

/-- How many stored messages a device has heard of, and its messages that are not stored as far as
it knows. -/
structure ChatDevice where
  received : Nat := 0
  pending : List ChatDoc := []
deriving DecidableEq, Repr

/-- A call of `callback`. -/
structure SendCall where
  user : String
  data : String
  text : String
deriving DecidableEq, Repr

/-- The collection in the order of the dates, the devices, and the calls of `callback` that have
added a document, each under the id of the document. -/
structure Messenger where
  log : List ChatDoc := []
  devices : Nat → ChatDevice := fun _ => {}
  calls : List SendCall := []

/-- The page of `user` with the partner address `data` on a device. -/
def Messenger.page (s : Messenger) (i : Nat) (user data : String) : List (Mapdata String) :=
  messages user data ((seen s.log (s.devices i).received (s.devices i).pending).map ChatDoc.doc)

/-- * `send i call`: `callback` on the device `i`;
* `store i k date`: the server stores the message `k` of those pending on the device;
* `receive i n`: the device hears of the first `n` stored messages;
* `fail i k`: an add fails, and the device takes the message back. -/
inductive MessengerEvent
  | send (i : Nat) (call : SendCall)
  | store (i k date : Nat)
  | receive (i n : Nat)
  | fail (i k : Nat)
deriving DecidableEq, Repr

def Messenger.setDevice (s : Messenger) (i : Nat) (d : ChatDevice) : Messenger :=
  { s with devices := Function.update s.devices i d }

def messengerStep (s : Messenger) : MessengerEvent → Option Messenger
  | .send i call =>
    let d := s.devices i
    match callback call.user call.data call.text 0 with
    | none => some s
    | some doc =>
      some { s.setDevice i { d with pending := d.pending ++ [⟨s.calls.length, doc⟩] } with
        calls := s.calls ++ [call] }
  | .store i k date =>
    match (s.devices i).pending[k]? with
    | none => none
    | some m =>
      if m.documentID ∉ s.log.map ChatDoc.documentID ∧ ∀ m' ∈ s.log, m'.doc.date < date then
        some { s with log := s.log ++ [{ m with doc := { m.doc with date } }] }
      else none
  | .receive i n =>
    let d := s.devices i
    if d.received ≤ n ∧ n ≤ s.log.length then
      some (s.setDevice i { d with
        received := n
        pending := unheard ChatDoc.documentID (s.log.take n) d.pending })
    else none
  | .fail i k =>
    let d := s.devices i
    match d.pending[k]? with
    | none => none
    | some m =>
      if m.documentID ∉ s.log.map ChatDoc.documentID then
        some (s.setDevice i { d with pending := d.pending.eraseIdx k })
      else none

/-- No add of the device fails. -/
def Delivers (i : Nat) (_ : Messenger) : MessengerEvent → Prop
  | .fail j _ => j ≠ i
  | _ => True

instance (i : Nat) (s : Messenger) : ∀ e, Decidable (Delivers i s e)
  | .fail _ _ => inferInstanceAs (Decidable (_ ≠ _))
  | .send _ _ | .store _ _ _ | .receive _ _ => .isTrue trivial

/-! ## What a run keeps -/

/-- The document is that of its call. -/
def ChatDoc.Of (calls : List SendCall) (m : ChatDoc) : Prop :=
  ∃ call, calls[m.documentID]? = some call ∧
    callback call.user call.data call.text m.doc.date = some m.doc

/-- What no page reads, taken away. -/
def ChatDoc.undated (m : ChatDoc) : ChatDoc := { m with doc := { m.doc with date := 0 } }

/-- The pending messages of a device differ from each other and from what it has heard of, and
each is that of its call. -/
structure DeviceInv (log : List ChatDoc) (calls : List SendCall) (d : ChatDevice) : Prop where
  received : d.received ≤ log.length
  ids : (d.pending.map ChatDoc.documentID).Nodup
  calls : ∀ m ∈ d.pending, m.Of calls
  unheard : ∀ m ∈ d.pending, m.documentID ∉ (log.take d.received).map ChatDoc.documentID

structure MessengerInv (s : Messenger) : Prop where
  ids : (s.log.map ChatDoc.documentID).Nodup
  order : s.log.Pairwise fun m m' => m.doc.date < m'.doc.date
  calls : ∀ m ∈ s.log, m.Of s.calls
  devices : ∀ i, DeviceInv s.log s.calls (s.devices i)

namespace ChatClientsLemmas

variable {s s' : Messenger} {log log' : List ChatDoc} {calls calls' : List SendCall}
  {d : ChatDevice}

theorem callback_date {user data text : String} {date date' : Nat} {doc : MessageDoc}
    (h : callback user data text date = some doc) :
    callback user data text date' = some { doc with date := date' } := by
  unfold callback at h ⊢
  split at h
  · next hlen =>
    cases h
    rw [if_pos hlen]
  · cases h

theorem of_dated {m : ChatDoc} (h : m.Of calls) (date : Nat) :
    ChatDoc.Of calls { m with doc := { m.doc with date } } := by
  obtain ⟨call, hcall, hdoc⟩ := h
  exact ⟨call, hcall, callback_date hdoc⟩

theorem of_mono {m : ChatDoc} (h : m.Of calls) (hcalls : calls <+: calls') : m.Of calls' := by
  obtain ⟨call, hcall, hdoc⟩ := h
  obtain ⟨rest, rfl⟩ := hcalls
  have hlt := (List.getElem?_eq_some_iff.mp hcall).1
  exact ⟨call, by rwa [List.getElem?_append_left hlt], hdoc⟩

/-- Documents of one call differ in their dates only. -/
theorem undated_eq_of_documentID {m m' : ChatDoc} (h : m.Of calls) (h' : m'.Of calls)
    (he : m.documentID = m'.documentID) : m.undated = m'.undated := by
  obtain ⟨call, hcall, hdoc⟩ := h
  obtain ⟨call', hcall', hdoc'⟩ := h'
  rw [he, hcall', Option.some.injEq] at hcall
  subst hcall
  have hundated : { m.doc with date := 0 } = { m'.doc with date := 0 } :=
    Option.some.inj ((callback_date hdoc).symm.trans (callback_date hdoc'))
  unfold ChatDoc.undated
  rw [he, hundated]

/-- More stored messages and more calls change nothing for a device. -/
theorem deviceInv_mono (h : DeviceInv log calls d) (hlog : log <+: log')
    (hcalls : calls <+: calls') : DeviceInv log' calls' d := by
  obtain ⟨rest, rfl⟩ := hlog
  refine ⟨h.received.trans (by simp), h.ids, fun m hm => of_mono (h.calls m hm) hcalls, ?_⟩
  rw [List.take_append_of_le_length h.received]
  exact h.unheard

theorem deviceInv_update (i : Nat) (h : ∀ j, DeviceInv log calls (s.devices j))
    (hd : DeviceInv log calls d) (j : Nat) :
    DeviceInv log calls (Function.update s.devices i d j) :=
  (Function.forall_update_iff s.devices fun _ => DeviceInv log calls).mpr ⟨hd, fun j _ => h j⟩ j

theorem documentID_lt {m : ChatDoc} (h : m.Of calls) : m.documentID < calls.length := by
  obtain ⟨call, hcall, -⟩ := h
  exact (List.getElem?_eq_some_iff.mp hcall).1

theorem inv_send (h : MessengerInv s) {i : Nat} {call : SendCall}
    (hs : messengerStep s (.send i call) = some s') : MessengerInv s' := by
  simp only [messengerStep] at hs
  split at hs
  · cases hs
    exact h
  · next doc hdoc =>
    cases hs
    have hcalls : s.calls <+: s.calls ++ [call] := List.prefix_append _ _
    have hdevices := fun j => deviceInv_mono (h.devices j) (List.prefix_refl _) hcalls
    refine ⟨h.ids, h.order, fun m hm => of_mono (h.calls m hm) hcalls,
      deviceInv_update i hdevices ?_⟩
    -- the new document has the first free id
    have hfresh : ∀ m : ChatDoc, m.Of s.calls → m.documentID ≠ s.calls.length :=
      fun m hm => (documentID_lt hm).ne
    refine ⟨(hdevices i).received, ?_, ?_, ?_⟩
    · rw [List.map_append, List.map_singleton, ← List.concat_eq_append]
      refine (h.devices i).ids.concat fun hmem => ?_
      obtain ⟨m, hm, he⟩ := List.mem_map.mp hmem
      exact hfresh m ((h.devices i).calls m hm) he
    · refine List.forall_mem_append.mpr ⟨(hdevices i).calls, List.forall_mem_singleton.mpr ?_⟩
      exact ⟨call, List.getElem?_concat_length, callback_date hdoc⟩
    · refine List.forall_mem_append.mpr ⟨(hdevices i).unheard, List.forall_mem_singleton.mpr ?_⟩
      intro hmem
      obtain ⟨m, hm, he⟩ := List.mem_map.mp hmem
      exact hfresh m (h.calls m (List.mem_of_mem_take hm)) he

theorem inv_messengerStore (h : MessengerInv s) {i k date : Nat}
    (hs : messengerStep s (.store i k date) = some s') : MessengerInv s' := by
  simp only [messengerStep] at hs
  split at hs
  · cases hs
  · next m hm =>
    split at hs
    · next hnew =>
      cases hs
      refine ⟨?_, ?_, ?_, fun j => deviceInv_mono (h.devices j) (List.prefix_append _ _)
        (List.prefix_refl _)⟩
      · rw [List.map_append, List.map_singleton, ← List.concat_eq_append]
        exact h.ids.concat hnew.1
      · rw [List.pairwise_append]
        exact ⟨h.order, List.pairwise_singleton _ _,
          fun m' hm' => List.forall_mem_singleton.mpr (hnew.2 m' hm')⟩
      · refine List.forall_mem_append.mpr ⟨h.calls, List.forall_mem_singleton.mpr ?_⟩
        exact of_dated ((h.devices i).calls m (List.mem_of_getElem? hm)) date
    · cases hs

theorem inv_messengerReceive (h : MessengerInv s) {i n : Nat}
    (hs : messengerStep s (.receive i n) = some s') : MessengerInv s' := by
  simp only [messengerStep] at hs
  split at hs
  · next hn =>
    cases hs
    have hd := h.devices i
    refine ⟨h.ids, h.order, h.calls, deviceInv_update i h.devices ⟨hn.2, ?_, ?_, ?_⟩⟩
    · exact hd.ids.sublist (List.filter_sublist.map _)
    · exact fun m hm => hd.calls m (mem_unheard.mp hm).1
    · exact fun m hm => (mem_unheard.mp hm).2
  · cases hs

theorem inv_fail (h : MessengerInv s) {i k : Nat}
    (hs : messengerStep s (.fail i k) = some s') : MessengerInv s' := by
  simp only [messengerStep] at hs
  split at hs
  · cases hs
  · split at hs
    · cases hs
      have hd := h.devices i
      have hsub := List.eraseIdx_sublist (s.devices i).pending k
      exact ⟨h.ids, h.order, h.calls, deviceInv_update i h.devices
        ⟨hd.received, hd.ids.sublist (hsub.map _), fun m hm => hd.calls m (hsub.subset hm),
          fun m hm => hd.unheard m (hsub.subset hm)⟩⟩
    · cases hs

theorem messengerInv_reachable (h : Reach messengerStep anyStep {} s) : MessengerInv s := by
  refine h.invariant ⟨?_, ?_, ?_, fun _ => ⟨?_, ?_, ?_, ?_⟩⟩ ?_
  iterate 7 simp
  intro s e s' _ hinv _ hs
  cases e with
  | send i call => exact inv_send hinv hs
  | store i k date => exact inv_messengerStore hinv hs
  | receive i n => exact inv_messengerReceive hinv hs
  | fail i k => exact inv_fail hinv hs

/-! The pages -/

/-- A page does not read the dates. -/
theorem messages_undated (user data : String) (docs : List ChatDoc) :
    messages user data (docs.map ChatDoc.doc) =
      ((docs.map ChatDoc.undated).filter fun m => decide (KeyOf user data m.doc.to_)).map
        fun m => mapdata user m.doc := by
  rw [messages_eq, List.filter_map, List.filter_map, List.map_map, List.map_map]
  rfl

/-- What one page shows, another shows, where the documents are there but for their dates. -/
theorem messages_subperm {docs docs' : List ChatDoc} (user data : String)
    (h : (docs.map ChatDoc.undated).Subperm (docs'.map ChatDoc.undated)) :
    (messages user data (docs.map ChatDoc.doc)).Subperm
      (messages user data (docs'.map ChatDoc.doc)) := by
  rw [messages_undated, messages_undated]
  obtain ⟨l, hperm, hsub⟩ := h.filter fun m => decide (KeyOf user data m.doc.to_)
  exact ⟨_, hperm.map _, hsub.map _⟩

theorem setDevice_page (i j : Nat) (user data : String) :
    (s.setDevice i d).page j user data =
      if j = i then messages user data ((seen s.log d.received d.pending).map ChatDoc.doc)
      else s.page j user data := by
  unfold Messenger.page Messenger.setDevice
  dsimp only
  split
  · next hj => rw [hj, Function.update_self]
  · next hj => rw [Function.update_of_ne hj]

theorem page_receive (h : MessengerInv s) {i n : Nat} (hn : (s.devices i).received ≤ n)
    (user data : String) :
    (s.page i user data).Subperm (messages user data ((seen s.log n
      (unheard ChatDoc.documentID (s.log.take n) (s.devices i).pending)).map ChatDoc.doc)) := by
  have hd := h.devices i
  refine messages_subperm user data (seen_subperm hn ?_ hd.unheard ?_)
  · -- the ids are left by `undated`
    have hids : ((s.devices i).pending.map ChatDoc.undated).map ChatDoc.documentID =
        (s.devices i).pending.map ChatDoc.documentID := by
      rw [List.map_map]
      rfl
    exact List.Nodup.of_map ChatDoc.documentID (hids ▸ hd.ids)
  · exact fun m hm m' hm' he => undated_eq_of_documentID (hd.calls m hm) (h.calls m' hm') he

/-- A step other than a failed add of the device. -/
theorem page_step (h : MessengerInv s) {i : Nat} {e : MessengerEvent} (hok : Delivers i s e)
    (hs : messengerStep s e = some s') (user data : String) :
    (s.page i user data).Subperm (s'.page i user data) := by
  cases e with
  | send j call =>
    simp only [messengerStep] at hs
    split at hs
    · cases hs
      exact .refl _
    · next doc _ =>
      cases hs
      change (s.page i user data).Subperm ((s.setDevice j _).page i user data)
      rw [setDevice_page]
      split
      · next hi =>
        subst hi
        refine messages_subperm user data (List.Sublist.subperm (List.Sublist.map _ ?_))
        exact (List.sublist_append_left _ _).append_left _
      · exact .refl _
  | store j k date =>
    simp only [messengerStep] at hs
    split at hs
    · cases hs
    · split at hs
      · cases hs
        unfold Messenger.page seen
        dsimp only
        rw [List.take_append_of_le_length (h.devices i).received]
      · cases hs
  | receive j n =>
    simp only [messengerStep] at hs
    split at hs
    · next hn =>
      cases hs
      rw [setDevice_page]
      split
      · next hi =>
        subst hi
        exact page_receive h hn.1 user data
      · exact .refl _
    · cases hs
  | fail j k =>
    simp only [messengerStep] at hs
    split at hs
    · cases hs
    · split at hs
      · cases hs
        rw [setDevice_page, if_neg (Ne.symm hok)]
      · cases hs

end ChatClientsLemmas

open ChatClientsLemmas

variable {s s' : Messenger}

/-- From every reachable state, whatever the devices then send, store and hear of, in any order, a
page of a device none of whose adds fails still shows every message that it showed, as many times
as it showed it. -/
theorem conversation_only_grows {i : Nat} (h : Reach messengerStep anyStep {} s)
    (h' : Reach messengerStep (Delivers i) s s') (user data : String) :
    (s.page i user data).Subperm (s'.page i user data) := by
  refine (h'.invariant (I := fun s' => Reach messengerStep anyStep {} s' ∧
    (s.page i user data).Subperm (s'.page i user data)) ⟨h, .refl _⟩ ?_).2
  intro t e t' _ ih hok hs
  exact ⟨ih.1.next trivial hs,
    ih.2.trans (page_step (messengerInv_reachable ih.1) hok hs user data)⟩

/-- A message is on its way when an answer is stored, which was sent before the message was heard
of: the page shows the message first and then second. -/
theorem conversation_only_grows_crossing :
    ∃ s s', Reach messengerStep anyStep {} s ∧ Reach messengerStep (Delivers 0) s s' ∧
      (s.page 0 "u@a.com" "v@a.com").map Mapdata.text = ["hello"] ∧
      (s'.page 0 "u@a.com" "v@a.com").map Mapdata.text = ["hi", "hello"] ∧
      (s.page 0 "u@a.com" "v@a.com").Subperm (s'.page 0 "u@a.com" "v@a.com") := by
  obtain ⟨s, s', hs, hs', hbefore, hafter⟩ := exists_reach_of_run_run messengerStep (Delivers 0) {}
    [.send 0 ⟨"u@a.com", "v@a.com", "hello"⟩, .send 1 ⟨"v@a.com", "u@a.com", "hi"⟩]
    [.store 1 0 5, .receive 0 1, .store 0 0 6, .receive 0 2]
    (p := fun s s' => (s.page 0 "u@a.com" "v@a.com").map Mapdata.text = ["hello"] ∧
      (s'.page 0 "u@a.com" "v@a.com").map Mapdata.text = ["hi", "hello"]) (by decide)
  exact ⟨s, s', hs.any, hs', hbefore, hafter, conversation_only_grows hs.any hs' _ _⟩

/-! ## Both ends of a conversation -/

/-- What both pages of a conversation can show alike: the sender and the text. -/
def Mapdata.said (m : Mapdata String) : String × String := (m.from_, m.text)

/-- The device has heard of every stored message, and none of its own is on its way. -/
def Messenger.Settled (s : Messenger) (i : Nat) : Prop :=
  (s.devices i).received = s.log.length ∧ (s.devices i).pending = []

instance Messenger.decidableSettled (s : Messenger) (i : Nat) : Decidable (s.Settled i) :=
  inferInstanceAs (Decidable (_ ∧ _))

/-- Apart from the side of the lines, it does not matter whose page it is. -/
theorem said_messages (user data : String) (docs : List MessageDoc) :
    (messages user data docs).map Mapdata.said =
      (docs.filter fun doc => decide (KeyOf user data doc.to_)).map fun doc =>
        (doc.from_, doc.text) := by
  rw [messages_eq, List.map_map]
  rfl

theorem said_swap (user data : String) (docs : List MessageDoc) :
    (messages user data docs).map Mapdata.said = (messages data user docs).map Mapdata.said := by
  rw [said_messages, said_messages]
  congr 1
  refine List.filter_congr fun doc _ => decide_eq_decide.mpr ?_
  unfold KeyOf
  exact or_comm

theorem said_prefix {docs docs' : List MessageDoc} (user data : String) (h : docs <+: docs') :
    (messages user data docs).map Mapdata.said <+: (messages data user docs').map Mapdata.said := by
  rw [said_swap, said_messages, said_messages]
  exact (h.filter _).map _

/-- In every reachable state the stored messages have different ids, are in the order of their
dates, and each is the document of one call of `callback`. A page on a device with nothing of its
own on its way shows the beginning of what the page of the partner shows on a device that has heard
at least as much, and the two pages show the same once both devices have heard everything. -/
theorem conversations_agree (h : Reach messengerStep anyStep {} s) (u v : String) :
    ((s.log.map ChatDoc.documentID).Nodup ∧
      s.log.Pairwise (fun m m' => m.doc.date < m'.doc.date) ∧ ∀ m ∈ s.log, m.Of s.calls) ∧
    (∀ i j, (s.devices i).pending = [] → (s.devices i).received ≤ (s.devices j).received →
      (s.page i u v).map Mapdata.said <+: (s.page j v u).map Mapdata.said) ∧
    ∀ i j, s.Settled i → s.Settled j →
      (s.page i u v).map Mapdata.said = (s.page j v u).map Mapdata.said := by
  have hinv := messengerInv_reachable h
  refine ⟨⟨hinv.ids, hinv.order, hinv.calls⟩, fun i j hi hle => ?_, fun i j hi hj => ?_⟩
  · refine said_prefix u v (List.IsPrefix.map _ ?_)
    unfold seen
    rw [hi, List.append_nil]
    exact (List.take_prefix_take_left hle).trans (List.prefix_append _ _)
  · unfold Messenger.page
    rw [hi.1, hi.2, hj.1, hj.2]
    exact said_swap u v _

theorem conversations_agree_crossing :
    ∃ s, Reach messengerStep anyStep {} s ∧ s.Settled 0 ∧ s.Settled 1 ∧
      (s.page 0 "u@a.com" "v@a.com").map Mapdata.boolme = [false, true] ∧
      (s.page 1 "v@a.com" "u@a.com").map Mapdata.boolme = [true, false] ∧
      (s.page 0 "u@a.com" "v@a.com").map Mapdata.said =
        (s.page 1 "v@a.com" "u@a.com").map Mapdata.said := by
  obtain ⟨s, hs, h0, h1, hme⟩ := exists_reach_of_run messengerStep anyStep {}
    [.send 0 ⟨"u@a.com", "v@a.com", "hello"⟩, .send 1 ⟨"v@a.com", "u@a.com", "hi"⟩, .store 1 0 5,
      .store 0 0 6, .receive 0 2, .receive 1 2]
    (p := fun s => s.Settled 0 ∧ s.Settled 1 ∧
      (s.page 0 "u@a.com" "v@a.com").map Mapdata.boolme = [false, true] ∧
      (s.page 1 "v@a.com" "u@a.com").map Mapdata.boolme = [true, false]) (by decide)
  exact ⟨s, hs, h0, h1, hme.1, hme.2, (conversations_agree hs _ _).2.2 0 1 h0 h1⟩

end ShainManager
