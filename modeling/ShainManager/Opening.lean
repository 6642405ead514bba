import ShainManager.Lib.Run
import ShainManager.SqliteMap

/-!
# Opening the database

`lib/sqllite/database_helper.dart`. Every method of `DatabaseHelper` first awaits the getter
`db`. The getter returns the static field `_db` when it is set. Otherwise it runs `initDb`,
which awaits the documents directory and then `openDatabase`, and sets the field at the end.
Nothing keeps a second call from running `initDb` while the first still waits.

`openDatabase` of package sqflite hands out one database for a path, and calls `onCreate` when
there is no file yet. A continuation that is ready runs in the order in which it became ready.
A new process finds the file and an empty field.

* `helper_refines_map`: whatever the calls wait for, and however often the process ends, the
  statements are answered as a finite map answers them, each at most once.
* `calls_in_order_iff`: the runs in which no call overtakes an earlier one.
* `helper_is_queue`: in those the helper executes the calls in the order in which they were made.
* `later_read_overtakes`: a run in which one does overtake.
-/

namespace ShainManager

open Machine Simulation

/-- A call by its number. -/
structure HelperCall where
  number : Nat
  call : DbCall
deriving DecidableEq, Repr

/-- What `initDb` waits for. -/
inductive InitDb
  | documentsDirectory
  | openDatabase
deriving DecidableEq, Repr

/-- A statement that has been executed. -/
structure Executed where
  by_ : HelperCall
  answer : DbAnswer
deriving DecidableEq, Repr

/-- `file` is the table in `manager.db`, `db` tells whether the field `_db` is set. `calls` are
all calls so far, `opening` those that run `initDb`, and `ready` those that have the database. -/
structure HelperState where
  file : Option Manageremps := none
  db : Bool := false
  calls : List DbCall := []
  opening : List (HelperCall × InitDb) := []
  ready : List HelperCall := []
  executed : List Executed := []
deriving DecidableEq

inductive HelperEvent
  | call (c : DbCall)
  | directory (j : Nat)
  | opened (j : Nat)
  | openFailed (j : Nat)
  | exec
  | restart
deriving DecidableEq, Repr

def helperStep (ra : Rowid) (s : HelperState) : HelperEvent → Option HelperState
  | .call c =>
    let me : HelperCall := { number := s.calls.length, call := c }
    if s.db then some { s with calls := s.calls ++ [c], ready := s.ready ++ [me] }
    else some { s with
      calls := s.calls ++ [c]
      opening := s.opening ++ [(me, .documentsDirectory)] }
  | .directory j =>
    match s.opening[j]? with
    | some (me, .documentsDirectory) =>
      some { s with opening := s.opening.set j (me, .openDatabase) }
    | _ => none
  | .opened j =>
    match s.opening[j]? with
    | some (me, .openDatabase) =>
      some { s with
        -- `onCreate` runs when there is no file
        file := some (s.file.getD onCreate)
        db := true
        opening := s.opening.eraseIdx j
        ready := s.ready ++ [me] }
    | _ => none
  | .openFailed j =>
    match s.opening[j]? with
    | some _ => some { s with opening := s.opening.eraseIdx j }
    | none => none
  | .exec =>
    match s.ready with
    | [] => none
    | me :: ready =>
      match s.file with
      -- no such table
      | none => some { s with ready, executed := s.executed ++ [⟨me, .failed⟩] }
      | some t =>
        some { s with
          file := some (dbCall ra t me.call).2
          ready
          executed := s.executed ++ [⟨me, (dbCall ra t me.call).1⟩] }
  | .restart => some { s with db := false, opening := [], ready := [] }

/-! ## The order of the calls -/

/-- The numbers of the calls that got the database, in the order in which they did. -/
def HelperState.got (s : HelperState) : List Nat :=
  s.executed.map (fun x => x.by_.number) ++ s.ready.map HelperCall.number

/-- The calls got the database in the order in which they were made, and those that still wait
for it were made later. -/
def HelperState.InOrder (s : HelperState) : Prop :=
  s.got.Pairwise (· < ·) ∧ ∀ n ∈ s.got, ∀ x ∈ s.opening, n < x.1.number

/-- With the field set, a call is made only when none still runs `initDb`; and the oldest of
those that do is the next to finish. -/
def inTurn (s : HelperState) : HelperEvent → Prop
  | .call _ => s.db = true → s.opening = []
  | .opened j => j = 0
  | _ => True

/-- The same, in one process and without failures. -/
def undisturbed (s : HelperState) : HelperEvent → Prop
  | .openFailed _ => False
  | .restart => False
  | e => inTurn s e

instance (s : HelperState) : ∀ e, Decidable (inTurn s e)
  | .call _ => inferInstanceAs (Decidable (_ → _))
  | .opened _ => inferInstanceAs (Decidable (_ = _))
  | .directory _ | .openFailed _ | .exec | .restart => .isTrue trivial

instance (s : HelperState) : ∀ e, Decidable (undisturbed s e)
  | .openFailed _ | .restart => .isFalse id
  | .call c => inferInstanceAs (Decidable (inTurn s (.call c)))
  | .directory _ | .exec => .isTrue trivial
  | .opened j => inferInstanceAs (Decidable (inTurn s (.opened j)))

/-! ## What a step can do -/

inductive HelperMove (ra : Rowid) (s : HelperState) : HelperEvent → HelperState → Prop
  | callReady {c : DbCall} (hdb : s.db = true) :
      HelperMove ra s (.call c)
        { s with calls := s.calls ++ [c], ready := s.ready ++ [⟨s.calls.length, c⟩] }
  | callOpening {c : DbCall} (hdb : s.db = false) :
      HelperMove ra s (.call c)
        { s with
          calls := s.calls ++ [c]
          opening := s.opening ++ [(⟨s.calls.length, c⟩, .documentsDirectory)] }
  | directory {j : Nat} {me : HelperCall} (hj : s.opening[j]? = some (me, .documentsDirectory)) :
      HelperMove ra s (.directory j) { s with opening := s.opening.set j (me, .openDatabase) }
  | opened {j : Nat} {me : HelperCall} (hj : s.opening[j]? = some (me, .openDatabase)) :
      HelperMove ra s (.opened j)
        { s with
          file := some (s.file.getD onCreate)
          db := true
          opening := s.opening.eraseIdx j
          ready := s.ready ++ [me] }
  | openFailed {j : Nat} : HelperMove ra s (.openFailed j) { s with opening := s.opening.eraseIdx j }
  | noTable {me : HelperCall} {ready : List HelperCall} (hready : s.ready = me :: ready)
      (hfile : s.file = none) :
      HelperMove ra s .exec { s with ready, executed := s.executed ++ [⟨me, .failed⟩] }
  | exec {me : HelperCall} {ready : List HelperCall} {t : Manageremps}
      (hready : s.ready = me :: ready) (hfile : s.file = some t) :
      HelperMove ra s .exec
        { s with
          file := some (dbCall ra t me.call).2
          ready
          executed := s.executed ++ [⟨me, (dbCall ra t me.call).1⟩] }
  | restart : HelperMove ra s .restart { s with db := false, opening := [], ready := [] }

theorem helperMove_of_step {ra : Rowid} {s s' : HelperState} {e : HelperEvent}
    (h : helperStep ra s e = some s') : HelperMove ra s e s' := by
  cases e with
  | call c =>
    simp only [helperStep] at h
    split at h
    · next hdb =>
      cases h
      exact .callReady hdb
    · next hdb =>
      cases h
      exact .callOpening (Bool.eq_false_iff.mpr hdb)
  | directory j =>
    simp only [helperStep] at h
    split at h
    · next hj =>
      cases h
      exact .directory hj
    · cases h
  | opened j =>
    simp only [helperStep] at h
    split at h
    · next hj =>
      cases h
      exact .opened hj
    · cases h
  | openFailed j =>
    simp only [helperStep] at h
    split at h
    · cases h
      exact .openFailed
    · cases h
  | exec =>
    simp only [helperStep] at h
    split at h
    · cases h
    · next hready =>
      split at h
      · next hfile =>
        cases h
        exact .noTable hready hfile
      · next hfile =>
        cases h
        exact .exec hready hfile
  | restart =>
    cases h
    exact .restart

namespace OpeningLemmas

variable {ra : Rowid} {s s' : HelperState} {e : HelperEvent}

/-! ## Every call is somewhere at most once -/

/-- The calls that have not been lost. -/
def held (s : HelperState) : List HelperCall :=
  s.executed.map Executed.by_ ++ s.ready ++ s.opening.map Prod.fst

/-- Calls with different numbers, each the call that was made under its number. -/
structure Tracked (calls : List DbCall) (l : List HelperCall) : Prop where
  nodup : (l.map HelperCall.number).Nodup
  made : ∀ c ∈ l, calls[c.number]? = some c.call

theorem Tracked.perm {calls : List DbCall} {l l' : List HelperCall} (h : Tracked calls l)
    (hp : l'.Perm l) : Tracked calls l' :=
  ⟨(hp.map _).nodup_iff.mpr h.nodup, fun c hc => h.made c (hp.subset hc)⟩

theorem Tracked.sublist {calls : List DbCall} {l l' : List HelperCall} (h : Tracked calls l)
    (hs : l'.Sublist l) : Tracked calls l' :=
  ⟨h.nodup.sublist (hs.map _), fun c hc => h.made c (hs.subset hc)⟩

theorem Tracked.number_lt {calls : List DbCall} {l : List HelperCall} (h : Tracked calls l)
    {c : HelperCall} (hc : c ∈ l) : c.number < calls.length :=
  (List.getElem?_eq_some_iff.mp (h.made c hc)).1

theorem Tracked.snoc {calls : List DbCall} {l : List HelperCall} (h : Tracked calls l)
    (c : DbCall) : Tracked (calls ++ [c]) (l ++ [⟨calls.length, c⟩]) := by
  constructor
  · rw [List.map_append, List.nodup_append]
    refine ⟨h.nodup, List.nodup_singleton _, ?_⟩
    intro n hn n' hn' he
    obtain ⟨x, hx, rfl⟩ := List.mem_map.mp hn
    have hlt := h.number_lt hx
    rw [he, List.mem_singleton.mp hn'] at hlt
    exact absurd hlt (Nat.lt_irrefl _)
  · intro x hx
    rcases List.mem_append.mp hx with hx | hx
    · rw [List.getElem?_append_left (h.number_lt hx)]
      exact h.made x hx
    · rw [List.mem_singleton.mp hx, List.getElem?_concat_length]

theorem map_fst_set {j : Nat} {me : HelperCall} {stage stage' : InitDb}
    (hj : s.opening[j]? = some (me, stage)) :
    (s.opening.set j (me, stage')).map Prod.fst = s.opening.map Prod.fst := by
  rw [List.map_set]
  refine List.ext_getElem? fun i => ?_
  rcases eq_or_ne j i with rfl | hne
  · obtain ⟨hlt, -⟩ := List.getElem?_eq_some_iff.mp hj
    rw [List.getElem?_set_self (by rwa [List.length_map]), List.getElem?_map, hj]
    rfl
  · rw [List.getElem?_set_ne hne]

/-- A call leaves the opening ones and is ready. -/
theorem held_opened {j : Nat} {me : HelperCall} (hj : s.opening[j]? = some (me, .openDatabase)) :
    (s.executed.map Executed.by_ ++ (s.ready ++ [me]) ++ (s.opening.eraseIdx j).map Prod.fst).Perm
      (held s) := by
  have hopening : (me :: (s.opening.eraseIdx j).map Prod.fst).Perm (s.opening.map Prod.fst) := by
    obtain ⟨hlt, hget⟩ := List.getElem?_eq_some_iff.mp hj
    have hperm := (List.getElem_cons_eraseIdx_perm hlt).map Prod.fst
    rwa [hget] at hperm
  unfold held
  rw [List.append_assoc, List.append_assoc, List.append_assoc]
  exact (hopening.append_left _).append_left _

theorem tracked_move (h : Tracked s.calls (held s)) (hm : HelperMove ra s e s') :
    Tracked s'.calls (held s') := by
  cases hm with
  | @callReady c hdb =>
    refine (h.snoc c).perm ?_
    simp only [held, List.append_assoc]
    exact (List.perm_append_comm.append_left _).append_left _
  | @callOpening c hdb =>
    have hsnoc := h.snoc c
    simp only [held, List.map_append, List.map_cons, List.map_nil, List.append_assoc] at hsnoc ⊢
    exact hsnoc
  | directory hj =>
    unfold held
    rw [map_fst_set hj]
    exact h
  | opened hj => exact h.perm (held_opened hj)
  | openFailed =>
    exact h.sublist (List.Sublist.append_left ((List.eraseIdx_sublist _ _).map _) _)
  | noTable hready hfile =>
    unfold held at h ⊢
    rw [hready] at h
    simpa using h
  | exec hready hfile =>
    unfold held at h ⊢
    rw [hready] at h
    simpa using h
  | restart =>
    refine h.sublist ?_
    unfold held
    simp only [List.map_nil, List.append_nil]
    rw [List.append_assoc]
    exact List.sublist_append_left _ _

/-! ## The table and the map -/

/-- Who has the database finds the table. -/
def Filed (s : HelperState) : Prop := s.db = true ∨ s.ready ≠ [] → s.file ≠ none

theorem filed_move (h : Filed s) (hm : HelperMove ra s e s') : Filed s' := by
  cases hm with
  | callReady hdb => exact fun _ => h (.inl hdb)
  | callOpening hdb => exact h
  | directory hj => exact h
  | opened hj => exact fun _ => Option.some_ne_none _
  | openFailed => exact h
  | noTable hready hfile =>
    refine absurd hfile (h (.inr ?_))
    rw [hready]
    exact List.cons_ne_nil _ _
  | exec hready hfile => exact fun _ => Option.some_ne_none _
  | restart =>
    rintro (hdb | hready)
    · cases hdb
    · exact absurd rfl hready

/-- The statements have been executed one after the other on a new table. -/
def Sequential (ra : Rowid) (s : HelperState) : Prop :=
  answers (dbCall ra) onCreate (s.executed.map fun x => x.by_.call) =
    (s.executed.map Executed.answer, s.file.getD onCreate)

theorem sequential_move (hfiled : Filed s) (h : Sequential ra s) (hm : HelperMove ra s e s') :
    Sequential ra s' := by
  cases hm with
  | callReady hdb => exact h
  | callOpening hdb => exact h
  | directory hj => exact h
  | opened hj => exact h
  | openFailed => exact h
  | noTable hready hfile =>
    refine absurd hfile (hfiled (.inr ?_))
    rw [hready]
    exact List.cons_ne_nil _ _
  | @exec me ready t hready hfile =>
    unfold Sequential at h ⊢
    rw [hfile, Option.getD_some] at h
    rw [List.map_append, List.map_append, List.map_cons, List.map_nil, answers_snoc, h]
    rfl
  | restart => exact h

structure HelperInv (ra : Rowid) (s : HelperState) : Prop where
  tracked : Tracked s.calls (held s)
  filed : Filed s
  sequential : Sequential ra s

theorem helperInv_init : HelperInv ra {} := by
  refine ⟨⟨List.nodup_nil, fun _ hc => absurd hc List.not_mem_nil⟩, ?_, rfl⟩
  rintro (hdb | hready)
  · cases hdb
  · exact absurd rfl hready

theorem helperInv_move (h : HelperInv ra s) (hm : HelperMove ra s e s') : HelperInv ra s' :=
  ⟨tracked_move h.tracked hm, filed_move h.filed hm, sequential_move h.filed h.sequential hm⟩

theorem helperInv_reach {ok : HelperState → HelperEvent → Prop}
    (h : Reach (helperStep ra) ok {} s) : HelperInv ra s :=
  h.invariant helperInv_init fun _ hi _ hs => helperInv_move hi (helperMove_of_step hs)

/-! ## Who is next -/

/-- The calls that run `initDb` are in the order in which they were made. -/
def Queued (s : HelperState) : Prop :=
  (s.opening.map Prod.fst).Pairwise fun c c' => c.number < c'.number

theorem number_lt_of_opening (h : HelperInv ra s) {x : HelperCall × InitDb} (hx : x ∈ s.opening) :
    x.1.number < s.calls.length :=
  h.tracked.number_lt (List.mem_append_right _ (List.mem_map_of_mem hx))

theorem number_lt_of_got (h : HelperInv ra s) {n : Nat} (hn : n ∈ s.got) : n < s.calls.length := by
  have hmem : n ∈ (s.executed.map Executed.by_ ++ s.ready).map HelperCall.number := by
    rwa [List.map_append, List.map_map]
  obtain ⟨c, hc, rfl⟩ := List.mem_map.mp hmem
  exact h.tracked.number_lt (List.mem_append_left _ hc)

theorem queued_move (hinv : HelperInv ra s) (h : Queued s) (hm : HelperMove ra s e s') :
    Queued s' := by
  cases hm with
  | callReady hdb => exact h
  | callOpening hdb =>
    unfold Queued
    rw [List.map_append, List.pairwise_append]
    refine ⟨h, List.pairwise_singleton _ _, ?_⟩
    intro c hc c' hc'
    obtain ⟨x, hx, rfl⟩ := List.mem_map.mp hc
    rw [List.mem_singleton.mp hc']
    exact number_lt_of_opening hinv hx
  | directory hj =>
    unfold Queued
    rw [map_fst_set hj]
    exact h
  | opened hj => exact h.sublist ((List.eraseIdx_sublist _ _).map _)
  | openFailed => exact h.sublist ((List.eraseIdx_sublist _ _).map _)
  | noTable hready hfile => exact h
  | exec hready hfile => exact h
  | restart => exact List.Pairwise.nil

/-- Among the calls in order, the one that all others follow is the first. -/
theorem forall_eraseIdx_iff {l : List HelperCall} {j : Nat} {me : HelperCall}
    (h : l.Pairwise fun c c' => c.number < c'.number) (hj : l[j]? = some me) :
    (∀ c ∈ l.eraseIdx j, me.number < c.number) ↔ j = 0 := by
  cases l with
  | nil => simp at hj
  | cons c l =>
    obtain ⟨hhead, -⟩ := List.pairwise_cons.mp h
    cases j with
    | zero =>
      cases hj
      exact iff_of_true hhead rfl
    | succ j =>
      refine iff_of_false (fun hall => ?_) (Nat.succ_ne_zero j)
      have hlt := hall c (by rw [List.eraseIdx_cons_succ]; exact List.mem_cons_self)
      have hlt' := hhead me (List.mem_of_getElem? (by simpa using hj))
      exact absurd hlt (Nat.lt_asymm hlt')

theorem inOrder_opened (hq : Queued s) (h : s.InOrder) {j : Nat} {me : HelperCall}
    (hj : s.opening[j]? = some (me, .openDatabase)) :
    HelperState.InOrder { s with
        file := some (s.file.getD onCreate)
        db := true
        opening := s.opening.eraseIdx j
        ready := s.ready ++ [me] } ↔ j = 0 := by
  have hgot : ({ s with
        file := some (s.file.getD onCreate)
        db := true
        opening := s.opening.eraseIdx j
        ready := s.ready ++ [me] } : HelperState).got = s.got ++ [me.number] := by
    simp [HelperState.got]
  have hme : ∀ n ∈ s.got, n < me.number := fun n hn => h.2 n hn _ (List.mem_of_getElem? hj)
  have hmap : (s.opening.map Prod.fst)[j]? = some me := by
    rw [List.getElem?_map, hj, Option.map_some]
  rw [← forall_eraseIdx_iff hq hmap, HelperState.InOrder, hgot]
  constructor
  · intro hnew c hc
    rw [List.eraseIdx_map] at hc
    obtain ⟨x, hx, rfl⟩ := List.mem_map.mp hc
    exact hnew.2 me.number (List.mem_append_right _ (List.mem_singleton.mpr rfl)) x hx
  · intro hall
    refine ⟨List.pairwise_append.mpr ⟨h.1, List.pairwise_singleton _ _, ?_⟩, ?_⟩
    · intro n hn n' hn'
      rw [List.mem_singleton.mp hn']
      exact hme n hn
    · intro n hn x hx
      rcases List.mem_append.mp hn with hn | hn
      · exact h.2 n hn x (List.mem_of_mem_eraseIdx hx)
      · rw [List.mem_singleton.mp hn]
        refine hall x.1 ?_
        rw [List.eraseIdx_map]
        exact List.mem_map_of_mem hx

theorem inOrder_callReady (hinv : HelperInv ra s) (h : s.InOrder) (c : DbCall) :
    HelperState.InOrder { s with
        calls := s.calls ++ [c], ready := s.ready ++ [⟨s.calls.length, c⟩] } ↔
      s.opening = [] := by
  have hgot : ({ s with
        calls := s.calls ++ [c], ready := s.ready ++ [⟨s.calls.length, c⟩] } : HelperState).got =
      s.got ++ [s.calls.length] := by
    simp [HelperState.got]
  rw [HelperState.InOrder, hgot]
  constructor
  · intro hnew
    refine List.eq_nil_iff_forall_not_mem.mpr fun x hx => ?_
    have hlt := hnew.2 s.calls.length (List.mem_append_right _ (List.mem_singleton.mpr rfl)) x hx
    exact absurd hlt (Nat.lt_asymm (number_lt_of_opening hinv hx))
  · intro hnil
    refine ⟨List.pairwise_append.mpr ⟨h.1, List.pairwise_singleton _ _, ?_⟩, ?_⟩
    · intro n hn n' hn'
      rw [List.mem_singleton.mp hn']
      exact number_lt_of_got hinv hn
    · intro n _ x hx
      dsimp only at hx
      rw [hnil] at hx
      exact absurd hx List.not_mem_nil

/-- Nobody gets the database, and nobody new waits in front. -/
theorem InOrder.mono (h : s.InOrder) (hgot : s'.got.Sublist s.got)
    (hopening : ∀ x ∈ s'.opening, ∀ n ∈ s.got, n < x.1.number) : s'.InOrder :=
  ⟨h.1.sublist hgot, fun n hn x hx => hopening x hx n (hgot.subset hn)⟩

theorem inOrder_move (hinv : HelperInv ra s) (hq : Queued s) (h : s.InOrder)
    (hm : HelperMove ra s e s') : s'.InOrder ↔ inTurn s e := by
  cases hm with
  | callReady hdb =>
    rw [inOrder_callReady hinv h]
    exact ⟨fun hnil _ => hnil, fun hok => hok hdb⟩
  | callOpening hdb =>
    refine iff_of_true (InOrder.mono h (List.Sublist.refl _) ?_) ?_
    · intro x hx n hn
      rcases List.mem_append.mp hx with hx | hx
      · exact h.2 n hn x hx
      · rw [List.mem_singleton.mp hx]
        exact number_lt_of_got hinv hn
    · intro hdb'
      rw [hdb] at hdb'
      cases hdb'
  | @directory j me hj =>
    refine iff_of_true (InOrder.mono h (List.Sublist.refl _) ?_) trivial
    intro x hx n hn
    rcases List.mem_or_eq_of_mem_set hx with hx | rfl
    · exact h.2 n hn x hx
    · exact h.2 n hn (me, .documentsDirectory) (List.mem_of_getElem? hj)
  | opened hj => exact inOrder_opened hq h hj
  | openFailed =>
    refine iff_of_true (InOrder.mono h (List.Sublist.refl _) ?_) trivial
    exact fun x hx n hn => h.2 n hn x (List.mem_of_mem_eraseIdx hx)
  | noTable hready hfile =>
    refine iff_of_true (InOrder.mono h ?_ fun x hx n hn => h.2 n hn x hx) trivial
    simp [HelperState.got, hready]
  | exec hready hfile =>
    refine iff_of_true (InOrder.mono h ?_ fun x hx n hn => h.2 n hn x hx) trivial
    simp [HelperState.got, hready]
  | restart =>
    refine iff_of_true (InOrder.mono h ?_ fun x hx => absurd hx List.not_mem_nil) trivial
    simp [HelperState.got]

/-! ## A queue -/

/-- In an undisturbed run the calls pass through the lists in order. -/
theorem held_move (h : (held s).map HelperCall.call = s.calls) (hok : undisturbed s e)
    (hm : HelperMove ra s e s') : (held s').map HelperCall.call = s'.calls := by
  cases hm with
  | callReady hdb =>
    have hnil := hok hdb
    simp only [held, hnil, List.map_nil, List.append_nil, List.map_append] at h ⊢
    rw [← h]
    simp
  | callOpening hdb =>
    unfold held at h ⊢
    rw [← h]
    simp
  | directory hj =>
    unfold held
    rw [map_fst_set hj]
    exact h
  | @opened j me hj =>
    obtain rfl : j = 0 := hok
    cases hopening : s.opening with
    | nil => simp [hopening] at hj
    | cons x rest =>
      rw [hopening] at hj
      cases hj
      rw [← h]
      simp [held, hopening]
  | openFailed => exact absurd hok id
  | noTable hready hfile =>
    rw [← h]
    simp [held, hready]
  | exec hready hfile =>
    rw [← h]
    simp [held, hready]
  | restart => exact absurd hok id

end OpeningLemmas

open OpeningLemmas

variable {ra : Rowid} {s : HelperState}

/-- In every run of calls, openings that overlap or fail, and restarts: the statements, in the
order in which they are executed, are answered as a finite map that starts empty answers them,
the file holds that map, and every call is executed at most once. -/
theorem helper_refines_map (h : Reach (helperStep ra) anyStep {} s) :
    (∃ m, Trace MapStep ∅ (s.executed.map fun x => x.by_.call) (s.executed.map Executed.answer) m ∧
      Represents (s.file.getD onCreate) m) ∧
    (s.executed.map fun x => x.by_.number).Nodup ∧
    ∀ x ∈ s.executed, s.calls[x.by_.number]? = some x.by_.call := by
  have hinv := helperInv_reach h
  have hexecuted : Tracked s.calls (s.executed.map Executed.by_) := by
    refine hinv.tracked.sublist ?_
    unfold held
    rw [List.append_assoc]
    exact List.sublist_append_left _ _
  refine ⟨?_, ?_, fun x hx => hexecuted.made _ (List.mem_map_of_mem hx)⟩
  · have hcall : ∀ {t : Manageremps} {m : RecordMap} (c : DbCall), Represents t m →
        ∃ m', MapStep m c (dbCall ra t c).1 m' ∧ Represents (dbCall ra t c).2 m' :=
      dbCall_simulated
    obtain ⟨m, htrace, hrep⟩ := trace_of_simulation hcall represents_onCreate
      (s.executed.map fun x => x.by_.call)
    rw [hinv.sequential] at htrace hrep
    exact ⟨m, htrace, hrep⟩
  · have hnodup := hexecuted.nodup
    rwa [List.map_map] at hnodup

/-- 出勤 of a morning. -/
def morningRecord : FetchDatafromSQLite :=
  ⟨none, "20191227", true, false, "assets/img/enter.gif", "assets/img/out.gif", "09時00分", ""⟩

/-- Two calls open the database side by side; the process ends, and the next one reads. -/
def openedTwice : List HelperEvent :=
  [.call .getManager, .call (.insertManager morningRecord), .directory 1, .directory 0, .opened 1,
   .exec, .opened 0, .restart, .call .getManager, .directory 0, .opened 0, .exec]

theorem helper_refines_map_restart :
    ∃ s, Reach (helperStep .succMax) anyStep {} s ∧
      s.executed.map Executed.answer = [.id 1, .employees [{ morningRecord with id := some 1 }]] ∧
      ∃ m, Trace MapStep ∅ (s.executed.map fun x => x.by_.call) (s.executed.map Executed.answer) m := by
  obtain ⟨s, hs, hanswers⟩ := exists_reach_of_run (helperStep .succMax) anyStep {} openedTwice
    (p := fun s => s.executed.map Executed.answer =
      [.id 1, .employees [{ morningRecord with id := some 1 }]]) (by decide)
  obtain ⟨⟨m, htrace, -⟩, -⟩ := helper_refines_map hs
  exact ⟨s, hs, hanswers, m, htrace⟩

/-- No call ever overtakes an earlier one if and only if a call that finds the field set is made
only when no other still runs `initDb`, and those that run it finish in the order in which they
were made. Calls, failures and restarts come in any order. -/
theorem calls_in_order_iff {es : List HelperEvent}
    (hrun : run (helperStep ra) anyStep {} es = some s) :
    (∀ n s₁, run (helperStep ra) anyStep {} (es.take n) = some s₁ → s₁.InOrder) ↔
      run (helperStep ra) inTurn {} es = some s := by
  refine forall_take_iff_run (I := fun s => HelperInv ra s ∧ Queued s) ?_ ?_
    ⟨helperInv_init, List.Pairwise.nil⟩ ⟨List.Pairwise.nil, nofun⟩ hrun
  · rintro s e s' ⟨hinv, hq⟩ hs
    have hm := helperMove_of_step hs
    exact ⟨helperInv_move hinv hm, queued_move hinv hq hm⟩
  · rintro s e s' ⟨hinv, hq⟩ h hs
    exact inOrder_move hinv hq h (helperMove_of_step hs)

/-- In such a run without failures and restarts the helper is a queue: its answers and its table
are those of the first calls, made one after the other on a new table. -/
theorem helper_is_queue (h : Reach (helperStep ra) undisturbed {} s) :
    (s.executed.map Executed.answer, s.file.getD onCreate) =
      answers (dbCall ra) onCreate (s.calls.take s.executed.length) := by
  have hheld : (held s).map HelperCall.call = s.calls := by
    refine h.invariant (I := fun s => (held s).map HelperCall.call = s.calls) rfl ?_
    exact fun _ hi hok hs => held_move hi hok (helperMove_of_step hs)
  have htake : s.calls.take s.executed.length = s.executed.map fun x => x.by_.call := by
    rw [← hheld, held, List.append_assoc, List.map_append, List.take_left' (by simp), List.map_map]
    rfl
  rw [htake, (helperInv_reach h).sequential]

/-- The first calls open the database side by side and in order. -/
def openedInOrder : List HelperEvent :=
  [.call .getManager, .call (.insertManager morningRecord), .directory 0, .directory 1, .opened 0,
   .opened 0, .call .getManager, .exec, .exec, .exec]

theorem calls_in_order_twoOpening :
    ∃ s, run (helperStep .succMax) anyStep {} openedInOrder = some s ∧
      s.executed.map (fun x => x.by_.number) = [0, 1, 2] ∧
      ∀ n s₁, run (helperStep .succMax) anyStep {} (openedInOrder.take n) = some s₁ →
        s₁.InOrder := by
  obtain ⟨s, hs, hnumbers, hok⟩ := exists_run (helperStep .succMax) anyStep {} openedInOrder
    (p := fun s => s.executed.map (fun x => x.by_.number) = [0, 1, 2] ∧
      run (helperStep .succMax) inTurn {} openedInOrder = some s) (by decide)
  exact ⟨s, hs, hnumbers, (calls_in_order_iff hs).mpr hok⟩

theorem helper_is_queue_twoOpening :
    ∃ s, Reach (helperStep .succMax) undisturbed {} s ∧ s.executed.length = 3 ∧
      (s.executed.map Executed.answer, s.file.getD onCreate) =
        answers (dbCall .succMax) onCreate (s.calls.take s.executed.length) := by
  obtain ⟨s, hs, hlen⟩ := exists_reach_of_run (helperStep .succMax) undisturbed {} openedInOrder
    (p := fun s => s.executed.length = 3) (by decide)
  exact ⟨s, hs, hlen, helper_is_queue hs⟩

/-- 退勤 is pressed while the page's first read opens the database. The second read finds the
field set and is executed before the press. -/
theorem later_read_overtakes :
    ∃ s, Reach (helperStep .succMax) anyStep {} s ∧
      s.executed.map (fun x => x.by_.number) = [0, 2, 1] := by
  exact exists_reach_of_run (helperStep .succMax) anyStep {}
    [.call .getManager, .call (.updateManager morningRecord), .directory 0, .directory 1, .opened 0,
     .call .getManager, .opened 0, .exec, .exec, .exec] (by decide)

end ShainManager
