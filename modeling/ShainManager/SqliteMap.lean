import Mathlib.Data.Finmap
import ShainManager.Lib.Simulation
import ShainManager.Sqlite

/-!
# The table as a finite map

`DatabaseHelper` (`lib/sqllite/database_helper.dart`) is used as a map from ids to
records. `MapStep` says what its four methods do to such a map and what they answer;
the id of an insert with a null id is any fresh one. `Represents` ties a map to a table.

* `sqlite_refines_map`: every sequence of calls on a new database is answered as the map
  answers it.
-/

namespace ShainManager

open Simulation

/-- The records by their ids. -/
abbrev RecordMap := Finmap fun _ : Int => FetchDatafromSQLite

/-- A call on `DatabaseHelper`. -/
inductive DbCall
  | insertManager (fetchdata : FetchDatafromSQLite)
  | updateManager (fetchdata : FetchDatafromSQLite)
  | deleteManager (fetchdata : FetchDatafromSQLite)
  | getManager
deriving DecidableEq, Repr

/-- What its future completes with. `failed` is an exception. -/
inductive DbAnswer
  | id (k : Int)
  | failed
  | updated (found : Bool)
  | deleted (res : Nat)
  | employees (rows : List FetchDatafromSQLite)
deriving DecidableEq, Repr

/-- The call on the table. -/
def dbCall (ra : Rowid) (t : Manageremps) : DbCall → DbAnswer × Manageremps
  | .insertManager r =>
    match insertManager ra t r with
    | (some k, t') => (.id k, t')
    | (none, t') => (.failed, t')
  | .updateManager r => (.updated (updateManager t r).1, (updateManager t r).2)
  | .deleteManager r => (.deleted (deleteManager t r).1, (deleteManager t r).2)
  | .getManager => (.employees (getManager t), t)

/-! ## The map -/

/-- The id of the first is smaller. -/
def IdLt (r r' : FetchDatafromSQLite) : Prop := ∃ k k', r.id = some k ∧ r'.id = some k' ∧ k < k'

/-- The call on the map: what it may answer and what it leaves. -/
inductive MapStep : RecordMap → DbCall → DbAnswer → RecordMap → Prop
  | insertNull {m : RecordMap} {r : FetchDatafromSQLite} {k : Int} (hid : r.id = none)
      (hfresh : k ∉ m) :
      MapStep m (.insertManager r) (.id k) (m.insert k { r with id := some k })
  | insertId {m : RecordMap} {r : FetchDatafromSQLite} {k : Int} (hid : r.id = some k)
      (hnew : k ∉ m) : MapStep m (.insertManager r) (.id k) (m.insert k r)
  | insertDup {m : RecordMap} {r : FetchDatafromSQLite} {k : Int} (hid : r.id = some k)
      (hmem : k ∈ m) : MapStep m (.insertManager r) .failed m
  | update {m : RecordMap} {r : FetchDatafromSQLite} {k : Int} (hid : r.id = some k)
      (hmem : k ∈ m) : MapStep m (.updateManager r) (.updated true) (m.insert k r)
  | updateNone {m : RecordMap} {r : FetchDatafromSQLite} (hno : ∀ k, r.id = some k → k ∉ m) :
      MapStep m (.updateManager r) (.updated false) m
  | delete {m : RecordMap} {r : FetchDatafromSQLite} {k : Int} (hid : r.id = some k)
      (hmem : k ∈ m) : MapStep m (.deleteManager r) (.deleted 1) (m.erase k)
  | deleteNone {m : RecordMap} {r : FetchDatafromSQLite} (hno : ∀ k, r.id = some k → k ∉ m) :
      MapStep m (.deleteManager r) (.deleted 0) m
  | get {m : RecordMap} {rows : List FetchDatafromSQLite} (hsorted : rows.Pairwise IdLt)
      (hrows : ∀ r, r ∈ rows ↔ ∃ k, m.lookup k = some r) :
      MapStep m .getManager (.employees rows) m

/-- The entries of the map are the records of the table under their ids. -/
def Represents (t : Manageremps) (m : RecordMap) : Prop :=
  ∀ k r, m.lookup k = some r ↔ r ∈ getManager t ∧ r.id = some k

/-! ## One call -/

section

variable {ra : Rowid} {t : Manageremps} {m : RecordMap} {r : FetchDatafromSQLite} {k : Int}

theorem Represents.mem_iff (h : Represents t m) : k ∈ m ↔ k ∈ t.ids := by
  rw [Finmap.mem_iff, mem_ids]
  exact exists_congr fun r => h k r

theorem represents_onCreate : Represents onCreate ∅ := by
  intro k r
  simp [getManager, onCreate]

/-- Writing the record `r` under `k`, where it is the only record that is new. -/
theorem Represents.insert {t' : Manageremps} (h : Represents t m) (hid : r.id = some k)
    (hmem : r ∈ getManager t')
    (hother : ∀ x, x.id ≠ some k → (x ∈ getManager t' ↔ x ∈ getManager t)) :
    Represents t' (m.insert k r) := by
  intro k' x
  by_cases hk : k' = k
  · subst hk
    rw [Finmap.lookup_insert]
    constructor
    · intro he
      cases he
      exact ⟨hmem, hid⟩
    · rintro ⟨hx, hxid⟩
      rw [eq_of_id_eq hmem hx (hid.trans hxid.symm)]
  · rw [Finmap.lookup_insert_of_ne _ hk, h k' x]
    have hne : x.id = some k' → x.id ≠ some k := by
      intro hx hx'
      exact hk (Option.some.inj (hx.symm.trans hx'))
    constructor
    · rintro ⟨hx, hxid⟩
      exact ⟨(hother x (hne hxid)).mpr hx, hxid⟩
    · rintro ⟨hx, hxid⟩
      exact ⟨(hother x (hne hxid)).mp hx, hxid⟩

theorem Represents.insertRow (h : Represents t m) (hk : k ∉ t.ids) :
    Represents (t.insertRow (r.toMap k) hk) (m.insert k { r with id := some k }) := by
  refine h.insert rfl ((mem_insertRow hk).mpr (.inl rfl)) ?_
  intro x hx
  rw [mem_insertRow hk]
  constructor
  · rintro (rfl | hmem)
    · exact absurd rfl hx
    · exact hmem
  · exact .inr

theorem Represents.update (h : Represents t m) (hid : r.id = some k) (hk : k ∈ t.ids) :
    Represents (updateManager t r).2 (m.insert k r) := by
  refine h.insert hid ?_ ?_
  · obtain ⟨a, ha, hak⟩ := mem_ids.mp hk
    exact (mem_updateManager hid).mpr ⟨a, ha, (if_pos hak).symm⟩
  · intro x hx
    rw [mem_updateManager hid]
    constructor
    · rintro ⟨a, ha, he⟩
      split at he
      · exact absurd (he ▸ hid) hx
      · exact he ▸ ha
    · intro hmem
      exact ⟨x, hmem, (if_neg hx).symm⟩

theorem Represents.delete (h : Represents t m) (hid : r.id = some k) :
    Represents (deleteManager t r).2 (m.erase k) := by
  intro k' x
  rw [mem_deleteManager, hid]
  by_cases hk : k' = k
  · subst hk
    rw [Finmap.lookup_erase]
    constructor
    · intro he
      cases he
    · rintro ⟨⟨-, hne⟩, hx⟩
      exact absurd hx hne
  · rw [Finmap.lookup_erase_ne hk, h k' x]
    constructor
    · rintro ⟨hx, hxid⟩
      exact ⟨⟨hx, fun he => hk (Option.some.inj (hxid.symm.trans he))⟩, hxid⟩
    · rintro ⟨⟨hx, -⟩, hxid⟩
      exact ⟨hx, hxid⟩

/-- A call that leaves every record where it is. -/
theorem Represents.same {t' : Manageremps} (h : Represents t m)
    (hsame : ∀ x, x ∈ getManager t' ↔ x ∈ getManager t) : Represents t' m := by
  intro k x
  rw [h k x, hsame x]

theorem pairwise_getManager (t : Manageremps) : (getManager t).Pairwise IdLt := by
  refine List.pairwise_map.mpr (t.sorted.imp ?_)
  intro a b hab
  exact ⟨a.id, b.id, rfl, rfl, hab⟩

theorem Represents.mem_getManager (h : Represents t m) (x : FetchDatafromSQLite) :
    x ∈ getManager t ↔ ∃ k, m.lookup k = some x := by
  constructor
  · intro hx
    obtain ⟨k, -, hk⟩ := id_of_mem hx
    exact ⟨k, (h k x).mpr ⟨hx, hk⟩⟩
  · rintro ⟨k, hk⟩
    exact ((h k x).mp hk).1

end

/-! ## Sequences of calls -/

section

variable {ra : Rowid} {t : Manageremps} {m : RecordMap}

theorem insertManager_simulated (h : Represents t m) (r : FetchDatafromSQLite) :
    ∃ m', MapStep m (.insertManager r) (dbCall ra t (.insertManager r)).1 m' ∧
      Represents (dbCall ra t (.insertManager r)).2 m' := by
  simp only [dbCall]
  rcases hid : r.id with _ | k
  · have hfresh := ra.key_fresh t
    rw [insertManager_none hid]
    exact ⟨_, .insertNull hid (mt h.mem_iff.mp hfresh), h.insertRow hfresh⟩
  · have hr : { r with id := some k } = r := by rw [← hid]
    by_cases hk : k ∈ t.ids
    · rw [insertManager_dup hid hk]
      exact ⟨m, .insertDup hid (h.mem_iff.mpr hk), h⟩
    · rw [insertManager_new hid hk]
      refine ⟨_, .insertId hid (mt h.mem_iff.mp hk), ?_⟩
      have hrep := h.insertRow (r := r) hk
      rwa [hr] at hrep

theorem updateManager_simulated (h : Represents t m) (r : FetchDatafromSQLite) :
    ∃ m', MapStep m (.updateManager r) (dbCall ra t (.updateManager r)).1 m' ∧
      Represents (dbCall ra t (.updateManager r)).2 m' := by
  simp only [dbCall]
  rcases hid : r.id with _ | k
  · rw [updateManager_none hid]
    exact ⟨m, .updateNone fun k hk => absurd (hid.symm.trans hk) nofun, h⟩
  · by_cases hk : k ∈ t.ids
    · rw [updateManager_found hid, decide_eq_true hk]
      exact ⟨_, .update hid (h.mem_iff.mpr hk), h.update hid hk⟩
    · rw [updateManager_found hid, decide_eq_false hk]
      refine ⟨m, .updateNone ?_, h.same ?_⟩
      · intro k' hk'
        cases hid.symm.trans hk'
        exact mt h.mem_iff.mp hk
      · intro x
        rw [mem_updateManager hid]
        -- no record carries the key, so none is rewritten
        have hno : ∀ a ∈ getManager t, a.id ≠ some k :=
          fun a ha he => hk (mem_ids.mpr ⟨a, ha, he⟩)
        constructor
        · rintro ⟨a, ha, rfl⟩
          rwa [if_neg (hno a ha)]
        · intro hx
          exact ⟨x, hx, (if_neg (hno x hx)).symm⟩

theorem deleteManager_simulated (h : Represents t m) (r : FetchDatafromSQLite) :
    ∃ m', MapStep m (.deleteManager r) (dbCall ra t (.deleteManager r)).1 m' ∧
      Represents (dbCall ra t (.deleteManager r)).2 m' := by
  simp only [dbCall]
  rcases hid : r.id with _ | k
  · rw [deleteManager_none hid]
    refine ⟨m, .deleteNone fun k hk => absurd (hid.symm.trans hk) nofun, h.same fun x => ?_⟩
    rw [mem_deleteManager, hid]
    refine ⟨And.left, fun hx => ⟨hx, ?_⟩⟩
    obtain ⟨k, -, hk⟩ := id_of_mem hx
    rw [hk]
    nofun
  · rw [deleteManager_some hid]
    by_cases hk : k ∈ t.ids
    · rw [List.count_eq_one_of_mem (nodup_ids t) hk]
      exact ⟨_, .delete hid (h.mem_iff.mpr hk), h.delete hid⟩
    · rw [List.count_eq_zero_of_not_mem hk]
      refine ⟨m, .deleteNone ?_, h.same fun x => ?_⟩
      · intro k' hk'
        cases hid.symm.trans hk'
        exact mt h.mem_iff.mp hk
      · rw [mem_deleteManager, hid]
        exact ⟨And.left, fun hx => ⟨hx, fun he => hk (mem_ids.mpr ⟨x, hx, he⟩)⟩⟩

/-- One call on the table is one call on the map, with the same answer. -/
theorem dbCall_simulated (c : DbCall) (h : Represents t m) :
    ∃ m', MapStep m c (dbCall ra t c).1 m' ∧ Represents (dbCall ra t c).2 m' := by
  cases c with
  | insertManager r => exact insertManager_simulated h r
  | updateManager r => exact updateManager_simulated h r
  | deleteManager r => exact deleteManager_simulated h r
  | getManager => exact ⟨m, .get (pairwise_getManager t) h.mem_getManager, h⟩

/-- The table refines the map. -/
theorem sqlite_refines_map (ra : Rowid) (calls : List DbCall) :
    ∃ m, Trace MapStep ∅ calls (answers (dbCall ra) onCreate calls).1 m ∧
      Represents (answers (dbCall ra) onCreate calls).2 m :=
  trace_of_simulation dbCall_simulated represents_onCreate calls

end

end ShainManager
