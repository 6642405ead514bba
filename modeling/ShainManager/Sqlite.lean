import Mathlib.Data.List.Sort
import Mathlib.Data.Int.Order.Basic

/-!
# The table `manageremps`

`lib/sqllite/database_helper.dart` over one SQLite table. `Row` is a stored row
with its INTEGER columns, `FetchDatafromSQLite` the record that the Dart code
passes in and reads back. A `Manageremps` is the row list in the order of its
INTEGER PRIMARY KEY; that the keys are distinct and increasing is a field.

What sqflite and SQLite do is in this module only: a boolean is bound as `1` or
`0`, a comparison with NULL matches nothing, an insert with a NULL key takes a
fresh key (`Rowid`), an insert with a key in use fails, and `SELECT *` scans by
key. Each insert may take its fresh key in its own way. The other modules use
the operations through the lemmas of the last section, which speak about the
records that `getManager` returns.
-/

namespace ShainManager

/-- `lib/sqllite/model/fetchdata.dart`. The `id` is null until a row has been
read. -/
structure FetchDatafromSQLite where
  id : Option Int
  ymdWork : String
  enterbutton : Bool
  outbutton : Bool
  imgdirenter : String
  imgdirout : String
  nowWorkenter : String
  nowWorkout : String
deriving DecidableEq, Repr

/-- A stored row. -/
structure Row where
  id : Int
  ymdWork : String
  enterbutton : Int
  outbutton : Int
  imgdirenter : String
  imgdirout : String
  nowWorkenter : String
  nowWorkout : String
deriving DecidableEq, Repr

/-- How sqflite binds a boolean to an INTEGER column. -/
def bindBool (b : Bool) : Int := if b then 1 else 0

/-- The columns that `toMap` lists, stored under the key `k`. -/
def FetchDatafromSQLite.toMap (r : FetchDatafromSQLite) (k : Int) : Row :=
  { id := k, ymdWork := r.ymdWork
    enterbutton := bindBool r.enterbutton, outbutton := bindBool r.outbutton
    imgdirenter := r.imgdirenter, imgdirout := r.imgdirout
    nowWorkenter := r.nowWorkenter, nowWorkout := r.nowWorkout }

/-- The body of the loop of `getManager`. -/
def Row.fetch (r : Row) : FetchDatafromSQLite :=
  { id := some r.id, ymdWork := r.ymdWork
    enterbutton := if r.enterbutton = 1 then true else false
    outbutton := if r.outbutton = 1 then true else false
    imgdirenter := r.imgdirenter, imgdirout := r.imgdirout
    nowWorkenter := r.nowWorkenter, nowWorkout := r.nowWorkout }

/-- The table. `inserted` is history: the number of rows inserted so far. -/
structure Manageremps where
  rows : List Row
  sorted : rows.Pairwise (fun a b => a.id < b.id)
  inserted : Nat := 0
deriving DecidableEq

/-- The keys in use. -/
def Manageremps.ids (t : Manageremps) : List Int := t.rows.map (·.id)

/-- The keys that SQLite picks for rows inserted with a NULL key: for each insert, by its
number, any key that is not in use. -/
structure Rowid where
  next : Nat → List Int → Int
  fresh : ∀ n ids, next n ids ∉ ids

/-- One more than the largest key, and 1 for the empty table. SQLite takes this key as long as
the largest one is less than `2 ^ 63 - 1`. -/
def Rowid.succMax : Rowid where
  next _ ids :=
    match ids.max? with
    | none => 1
    | some k => k + 1
  fresh _ ids := by
    cases h : ids.max? with
    | none =>
      rw [List.max?_eq_none_iff.mp h]
      exact List.not_mem_nil
    | some k =>
      intro hmem
      have hle : k + 1 ≤ k := (List.max?_eq_some_iff.mp h).2 _ hmem
      omega

/-- The key of the next row that is inserted with a NULL key. -/
def Rowid.key (ra : Rowid) (t : Manageremps) : Int := ra.next t.inserted t.ids

theorem Rowid.key_fresh (ra : Rowid) (t : Manageremps) : ra.key t ∉ t.ids := ra.fresh _ _

/-! ## The operations -/

/-- `_onCreate`. -/
def onCreate : Manageremps := { rows := [], sorted := .nil }

namespace SqliteLemmas

theorem pairwise_insert {t : Manageremps} {r : Row} (h : r.id ∉ t.ids) :
    (t.rows.orderedInsert (fun a b => a.id ≤ b.id) r).Pairwise (fun a b => a.id < b.id) := by
  obtain ⟨rows, hs⟩ := t
  simp only [Manageremps.ids, List.mem_map, not_exists, not_and] at h
  induction rows with
  | nil => simp
  | cons a rows ih =>
    obtain ⟨ha, hrows⟩ := List.pairwise_cons.mp hs
    have hne : a.id ≠ r.id := h a List.mem_cons_self
    rw [List.orderedInsert_cons]
    split
    · next hle =>
      refine List.pairwise_cons.mpr ⟨fun b hb => ?_, hs⟩
      have hlt : r.id < a.id := lt_of_le_of_ne hle hne.symm
      rcases List.mem_cons.mp hb with rfl | hb
      · exact hlt
      · exact hlt.trans (ha b hb)
    · next hle =>
      refine List.pairwise_cons.mpr ⟨fun b hb => ?_, ih hrows fun b hb => h b (.tail _ hb)⟩
      rcases (List.mem_orderedInsert _).mp hb with rfl | hb
      · exact not_le.mp hle
      · exact ha b hb

theorem pairwise_replace {rows : List Row} {k : Int} {r : Row} (hr : r.id = k)
    (h : rows.Pairwise (fun a b => a.id < b.id)) :
    (rows.map fun a => if a.id = k then r else a).Pairwise (fun a b => a.id < b.id) := by
  have hid : ∀ a : Row, (if a.id = k then r else a).id = a.id := by
    intro a
    split
    · next ha => rw [hr, ha]
    · rfl
  refine List.pairwise_map.mpr (h.imp ?_)
  intro a b hab
  rwa [hid, hid]

end SqliteLemmas

/-- The row `r` put in its place by key. -/
def Manageremps.insertRow (t : Manageremps) (r : Row) (h : r.id ∉ t.ids) : Manageremps :=
  { rows := t.rows.orderedInsert (fun a b => a.id ≤ b.id) r
    sorted := SqliteLemmas.pairwise_insert h
    inserted := t.inserted + 1 }

/-- `insertManager`: the key of the new row, or `none` when the insert throws,
and the table after it. -/
def insertManager (ra : Rowid) (t : Manageremps) (r : FetchDatafromSQLite) :
    Option Int × Manageremps :=
  match r.id with
  | none => (some (ra.key t), t.insertRow (r.toMap (ra.key t)) (ra.key_fresh t))
  | some k => if h : k ∈ t.ids then (none, t) else (some k, t.insertRow (r.toMap k) h)

/-- `updateManager`: whether a row matched `id = ?`, and the table after it. -/
def updateManager (t : Manageremps) (r : FetchDatafromSQLite) : Bool × Manageremps :=
  match r.id with
  | none => (false, t)
  | some k =>
    (decide (k ∈ t.ids),
      { t with
        rows := t.rows.map fun a => if a.id = k then r.toMap k else a
        sorted := SqliteLemmas.pairwise_replace (r := r.toMap k) rfl t.sorted })

/-- `deleteManager`: the number of deleted rows, and the table after it. -/
def deleteManager (t : Manageremps) (r : FetchDatafromSQLite) : Nat × Manageremps :=
  (t.rows.countP fun a => decide (r.id = some a.id),
    { t with
      rows := t.rows.filter fun a => !decide (r.id = some a.id)
      sorted := t.sorted.filter _ })

/-- `getManager`. -/
def getManager (t : Manageremps) : List FetchDatafromSQLite := t.rows.map Row.fetch

/-! ## What the operations do to the records read back -/

theorem fetch_toMap (r : FetchDatafromSQLite) (k : Int) :
    (r.toMap k).fetch = { r with id := some k } := by
  obtain ⟨id, ymd, eb, ob, ie, io, we, wo⟩ := r
  cases eb <;> cases ob <;> rfl

@[simp] theorem fetch_id (r : Row) : r.fetch.id = some r.id := rfl

theorem mem_ids {t : Manageremps} {k : Int} : k ∈ t.ids ↔ ∃ r ∈ getManager t, r.id = some k := by
  simp [Manageremps.ids, getManager, Row.fetch]

/-- Every record read back carries a key in use. -/
theorem id_of_mem {t : Manageremps} {r : FetchDatafromSQLite} (h : r ∈ getManager t) :
    ∃ k ∈ t.ids, r.id = some k := by
  obtain ⟨a, ha, rfl⟩ := List.mem_map.mp h
  exact ⟨a.id, List.mem_map_of_mem ha, rfl⟩

theorem nodup_ids (t : Manageremps) : t.ids.Nodup :=
  List.pairwise_map.mpr (t.sorted.imp fun hab => ne_of_lt hab)

/-- Two records with the same key are the same record. -/
theorem eq_of_id_eq {t : Manageremps} {r r' : FetchDatafromSQLite} (h : r ∈ getManager t)
    (h' : r' ∈ getManager t) (hid : r.id = r'.id) : r = r' := by
  obtain ⟨a, ha, rfl⟩ := List.mem_map.mp h
  obtain ⟨b, hb, rfl⟩ := List.mem_map.mp h'
  rw [List.inj_on_of_nodup_map (nodup_ids t) ha hb (Option.some.inj hid)]

/-! An insert either adds one record under a fresh key or fails. -/

theorem mem_insertRow {t : Manageremps} {r : FetchDatafromSQLite} {k : Int} (h : k ∉ t.ids)
    {x : FetchDatafromSQLite} :
    x ∈ getManager (t.insertRow (r.toMap k) h) ↔ x = { r with id := some k } ∨ x ∈ getManager t := by
  simp only [getManager, Manageremps.insertRow, List.mem_map, List.mem_orderedInsert]
  constructor
  · rintro ⟨a, rfl | ha, rfl⟩
    · exact .inl (fetch_toMap r k)
    · exact .inr ⟨a, ha, rfl⟩
  · rintro (rfl | ⟨a, ha, rfl⟩)
    · exact ⟨_, .inl rfl, fetch_toMap r k⟩
    · exact ⟨a, .inr ha, rfl⟩

theorem insertManager_none {ra : Rowid} {t : Manageremps} {r : FetchDatafromSQLite}
    (hid : r.id = none) :
    insertManager ra t r =
      (some (ra.key t), t.insertRow (r.toMap (ra.key t)) (ra.key_fresh t)) := by
  simp [insertManager, hid]

theorem insertManager_dup {ra : Rowid} {t : Manageremps} {r : FetchDatafromSQLite} {k : Int}
    (hid : r.id = some k) (hk : k ∈ t.ids) : insertManager ra t r = (none, t) := by
  simp [insertManager, hid, hk]

theorem insertManager_new {ra : Rowid} {t : Manageremps} {r : FetchDatafromSQLite} {k : Int}
    (hid : r.id = some k) (hk : k ∉ t.ids) :
    insertManager ra t r = (some k, t.insertRow (r.toMap k) hk) := by
  simp [insertManager, hid, hk]

/-- The records after an insert with a null id. -/
theorem mem_insertManager {ra : Rowid} {t : Manageremps} {r x : FetchDatafromSQLite}
    (hid : r.id = none) :
    x ∈ getManager (insertManager ra t r).2 ↔
      x = { r with id := some (ra.key t) } ∨ x ∈ getManager t := by
  rw [insertManager_none hid]
  exact mem_insertRow (ra.key_fresh t)

theorem subset_insertManager {ra : Rowid} {t : Manageremps} {r x : FetchDatafromSQLite}
    (hx : x ∈ getManager t) : x ∈ getManager (insertManager ra t r).2 := by
  unfold insertManager
  split
  · exact (mem_insertRow (ra.key_fresh t)).mpr (.inr hx)
  · split
    · exact hx
    · next hk => exact (mem_insertRow hk).mpr (.inr hx)

/-! An update rewrites the record with its key and touches no other. -/

theorem updateManager_none {t : Manageremps} {r : FetchDatafromSQLite} (hid : r.id = none) :
    updateManager t r = (false, t) := by
  simp [updateManager, hid]

theorem updateManager_found {t : Manageremps} {r : FetchDatafromSQLite} {k : Int}
    (hid : r.id = some k) : (updateManager t r).1 = decide (k ∈ t.ids) := by
  simp [updateManager, hid]

theorem mem_updateManager {t : Manageremps} {r x : FetchDatafromSQLite} {k : Int}
    (hid : r.id = some k) :
    x ∈ getManager (updateManager t r).2 ↔
      ∃ a ∈ getManager t, x = if a.id = some k then r else a := by
  have hfetch : ∀ a : Row, (if a.id = k then r.toMap k else a).fetch =
      if a.fetch.id = some k then r else a.fetch := by
    intro a
    by_cases ha : a.id = k
    · rw [if_pos ha, if_pos (by rw [fetch_id, ha]), fetch_toMap, ← hid]
    · rw [if_neg ha, if_neg (by simpa using ha)]
  simp only [getManager, updateManager, hid, List.map_map, List.mem_map, Function.comp_apply, hfetch]
  constructor
  · rintro ⟨a, ha, rfl⟩
    exact ⟨_, ⟨a, ha, rfl⟩, rfl⟩
  · rintro ⟨_, ⟨a, ha, rfl⟩, rfl⟩
    exact ⟨a, ha, rfl⟩

theorem ids_updateManager (t : Manageremps) (r : FetchDatafromSQLite) :
    (updateManager t r).2.ids = t.ids := by
  unfold updateManager
  split
  · rfl
  · simp only [Manageremps.ids, List.map_map]
    refine List.map_congr_left fun a _ => ?_
    simp only [Function.comp_apply]
    split
    · next h => exact h.symm
    · rfl

/-! A delete removes the record with its key and no other. -/

theorem mem_deleteManager {t : Manageremps} {r x : FetchDatafromSQLite} :
    x ∈ getManager (deleteManager t r).2 ↔ x ∈ getManager t ∧ x.id ≠ r.id := by
  simp only [getManager, deleteManager, List.mem_map, List.mem_filter]
  constructor
  · rintro ⟨a, ⟨ha, hne⟩, rfl⟩
    exact ⟨⟨a, ha, rfl⟩, fun he => by simp [← he] at hne⟩
  · rintro ⟨⟨a, ha, rfl⟩, hne⟩
    exact ⟨a, ⟨ha, by simpa using fun he => hne he.symm⟩, rfl⟩

theorem deleteManager_some {t : Manageremps} {r : FetchDatafromSQLite} {k : Int}
    (hid : r.id = some k) : (deleteManager t r).1 = t.ids.count k := by
  simp only [deleteManager, hid, Manageremps.ids, List.count, List.countP_map]
  refine List.countP_congr fun a _ => ?_
  simp only [decide_eq_true_eq, Option.some.injEq, Function.comp_apply, beq_iff_eq]
  exact eq_comm

theorem deleteManager_none {t : Manageremps} {r : FetchDatafromSQLite} (hid : r.id = none) :
    (deleteManager t r).1 = 0 := by
  simp [deleteManager, hid]

end ShainManager
