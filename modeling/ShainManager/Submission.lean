import ShainManager.Clock
import ShainManager.Dart
import ShainManager.Sqlite
import ShainManager.Users

/-!
# The submission of a month

`lib/ui/listtaikin.dart`. A press of EXCEL提出 on the card of a year and month reads
the local table and calls `sendtimeworkDatabase` for every row of the month, without
awaiting the calls. Each call awaits the signed-in user and then writes the eight
fields of its row and the flag. The calls resume in any order.

* `month_submission`: what the press leaves behind, for every order.
-/

namespace ShainManager

open PathTree

/-! ## Sending -/

/-- The map of the first update of `sendtimeworkDatabase`. -/
def FetchDatafromSQLite.timework (data : FetchDatafromSQLite) : List (String × Option Value) :=
  [("id", data.id.map .int),
   ("ymdWork", some (.str data.ymdWork)),
   ("enterbutton", some (.bool data.enterbutton)),
   ("outbutton", some (.bool data.outbutton)),
   ("imgdirenter", some (.str data.imgdirenter)),
   ("imgdirout", some (.str data.imgdirout)),
   ("nowWorkenter", some (.str data.nowWorkenter)),
   ("nowWorkout", some (.str data.nowWorkout))]

/-- `sendtimeworkDatabase` from the end of its await, with the `uid` that it got. -/
def sendtimeworkDatabase (db : RealtimeDb) (uid : Option String) (data : FetchDatafromSQLite)
    (flag : String) : RealtimeDb :=
  match uid with
  | none => db
  | some uid =>
    update (timeworkPath uid) [("flag", some (.str flag))]
      (update (timeworkPath uid ++ [data.ymdWork]) data.timework db)

/-- The calls that the loop of `onPressed` starts, in order. A key that is too short
ends the loop with a RangeError. -/
def excelLoop (sendyearmonth : String) : List FetchDatafromSQLite → List FetchDatafromSQLite
  | [] => []
  | result :: results =>
    match substring result.ymdWork 0 6 with
    | none => []
    | some ym =>
      if ym = sendyearmonth then result :: excelLoop sendyearmonth results
      else excelLoop sendyearmonth results

/-- `onPressed` of the button on the card at `index`, with the rows `datas` that the
page shows and the rows `results` that it reads: the year and month, and the calls. -/
def excelOnPressed (datas : List FetchDatafromSQLite) (index : Nat)
    (results : List FetchDatafromSQLite) : Option (String × List FetchDatafromSQLite) := do
  let data ← datas[index]?
  let sendyear ← substring data.ymdWork 0 4
  let sendmonth ← substring data.ymdWork 4 6
  let sendyearmonth := sendyear ++ sendmonth
  return (sendyearmonth, excelLoop sendyearmonth results)

/-- The calls resume one after the other, all for the signed-in user `uid`. -/
def resumeAll (uid flag : String) (db : RealtimeDb) (order : List FetchDatafromSQLite) :
    RealtimeDb :=
  order.foldl (fun db data => sendtimeworkDatabase db (some uid) data flag) db

/-! ## The states before -/

/-- A local table whose keys are days. -/
structure LocalTable where
  table : Manageremps
  days : ∀ r ∈ getManager table, DayKey r.ymdWork

/-- The database can be what `signUp` and submissions of `uid` left of
`users/<uid>/timework`, whatever happened elsewhere. -/
inductive Left (uid : String) : RealtimeDb → Prop
  | signUp (db : RealtimeDb) (email password nickname : String) :
      Left uid (signUpSet db uid email password nickname)
  | send {db : RealtimeDb} {data : FetchDatafromSQLite} (flag : String) (h : Left uid db)
      (hday : DayKey data.ymdWork) : Left uid (sendtimeworkDatabase db (some uid) data flag)
  | elsewhere {db db' : RealtimeDb} (h : Left uid db)
      (hsub : sub (timeworkPath uid) db' = sub (timeworkPath uid) db) : Left uid db'

/-- The child `k` of `users/<uid>/timework`. -/
def dayOf (uid k : String) (db : RealtimeDb) : Tree String Value := sub (timeworkPath uid ++ [k]) db

/-- The key belongs to the year and month. -/
def OfMonth (ym k : String) : Prop := substring k 0 6 = some ym

instance (ym k : String) : Decidable (OfMonth ym k) := inferInstanceAs (Decidable (_ = _))

/-- The place holds nothing but fields of a row. -/
def FieldsOnly (t : Tree String Value) : Prop :=
  ∀ q, t q ≠ none → ∃ f ∈ ["id", "ymdWork", "enterbutton", "outbutton", "imgdirenter", "imgdirout",
    "nowWorkenter", "nowWorkout"], q = [f]

/-- The place holds the eight fields of the row `r`, each under its own name, and nothing else. -/
structure HoldsRow (t : Tree String Value) (r : FetchDatafromSQLite) : Prop where
  id : t ["id"] = r.id.map .int
  ymdWork : t ["ymdWork"] = some (.str r.ymdWork)
  enterbutton : t ["enterbutton"] = some (.bool r.enterbutton)
  outbutton : t ["outbutton"] = some (.bool r.outbutton)
  imgdirenter : t ["imgdirenter"] = some (.str r.imgdirenter)
  imgdirout : t ["imgdirout"] = some (.str r.imgdirout)
  nowWorkenter : t ["nowWorkenter"] = some (.str r.nowWorkenter)
  nowWorkout : t ["nowWorkout"] = some (.str r.nowWorkout)
  only : FieldsOnly t

namespace SubmissionLemmas

theorem DayKey.ne_flag {k : String} (h : DayKey k) : k ≠ "flag" := by
  rintro rfl
  exact absurd h.length (by decide)

theorem dayOf_eq_sub (uid k : String) (db : RealtimeDb) :
    dayOf uid k db = sub [k] (sub (timeworkPath uid) db) :=
  (sub_sub (timeworkPath uid) [k] db).symm

theorem timework_nodup (data : FetchDatafromSQLite) : (data.timework.map Prod.fst).Nodup := by
  show ["id", "ymdWork", "enterbutton", "outbutton", "imgdirenter", "imgdirout", "nowWorkenter",
    "nowWorkout"].Nodup
  decide

/-! ### One call -/

section

variable {uid flag k : String} {db : RealtimeDb} {data : FetchDatafromSQLite}

theorem dayOf_send_other (hk : k ≠ data.ymdWork) (hf : k ≠ "flag") :
    dayOf uid k (sendtimeworkDatabase db (some uid) data flag) = dayOf uid k db := by
  unfold dayOf sendtimeworkDatabase
  rw [sub_update_apart, sub_update_apart]
  · intro kv _
    exact (apart_snoc _ hk.symm).append_left _
  · intro kv hkv
    rw [List.mem_singleton.mp hkv]
    exact apart_snoc _ hf.symm

theorem dayOf_send_flag :
    dayOf uid "flag" (sendtimeworkDatabase db (some uid) data flag) = leaf (.str flag) := by
  unfold dayOf sendtimeworkDatabase
  exact sub_write_self _

theorem fieldsOnly_iff {t : Tree String Value} (data : FetchDatafromSQLite) :
    FieldsOnly t ↔ ∀ q, t q ≠ none → ∃ kv ∈ data.timework, q = [kv.1] := by
  have hkeys : data.timework.map Prod.fst = ["id", "ymdWork", "enterbutton", "outbutton",
    "imgdirenter", "imgdirout", "nowWorkenter", "nowWorkout"] := rfl
  unfold FieldsOnly
  simp only [← hkeys, List.mem_map, exists_exists_and_eq_and]

/-- The map of the update has the fields of its row. -/
theorem holdsRow_node (data : FetchDatafromSQLite) : HoldsRow (node data.timework) data := by
  refine ⟨?_, rfl, rfl, rfl, rfl, rfl, rfl, rfl, (fieldsOnly_iff data).mpr fun _ h => node_support h⟩
  cases h : data.id <;> simp [node, FetchDatafromSQLite.timework, h]

/-- A place holds one row at most. -/
theorem HoldsRow.unique {t : Tree String Value} {r r' : FetchDatafromSQLite} (h : HoldsRow t r)
    (h' : HoldsRow t r') : r = r' := by
  have hid : r.id = r'.id := Option.map_injective (fun _ _ => Value.int.inj) (h.id.symm.trans h'.id)
  have hymdWork := h.ymdWork.symm.trans h'.ymdWork
  have henterbutton := h.enterbutton.symm.trans h'.enterbutton
  have houtbutton := h.outbutton.symm.trans h'.outbutton
  have himgdirenter := h.imgdirenter.symm.trans h'.imgdirenter
  have himgdirout := h.imgdirout.symm.trans h'.imgdirout
  have hnowWorkenter := h.nowWorkenter.symm.trans h'.nowWorkenter
  have hnowWorkout := h.nowWorkout.symm.trans h'.nowWorkout
  cases r
  cases r'
  simp_all

/-- A call leaves its row at its day, whatever fields a row has left there before. -/
theorem holdsRow_send (flag : String) (hday : DayKey data.ymdWork)
    (hshape : FieldsOnly (dayOf uid data.ymdWork db)) :
    HoldsRow (dayOf uid data.ymdWork (sendtimeworkDatabase db (some uid) data flag)) data := by
  have hflag : dayOf uid data.ymdWork (sendtimeworkDatabase db (some uid) data flag) =
      sub (timeworkPath uid ++ [data.ymdWork])
        (update (timeworkPath uid ++ [data.ymdWork]) data.timework db) := by
    refine sub_update_apart fun kv hkv => ?_
    rw [List.mem_singleton.mp hkv]
    exact apart_snoc _ (DayKey.ne_flag hday).symm
  have hnode := update_nil_eq_node (timework_nodup data) ((fieldsOnly_iff data).mp hshape)
  rw [hflag, sub_update_self]
  exact hnode ▸ holdsRow_node data

end

/-- Every submitted day holds the eight fields at most. -/
theorem Left.fieldsOnly {uid : String} {db : RealtimeDb} (h : Left uid db) {k : String}
    (hk : DayKey k) : FieldsOnly (dayOf uid k db) := by
  induction h with
  | signUp db email password nickname =>
    intro q hq
    rw [dayOf_eq_sub, signUpSet_timework] at hq
    exact absurd (by simp [sub, leaf]) hq
  | @send db data flag _ hday ih =>
    by_cases he : k = data.ymdWork
    · subst he
      exact (holdsRow_send flag hday ih).only
    · rw [dayOf_send_other he (DayKey.ne_flag hk)]
      exact ih
  | @elsewhere db db' _ hsub ih =>
    rw [dayOf_eq_sub, hsub, ← dayOf_eq_sub]
    exact ih

/-! ### All calls -/

section

variable {uid flag k : String} {db : RealtimeDb} {order : List FetchDatafromSQLite}

theorem resumeAll_cons (data : FetchDatafromSQLite) :
    resumeAll uid flag db (data :: order) =
      resumeAll uid flag (sendtimeworkDatabase db (some uid) data flag) order := rfl

theorem dayOf_resumeAll_other (hf : k ≠ "flag") (h : ∀ r ∈ order, r.ymdWork ≠ k) :
    dayOf uid k (resumeAll uid flag db order) = dayOf uid k db := by
  induction order generalizing db with
  | nil => rfl
  | cons r order ih =>
    rw [resumeAll_cons, ih fun r' hr' => h r' (List.mem_cons_of_mem _ hr'),
      dayOf_send_other (h r List.mem_cons_self).symm hf]

theorem dayOf_resumeAll_flag (h : order ≠ []) :
    dayOf uid "flag" (resumeAll uid flag db order) = leaf (.str flag) := by
  have hrest : ∀ (order : List FetchDatafromSQLite) {db : RealtimeDb},
      dayOf uid "flag" db = leaf (.str flag) →
      dayOf uid "flag" (resumeAll uid flag db order) = leaf (.str flag) := by
    intro order
    induction order with
    | nil => exact fun h => h
    | cons r order ih => exact fun _ => ih dayOf_send_flag
  cases order with
  | nil => exact absurd rfl h
  | cons r order => exact hrest order dayOf_send_flag

/-- The last call of a day decides the child of the day. -/
theorem dayOf_resumeAll (flag : String) (hk : DayKey k) (hshape : FieldsOnly (dayOf uid k db))
    (h : ∃ r ∈ order, r.ymdWork = k) :
    ∃ r ∈ order, r.ymdWork = k ∧ HoldsRow (dayOf uid k (resumeAll uid flag db order)) r := by
  induction order generalizing db with
  | nil => exact absurd h (by simp)
  | cons r order ih =>
    rw [resumeAll_cons]
    have hstep : FieldsOnly (dayOf uid k (sendtimeworkDatabase db (some uid) r flag)) ∧
        (r.ymdWork = k → HoldsRow (dayOf uid k (sendtimeworkDatabase db (some uid) r flag)) r) := by
      by_cases he : k = r.ymdWork
      · subst he
        have hrow := holdsRow_send flag hk hshape
        exact ⟨hrow.only, fun _ => hrow⟩
      · rw [dayOf_send_other he (DayKey.ne_flag hk)]
        exact ⟨hshape, fun he' => absurd he'.symm he⟩
    by_cases hlater : ∃ r' ∈ order, r'.ymdWork = k
    · obtain ⟨r', hr', hday, hrow⟩ := ih hstep.1 hlater
      exact ⟨r', List.mem_cons_of_mem _ hr', hday, hrow⟩
    · obtain ⟨r', hr', hday⟩ := h
      rcases List.mem_cons.mp hr' with rfl | hr'
      · refine ⟨r', List.mem_cons_self, hday, ?_⟩
        rw [dayOf_resumeAll_other (DayKey.ne_flag hk) fun r'' hr'' he => hlater ⟨r'', hr'', he⟩]
        exact hstep.2 hday
      · exact absurd ⟨r', hr', hday⟩ hlater

end

/-! ### The order of the calls -/

/-- The writes of one call. -/
def callWrites (uid flag : String) (data : FetchDatafromSQLite) :
    List (List String × Option Value) :=
  (data.timework.map fun kv => (timeworkPath uid ++ [data.ymdWork] ++ [kv.1], kv.2)) ++
    [(timeworkPath uid ++ ["flag"], some (.str flag))]

theorem resumeAll_eq_writes (uid flag : String) (db : RealtimeDb)
    (order : List FetchDatafromSQLite) :
    resumeAll uid flag db order = writes (order.flatMap (callWrites uid flag)) db := by
  induction order generalizing db with
  | nil => rfl
  | cons r order ih =>
    rw [resumeAll_cons, ih, List.flatMap_cons, writes_append]
    unfold callWrites
    rw [writes_append]
    rfl

theorem compatible_calls {uid flag : String} {calls : List FetchDatafromSQLite}
    (hdays : ∀ r ∈ calls, DayKey r.ymdWork)
    (hone : ∀ r ∈ calls, ∀ r' ∈ calls, r.ymdWork = r'.ymdWork → r = r') :
    Compatible (calls.flatMap (callWrites uid flag)) := by
  intro w hw w' hw'
  obtain ⟨r, hr, hw⟩ := List.mem_flatMap.mp hw
  obtain ⟨r', hr', hw'⟩ := List.mem_flatMap.mp hw'
  -- a field of a day is apart from the flag
  have hfield : ∀ r ∈ calls, ∀ k : String,
      Apart (timeworkPath uid ++ [r.ymdWork] ++ [k]) (timeworkPath uid ++ ["flag"]) :=
    fun r hr k => (apart_snoc _ (DayKey.ne_flag (hdays r hr))).append_left [k]
  rcases List.mem_append.mp hw with hw | hw <;> rcases List.mem_append.mp hw' with hw' | hw'
  · obtain ⟨kv, hkv, rfl⟩ := List.mem_map.mp hw
    obtain ⟨kv', hkv', rfl⟩ := List.mem_map.mp hw'
    by_cases hday : r.ymdWork = r'.ymdWork
    · obtain rfl := hone r hr r' hr' hday
      by_cases hk : kv.1 = kv'.1
      · have hv : kv = kv' := List.inj_on_of_nodup_map (timework_nodup r) hkv hkv' hk
        exact .inr (by rw [hv])
      · exact .inl (apart_snoc _ hk)
    · exact .inl (((apart_snoc _ hday).append_left _).append_right _)
  · obtain ⟨kv, -, rfl⟩ := List.mem_map.mp hw
    rw [List.mem_singleton.mp hw']
    exact .inl (hfield r hr kv.1)
  · obtain ⟨kv', -, rfl⟩ := List.mem_map.mp hw'
    rw [List.mem_singleton.mp hw]
    exact .inl (hfield r' hr' kv'.1).symm
  · rw [List.mem_singleton.mp hw, List.mem_singleton.mp hw']
    exact .inr rfl

/-! ### The calls of a press -/

theorem substring_six {k : String} (h : DayKey k) : ∃ ym, substring k 0 6 = some ym :=
  ⟨_, if_pos ⟨by decide, h.length⟩⟩

/-- With day keys the loop starts a call for every row of the month. -/
theorem excelLoop_eq {ym : String} {rows : List FetchDatafromSQLite}
    (hdays : ∀ r ∈ rows, DayKey r.ymdWork) :
    excelLoop ym rows = rows.filter fun r => decide (OfMonth ym r.ymdWork) := by
  induction rows with
  | nil => rfl
  | cons r rows ih =>
    obtain ⟨ym', hym⟩ := substring_six (hdays r List.mem_cons_self)
    have hrest := ih fun r' hr' => hdays r' (List.mem_cons_of_mem _ hr')
    unfold excelLoop
    rw [List.filter_cons, hym, hrest]
    simp [OfMonth, hym]

theorem calls_of_excelOnPressed {datas results calls : List FetchDatafromSQLite} {index : Nat}
    {ym : String} (h : excelOnPressed datas index results = some (ym, calls)) :
    calls = excelLoop ym results := by
  unfold excelOnPressed at h
  simp only [Option.bind_eq_bind, Option.bind_eq_some_iff] at h
  obtain ⟨data, -, sendyear, -, sendmonth, -, hpair⟩ := h
  cases hpair
  rfl

end SubmissionLemmas

open SubmissionLemmas

/-- No two rows of the month share a day. -/
def OneRowADay (ym : String) (rows : List FetchDatafromSQLite) : Prop :=
  ∀ r ∈ rows, ∀ r' ∈ rows, OfMonth ym r.ymdWork → r.ymdWork = r'.ymdWork → r = r'

/-- A press of EXCEL提出 for the year and month `ym`, once its calls have resumed in
any order, after anything that `signUp` and earlier submissions can have left:

* the child of every day of the month that has a local row holds the eight fields of a
  local row of that day, and nothing else;
* every other child but `flag` is unchanged;
* `flag` is the year and month, if the month has a local row;
* if no two rows of the month share a day, every order gives the same database, and a
  second press of the button leaves it unchanged. -/
theorem month_submission {uid : String} {db : RealtimeDb} (hleft : Left uid db) (t : LocalTable)
    {datas calls : List FetchDatafromSQLite} {index : Nat} {ym : String}
    (hpress : excelOnPressed datas index (getManager t.table) = some (ym, calls))
    {order : List FetchDatafromSQLite} (horder : order.Perm calls) :
    (∀ r ∈ getManager t.table, OfMonth ym r.ymdWork →
      ∃ r' ∈ getManager t.table, r'.ymdWork = r.ymdWork ∧
        HoldsRow (dayOf uid r.ymdWork (resumeAll uid ym db order)) r') ∧
    (∀ k, k ≠ "flag" → ¬ OfMonth ym k →
      dayOf uid k (resumeAll uid ym db order) = dayOf uid k db) ∧
    ((∃ r ∈ getManager t.table, OfMonth ym r.ymdWork) →
      dayOf uid "flag" (resumeAll uid ym db order) = leaf (.str ym)) ∧
    (OneRowADay ym (getManager t.table) → ∀ order' : List FetchDatafromSQLite, order'.Perm calls →
      resumeAll uid ym db order' = resumeAll uid ym db order ∧
      resumeAll uid ym (resumeAll uid ym db order) order' = resumeAll uid ym db order) := by
  have hcalls : calls = (getManager t.table).filter fun r => decide (OfMonth ym r.ymdWork) := by
    rw [calls_of_excelOnPressed hpress, excelLoop_eq t.days]
  have hmem : ∀ r, r ∈ order ↔ r ∈ getManager t.table ∧ OfMonth ym r.ymdWork := by
    intro r
    rw [horder.mem_iff, hcalls]
    simp
  refine ⟨?_, ?_, ?_, ?_⟩
  · intro r hr hym
    have hday := t.days r hr
    obtain ⟨r', hr', hsame, hrow⟩ := dayOf_resumeAll ym hday
      (Left.fieldsOnly hleft hday) ⟨r, (hmem r).mpr ⟨hr, hym⟩, rfl⟩
    exact ⟨r', ((hmem r').mp hr').1, hsame, hrow⟩
  · intro k hk hym
    refine dayOf_resumeAll_other hk fun r hr he => hym ?_
    rw [← he]
    exact ((hmem r).mp hr).2
  · rintro ⟨r, hr, hym⟩
    exact dayOf_resumeAll_flag (List.ne_nil_of_mem ((hmem r).mpr ⟨hr, hym⟩))
  · intro hone order' horder'
    have hcompat : Compatible (order.flatMap (callWrites uid ym)) := by
      refine compatible_calls (fun r hr => t.days r ((hmem r).mp hr).1) fun r hr r' hr' => ?_
      obtain ⟨hrow, hym⟩ := (hmem r).mp hr
      exact hone r hrow r' ((hmem r').mp hr').1 hym
    have hsame : ∀ db, resumeAll uid ym db order' = resumeAll uid ym db order := by
      intro db
      rw [resumeAll_eq_writes, resumeAll_eq_writes]
      exact (writes_perm hcompat ((horder.trans horder'.symm).flatMap_right _)).symm
    refine ⟨hsame db, ?_⟩
    rw [hsame, resumeAll_eq_writes, resumeAll_eq_writes]
    exact writes_writes hcompat

/-- A table with two days of December 2019 and one of January 2020. -/
def newYearTable : LocalTable where
  table :=
    { rows :=
        [⟨1, "20191226", 1, 1, "e", "o", "09時00分", "18時30分"⟩,
         ⟨2, "20191227", 1, 1, "e", "o", "09時05分", "18時00分"⟩,
         ⟨3, "20200106", 1, 0, "e", "o", "09時10分", ""⟩]
      sorted := by decide }
  days := by decide

/-- The calls for December resume in reverse order, after `signUp`. -/
theorem month_submission_december :
    let rows := getManager newYearTable.table
    let db := signUpSet (fun _ => none) "u" "a@b.com" "secret" "田中"
    let after := resumeAll "u" "201912" db (rows.take 2).reverse
    let day := dayOf "u" "20191226" after
    excelOnPressed rows 0 rows = some ("201912", rows.take 2) ∧ OneRowADay "201912" rows ∧
      (day ["id"] = some (.int 1) ∧ day ["ymdWork"] = some (.str "20191226") ∧
        day ["enterbutton"] = some (.bool true) ∧ day ["outbutton"] = some (.bool true) ∧
        day ["imgdirenter"] = some (.str "e") ∧ day ["imgdirout"] = some (.str "o") ∧
        day ["nowWorkenter"] = some (.str "09時00分") ∧
        day ["nowWorkout"] = some (.str "18時30分") ∧ FieldsOnly day) ∧
      dayOf "u" "flag" after = leaf (.str "201912") ∧
      dayOf "u" "20200106" after = dayOf "u" "20200106" db ∧
      resumeAll "u" "201912" after (rows.take 2) = after := by
  have hpress : excelOnPressed (getManager newYearTable.table) 0 (getManager newYearTable.table) =
      some ("201912", (getManager newYearTable.table).take 2) := by decide
  have hone : OneRowADay "201912" (getManager newYearTable.table) := by
    unfold OneRowADay
    decide
  have hleft : Left "u" (signUpSet (fun _ => none) "u" "a@b.com" "secret" "田中") :=
    .signUp (fun _ => none) "a@b.com" "secret" "田中"
  have h := month_submission hleft newYearTable hpress (List.reverse_perm _)
  -- the table has one row of the 26th, so it is the row that is held
  obtain ⟨r', hr', hday, hrow⟩ := h.1 ⟨some 1, "20191226", true, true, "e", "o", "09時00分", "18時30分"⟩
    (by decide) (by decide)
  obtain rfl : r' = ⟨some 1, "20191226", true, true, "e", "o", "09時00分", "18時30分"⟩ :=
    (by decide : ∀ r ∈ getManager newYearTable.table, r.ymdWork = "20191226" →
      r = ⟨some 1, "20191226", true, true, "e", "o", "09時00分", "18時30分"⟩) r' hr' hday
  exact ⟨hpress, hone, ⟨hrow.id, hrow.ymdWork, hrow.enterbutton, hrow.outbutton, hrow.imgdirenter,
    hrow.imgdirout, hrow.nowWorkenter, hrow.nowWorkout, hrow.only⟩, h.2.2.1 (by decide),
    h.2.1 "20200106" (by decide) (by decide), (h.2.2.2 hone _ (.refl _)).2⟩

end ShainManager
