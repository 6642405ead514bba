import ShainManager.Attendance.DayKeys
import ShainManager.MonthList.Cards
import ShainManager.MonthList.Dates

/-!
# From the attendance page to the remote database

The table that the attendance page writes is read by the month list, whose cards send its rows
to `users/<uid>/timework`. `Office` is the attendance page with everything that comes after it:
the lists that have been opened, the presses of EXCEL提出 whose read has not come back, and the
calls of `sendtimeworkDatabase` that wait for the signed-in user. A list and a press see the
table of the moment of their own read, so a press may send rows that its list does not show.

* `month_list_never_throws`: on every table that the attendance page can leave, no builder and
  no press of the month list throws.
* `remote_whole_rows`: whatever is interleaved, a submitted day is always one whole row that a
  press has read.
* `last_submission_wins`: when the calls resume in the order in which they were started, a day
  holds the row that was read last.
-/

namespace ShainManager

open Machine PathTree SubmissionLemmas MonthListLemmas

variable {ra : Rowid} {mode : Mode}

/-! ## The keys of the table -/

/-- The clock shows a year of four digits when the page is built. -/
def FourDigitYears (_ : State) : Event → Prop
  | .build t => 1000 ≤ t.year ∧ t.year ≤ 9999
  | _ => True

instance (s : State) : ∀ e, Decidable (FourDigitYears s e)
  | .build _ => inferInstanceAs (Decidable (_ ∧ _))
  | .openPage | .press _ | .expire _ _ | .exec | .deliver _ | .connectivity _ | .wifi _ _ =>
    .isTrue trivial

theorem DateTime.eightDigit_ymdKey (t : DateTime) (hyear : 1000 ≤ t.year ∧ t.year ≤ 9999) :
    EightDigit t.ymdKey := by
  have hy := DatesLemmas.writes_nowyear_four hyear
  constructor
  · rw [← String.length_toList, t.toList_ymdKey, List.length_append, List.length_append,
      hy.length, t.writes_nowmonth.length, t.writes_nowday.length]
  · exact (t.dayKey_ymdKey hyear.1).digits

theorem reachable_eightDigit {s : State} (h : Reachable ra mode FourDigitYears s) :
    ∀ r ∈ getManager s.db, EightDigit r.ymdWork :=
  (reachable_keysHold (fun _ t ho => t.eightDigit_ymdKey ho) h).rows

/-- What a press of the card of `data` sends, from rows with keys of eight digits. -/
theorem excelOnPressed_eq {datas results : List FetchDatafromSQLite} {index : Nat}
    {data : FetchDatafromSQLite} (hdata : datas[index]? = some data)
    (h8 : EightDigit data.ymdWork) (hresults : ∀ r ∈ results, EightDigit r.ymdWork) :
    excelOnPressed datas index results =
      some (yearOf data.ymdWork ++ monthOf data.ymdWork,
        results.filter fun r => decide (SameMonth data r)) := by
  unfold excelOnPressed
  rw [hdata]
  simp only [Option.bind_eq_bind, Option.bind_some, h8.substring_year, h8.substring_month]
  rw [excelLoop_eq fun r hr => (hresults r hr).dayKey,
    List.filter_congr fun r hr => decide_eq_decide.mpr (ofMonth_iff h8 (hresults r hr))]
  rfl

/-- For every state of the attendance page that a run with years of four digits reaches, every
page of the month list, whatever its builders have left in its fields, and every index of the
list: neither builder throws, and a press of the card at the index, which reads the table of
another such state, starts a call for exactly the rows of the year and month of its row. -/
theorem month_list_never_throws (formatter : DateFormatter) {s s' : State}
    (h : Reachable ra mode FourDigitYears s) (h' : Reachable ra mode FourDigitYears s')
    (page : ListPage) {index : Nat} {data : FetchDatafromSQLite}
    (hdata : (getManager s.db)[index]? = some data) :
    ((outerItem (getManager s.db) index).call page).1 ≠ none ∧
    ((innerItem formatter (getManager s.db) index).call page).1 ≠ none ∧
    excelOnPressed (getManager s.db) index (getManager s'.db) =
      some (yearOf data.ymdWork ++ monthOf data.ymdWork,
        (getManager s'.db).filter fun r => decide (SameMonth data r)) := by
  have h8 := reachable_eightDigit h data (List.mem_of_getElem? hdata)
  refine ⟨?_, ?_, excelOnPressed_eq hdata h8 (reachable_eightDigit h')⟩
  · by_cases hc : Complete data
    · rw [outerItem_complete hdata hc h8.substring_year h8.substring_month]
      split
      · exact Option.some_ne_none _
      · exact Option.some_ne_none _
    · rw [outerItem_incomplete hdata hc]
      exact Option.some_ne_none _
  · obtain ⟨dateformat, page', -, -, hcall⟩ := innerItem_eq formatter hdata h8 page
    rw [hcall]
    exact Option.some_ne_none _

/-- The list of `regularDay`, whose card is pressed when the next day has been entered. -/
theorem month_list_never_throws_regular :
    ∃ s s' data, Reachable .succMax .debug FourDigitYears s ∧
      Reachable .succMax .debug FourDigitYears s' ∧ (getManager s.db)[0]? = some data ∧
      data.ymdWork = "20191227" ∧ (getManager s'.db).length = 2 ∧
      excelOnPressed (getManager s.db) 0 (getManager s'.db) =
        some (yearOf data.ymdWork ++ monthOf data.ymdWork,
          (getManager s'.db).filter fun r => decide (SameMonth data r)) := by
  obtain ⟨s, hs, hday⟩ := exists_reach_of_run (step .succMax .debug) FourDigitYears .init regularDay
    (p := fun s => (getManager s.db)[0]?.map (·.ymdWork) = some "20191227") (by decide)
  obtain ⟨s', hs', htwo⟩ := exists_reach_of_run (step .succMax .debug) FourDigitYears .init
    (regularDay ++ [.openPage, .build nextMorning, .press .enter, .expire 0 nextMorning, .exec, .exec])
    (p := fun s => (getManager s.db).length = 2) (by decide)
  obtain ⟨data, hdata, hkey⟩ := Option.map_eq_some_iff.mp hday
  exact ⟨s, s', data, hs, hs', hdata, hkey, htwo,
    (month_list_never_throws .calendar hs hs' {} hdata).2.2⟩

/-! ## The office -/

/-- `phone` is the attendance page with the local table. `lists` holds the rows of each month
list that has been opened, `reads` the list and the index of each press of EXCEL提出 whose
`getManager` has not come back, and `calls` the started calls of `sendtimeworkDatabase`, with
their flag. `sent` is the history of the started calls. -/
structure Office where
  phone : State := .init
  lists : List (List FetchDatafromSQLite) := []
  reads : List (List FetchDatafromSQLite × Nat) := []
  calls : List (FetchDatafromSQLite × String) := []
  remote : RealtimeDb := fun _ => none
  sent : List FetchDatafromSQLite := []

/-- * `attend`: an event of the attendance page;
* `openList`: the read of a month list comes back;
* `excel l index`: EXCEL提出 is pressed on the card at `index` of the list `l`;
* `results k`: the read of a press comes back and its loop runs;
* `resume k uid`: `currentUser` of a call comes back with the user of that moment, and the
  rest of `sendtimeworkDatabase` runs;
* `signUp`: an account is registered. -/
inductive OfficeEvent
  | attend (e : Event)
  | openList
  | excel (l index : Nat)
  | results (k : Nat)
  | resume (k : Nat) (uid : Option String)
  | signUp (uid email password nickname : String)

def officeStep (ra : Rowid) (mode : Mode) (s : Office) : OfficeEvent → Option Office
  | .attend e => (step ra mode s.phone e).map fun phone => { s with phone }
  | .openList => some { s with lists := s.lists ++ [getManager s.phone.db] }
  | .excel l index =>
    (s.lists[l]?).map fun datas => { s with reads := s.reads ++ [(datas, index)] }
  | .results k =>
    (s.reads[k]?).map fun x =>
      match excelOnPressed x.1 x.2 (getManager s.phone.db) with
      | none => { s with reads := s.reads.eraseIdx k }
      | some (flag, rows) =>
        { s with
          reads := s.reads.eraseIdx k
          calls := s.calls ++ rows.map fun r => (r, flag)
          sent := s.sent ++ rows }
  | .resume k uid =>
    (s.calls[k]?).map fun c =>
      { s with
        calls := s.calls.eraseIdx k
        remote := sendtimeworkDatabase s.remote uid c.1 c.2 }
  | .signUp uid email password nickname =>
    some { s with remote := signUpSet s.remote uid email password nickname }

/-- The clock of the phone shows years of four digits. -/
def OfficeYears (s : Office) : OfficeEvent → Prop
  | .attend e => FourDigitYears s.phone e
  | _ => True

instance (s : Office) : ∀ e, Decidable (OfficeYears s e)
  | .attend e => inferInstanceAs (Decidable (FourDigitYears s.phone e))
  | .openList | .excel _ _ | .results _ | .resume _ _ | .signUp _ _ _ _ => .isTrue trivial

/-! ## What one write leaves -/

namespace PipelineLemmas

section

variable {uid uid' k : String} {db : RealtimeDb}

theorem dayOf_eq_user (uid k : String) (db : RealtimeDb) :
    dayOf uid k db = sub ["timework", k] (sub (userPath uid) db) :=
  (sub_sub (userPath uid) ["timework", k] db).symm

/-- A registration empties the submitted days of its own account. -/
theorem dayOf_signUpSet_self (email password nickname : String) :
    dayOf uid k (signUpSet db uid email password nickname) = fun _ => none := by
  rw [dayOf_eq_sub, signUpSet_timework]
  funext q
  simp [sub, leaf]

theorem dayOf_signUpSet_other (h : uid' ≠ uid) (email password nickname : String) :
    dayOf uid k (signUpSet db uid' email password nickname) = dayOf uid k db := by
  rw [dayOf_eq_user, sub_signUpSet_other db h, ← dayOf_eq_user]

/-- A call does not reach another account. -/
theorem dayOf_send_user (h : uid' ≠ uid) (data : FetchDatafromSQLite) (flag : String) :
    dayOf uid k (sendtimeworkDatabase db (some uid') data flag) = dayOf uid k db := by
  have hap : Apart (userPath uid') (userPath uid) := apart_userPath h
  unfold dayOf sendtimeworkDatabase
  rw [sub_update_apart, sub_update_apart]
  · intro kv _
    exact (hap.append_left (["timework"] ++ [data.ymdWork] ++ [kv.1])).append_right ["timework", k]
  · intro kv _
    exact (hap.append_left (["timework"] ++ [kv.1])).append_right ["timework", k]

end

/-- A submitted day is absent or one whole row of `rows`. -/
def WholeRow (rows : List FetchDatafromSQLite) (k : String) (t : Tree String Value) : Prop :=
  t = (fun _ => none) ∨ ∃ r ∈ rows, r.ymdWork = k ∧ HoldsRow t r

theorem WholeRow.mono {rows rows' : List FetchDatafromSQLite} {k : String} {t : Tree String Value}
    (hsub : ∀ r ∈ rows, r ∈ rows') (h : WholeRow rows k t) : WholeRow rows' k t := by
  rcases h with h | ⟨r, hr, hk, h⟩
  · exact .inl h
  · exact .inr ⟨r, hsub r hr, hk, h⟩

theorem WholeRow.fieldsOnly {rows : List FetchDatafromSQLite} {k : String} {t : Tree String Value}
    (h : WholeRow rows k t) : FieldsOnly t := by
  rcases h with rfl | ⟨r, -, -, h⟩
  · intro q hq
    exact absurd rfl hq
  · exact h.only

/-- One call, whoever is signed in. -/
theorem wholeRow_send {rows : List FetchDatafromSQLite} {uid k flag : String} {db : RealtimeDb}
    {data : FetchDatafromSQLite} (user : Option String) (hmem : data ∈ rows)
    (hday : DayKey data.ymdWork) (hk : DayKey k) (h : WholeRow rows k (dayOf uid k db)) :
    WholeRow rows k (dayOf uid k (sendtimeworkDatabase db user data flag)) := by
  cases user with
  | none => exact h
  | some uid' =>
    by_cases hu : uid' = uid
    · subst hu
      by_cases hkd : k = data.ymdWork
      · subst hkd
        exact .inr ⟨data, hmem, rfl, holdsRow_send flag hday h.fieldsOnly⟩
      · rw [dayOf_send_other hkd (DayKey.ne_flag hk)]
        exact h
    · rw [dayOf_send_user hu]
      exact h

end PipelineLemmas

open PipelineLemmas

/-! ## What a run keeps -/

/-- The phone is in a state of its own runs, the lists and the pending calls hold rows that it
has had, and a submitted day is absent or one whole row. -/
structure OfficeInv (ra : Rowid) (mode : Mode) (s : Office) : Prop where
  phone : Reachable ra mode FourDigitYears s.phone
  lists : ∀ datas ∈ s.lists, ∀ r ∈ datas, EightDigit r.ymdWork
  reads : ∀ x ∈ s.reads, ∀ r ∈ x.1, EightDigit r.ymdWork
  calls : ∀ c ∈ s.calls, c.1 ∈ s.sent
  sent : ∀ r ∈ s.sent, DayKey r.ymdWork
  remote : ∀ uid k, DayKey k → WholeRow s.sent k (dayOf uid k s.remote)

/-- The calls that a press starts are rows of the table of its read. -/
theorem mem_of_excelOnPressed {datas results rows : List FetchDatafromSQLite} {index : Nat}
    {flag : String} (h8 : ∀ r ∈ results, EightDigit r.ymdWork)
    (h : excelOnPressed datas index results = some (flag, rows)) :
    ∀ r ∈ rows, r ∈ results := by
  intro r hr
  rw [calls_of_excelOnPressed h, excelLoop_eq fun r hr => (h8 r hr).dayKey] at hr
  exact List.mem_of_mem_filter hr

theorem officeInv_step {s s' : Office} {e : OfficeEvent} (hi : OfficeInv ra mode s)
    (ho : OfficeYears s e) (hs : officeStep ra mode s e = some s') : OfficeInv ra mode s' := by
  have htable := reachable_eightDigit hi.phone
  cases e with
  | attend e =>
    obtain ⟨phone, hphone, rfl⟩ := Option.map_eq_some_iff.mp hs
    exact ⟨hi.phone.next ho hphone, hi.lists, hi.reads, hi.calls, hi.sent, hi.remote⟩
  | openList =>
    cases hs
    refine ⟨hi.phone, fun datas hd => ?_, hi.reads, hi.calls, hi.sent, hi.remote⟩
    rcases List.mem_append.mp hd with hd | hd
    · exact hi.lists datas hd
    · rw [List.mem_singleton.mp hd]
      exact htable
  | excel l index =>
    obtain ⟨datas, hdatas, rfl⟩ := Option.map_eq_some_iff.mp hs
    refine ⟨hi.phone, hi.lists, fun x hx => ?_, hi.calls, hi.sent, hi.remote⟩
    rcases List.mem_append.mp hx with hx | hx
    · exact hi.reads x hx
    · rw [List.mem_singleton.mp hx]
      exact hi.lists datas (List.mem_of_getElem? hdatas)
  | results k =>
    obtain ⟨x, hx, rfl⟩ := Option.map_eq_some_iff.mp hs
    have hreads : ∀ y ∈ s.reads.eraseIdx k, ∀ r ∈ y.1, EightDigit r.ymdWork :=
      fun y hy => hi.reads y (List.mem_of_mem_eraseIdx hy)
    split
    · exact ⟨hi.phone, hi.lists, hreads, hi.calls, hi.sent, hi.remote⟩
    · next flag rows hpress =>
      have hrows := mem_of_excelOnPressed htable hpress
      refine ⟨hi.phone, hi.lists, hreads, fun c hc => ?_, fun r hr => ?_, fun uid k hk => ?_⟩
      · rcases List.mem_append.mp hc with hc | hc
        · exact List.mem_append_left _ (hi.calls c hc)
        · obtain ⟨r, hr, rfl⟩ := List.mem_map.mp hc
          exact List.mem_append_right _ hr
      · rcases List.mem_append.mp hr with hr | hr
        · exact hi.sent r hr
        · exact (htable r (hrows r hr)).dayKey
      · exact (hi.remote uid k hk).mono fun r hr => List.mem_append_left _ hr
  | resume k user =>
    obtain ⟨c, hc, rfl⟩ := Option.map_eq_some_iff.mp hs
    have hmem := hi.calls c (List.mem_of_getElem? hc)
    exact ⟨hi.phone, hi.lists, hi.reads, fun c' hc' => hi.calls c' (List.mem_of_mem_eraseIdx hc'),
      hi.sent, fun uid k hk => wholeRow_send user hmem (hi.sent _ hmem) hk (hi.remote uid k hk)⟩
  | signUp uid' email password nickname =>
    cases hs
    refine ⟨hi.phone, hi.lists, hi.reads, hi.calls, hi.sent, fun uid k hk => ?_⟩
    by_cases hu : uid' = uid
    · subst hu
      exact .inl (dayOf_signUpSet_self email password nickname)
    · show WholeRow s.sent k (dayOf uid k (signUpSet s.remote uid' email password nickname))
      rw [dayOf_signUpSet_other hu]
      exact hi.remote uid k hk

theorem officeInv_init : OfficeInv ra mode {} :=
  ⟨.start, fun _ h => absurd h List.not_mem_nil, fun _ h => absurd h List.not_mem_nil,
    fun _ h => absurd h List.not_mem_nil, fun _ h => absurd h List.not_mem_nil,
    fun _ _ _ => .inl rfl⟩

theorem officeInv_reachable {ok : Office → OfficeEvent → Prop}
    (hok : ∀ s e, ok s e → OfficeYears s e) {s : Office}
    (h : Reach (officeStep ra mode) ok {} s) : OfficeInv ra mode s :=
  h.invariant officeInv_init fun _ hi ho hs => officeInv_step hi (hok _ _ ho) hs

/-- A sent row was a row of the phone's table at an earlier moment of the run. -/
theorem sent_held {s : Office} (h : Reach (officeStep ra mode) OfficeYears {} s) :
    ∀ r ∈ s.sent, ∃ s₀, Reach (officeStep ra mode) OfficeYears {} s₀ ∧
      Reach (officeStep ra mode) OfficeYears s₀ s ∧ r ∈ getManager s₀.phone.db := by
  refine h.invariant (I := fun s => ∀ r ∈ s.sent, ∃ s₀, Reach (officeStep ra mode) OfficeYears {} s₀ ∧
    Reach (officeStep ra mode) OfficeYears s₀ s ∧ r ∈ getManager s₀.phone.db)
    (fun _ hr => absurd hr List.not_mem_nil) ?_
  intro s e s' hreach hi ho hs r hr
  -- only a read that comes back adds to the history
  have hcases : r ∈ s.sent ∨ r ∈ getManager s.phone.db := by
    cases e with
    | results k =>
      obtain ⟨x, -, rfl⟩ := Option.map_eq_some_iff.mp hs
      split at hr
      · exact .inl hr
      · next flag rows hpress =>
        rcases List.mem_append.mp hr with hr | hr
        · exact .inl hr
        · have htable := reachable_eightDigit (officeInv_reachable (fun _ _ h => h) hreach).phone
          exact .inr (mem_of_excelOnPressed htable hpress r hr)
    | attend e =>
      obtain ⟨phone, -, rfl⟩ := Option.map_eq_some_iff.mp hs
      exact .inl hr
    | excel l index =>
      obtain ⟨datas, -, rfl⟩ := Option.map_eq_some_iff.mp hs
      exact .inl hr
    | resume k user =>
      obtain ⟨c, -, rfl⟩ := Option.map_eq_some_iff.mp hs
      exact .inl hr
    | openList | signUp _ _ _ _ =>
      cases hs
      exact .inl hr
  rcases hcases with hr | hr
  · obtain ⟨s₀, h₀, hto, hrow⟩ := hi r hr
    exact ⟨s₀, h₀, hto.next ho hs, hrow⟩
  · exact ⟨s, hreach, Reach.start.next ho hs, hr⟩

/-- In every run of the office with years of four digits, whatever pages, presses, reads, calls,
users and registrations are interleaved: a submitted day of any account is absent or holds
exactly the eight fields of one row, which the phone's table held for that day at an earlier
moment of the run. -/
theorem remote_whole_rows {s : Office} (h : Reach (officeStep ra mode) OfficeYears {} s)
    (uid : String) {k : String} (hk : DayKey k) :
    dayOf uid k s.remote = (fun _ => none) ∨
      ∃ s₀ r, Reach (officeStep ra mode) OfficeYears {} s₀ ∧
        Reach (officeStep ra mode) OfficeYears s₀ s ∧ r ∈ getManager s₀.phone.db ∧
        r.ymdWork = k ∧ HoldsRow (dayOf uid k s.remote) r := by
  rcases (officeInv_reachable (fun _ _ h => h) h).remote uid k hk with hnone | ⟨r, hr, hday, hholds⟩
  · exact .inl hnone
  · obtain ⟨s₀, h₀, hto, hrow⟩ := sent_held h r hr
    exact .inr ⟨s₀, r, h₀, hto, hrow, hday, hholds⟩

/-! ## The last submission -/

/-- The calls resume in the order in which they were started, for the user `u`, whose account
is registered before the first press. -/
def SentInTurn (u : String) (s : Office) : OfficeEvent → Prop
  | .attend e => FourDigitYears s.phone e
  | .resume k user => k = 0 ∧ user = some u
  | .signUp uid _ _ _ => uid = u → s.sent = []
  | _ => True

instance (u : String) (s : Office) : ∀ e, Decidable (SentInTurn u s e)
  | .attend e => inferInstanceAs (Decidable (FourDigitYears s.phone e))
  | .resume _ _ => inferInstanceAs (Decidable (_ ∧ _))
  | .signUp _ _ _ _ => inferInstanceAs (Decidable (_ → _))
  | .openList | .excel _ _ | .results _ => .isTrue trivial

theorem SentInTurn.years {u : String} {s : Office} {e : OfficeEvent} (h : SentInTurn u s e) :
    OfficeYears s e := by
  cases e with
  | attend e => exact h
  | openList | excel _ _ | results _ | resume _ _ | signUp _ _ _ _ => trivial

/-- The place of the day `k` holds the last row of `rows` of that day, and is empty if they have
none. -/
def HoldsLast (rows : List FetchDatafromSQLite) (k : String) (t : Tree String Value) : Prop :=
  match lastOf k rows with
  | none => t = fun _ => none
  | some r => HoldsRow t r

theorem HoldsLast.fieldsOnly {rows : List FetchDatafromSQLite} {k : String} {t : Tree String Value}
    (h : HoldsLast rows k t) : FieldsOnly t := by
  unfold HoldsLast at h
  split at h
  · subst h
    exact fun q hq => absurd rfl hq
  · exact h.only

/-- The sent rows are those that have been written and those of the pending calls, and each
day holds the last one written. -/
def WrittenInTurn (u : String) (s : Office) : Prop :=
  ∃ written, s.sent = written ++ s.calls.map Prod.fst ∧
    ∀ k, DayKey k → HoldsLast written k (dayOf u k s.remote)

/-- One more row is written. -/
theorem holdsLast_send {u k flag : String} {db : RealtimeDb} {written : List FetchDatafromSQLite}
    {data : FetchDatafromSQLite} (hday : DayKey data.ymdWork) (hk : DayKey k)
    (h : HoldsLast written k (dayOf u k db)) :
    HoldsLast (written ++ [data]) k (dayOf u k (sendtimeworkDatabase db (some u) data flag)) := by
  by_cases hkd : data.ymdWork = k
  · subst hkd
    have hrow := holdsRow_send flag hday h.fieldsOnly
    unfold HoldsLast
    rw [PageLemmas.lastOf_snoc, if_pos rfl]
    exact hrow
  · unfold HoldsLast
    rw [PageLemmas.lastOf_snoc, if_neg hkd, dayOf_send_other (Ne.symm hkd) (DayKey.ne_flag hk)]
    exact h

theorem writtenInTurn_step {u : String} {s s' : Office} {e : OfficeEvent}
    (hi : OfficeInv ra mode s) (hw : WrittenInTurn u s) (ho : SentInTurn u s e)
    (hs : officeStep ra mode s e = some s') : WrittenInTurn u s' := by
  obtain ⟨written, hsent, hdays⟩ := hw
  cases e with
  | attend e =>
    obtain ⟨phone, -, rfl⟩ := Option.map_eq_some_iff.mp hs
    exact ⟨written, hsent, hdays⟩
  | openList =>
    cases hs
    exact ⟨written, hsent, hdays⟩
  | excel l index =>
    obtain ⟨datas, -, rfl⟩ := Option.map_eq_some_iff.mp hs
    exact ⟨written, hsent, hdays⟩
  | results k =>
    obtain ⟨x, -, rfl⟩ := Option.map_eq_some_iff.mp hs
    split
    · exact ⟨written, hsent, hdays⟩
    · next flag rows hpress =>
      refine ⟨written, ?_, hdays⟩
      have hfst : (rows.map fun r => (r, flag)).map Prod.fst = rows := by
        rw [List.map_map]
        exact List.map_id rows
      simp only [hsent, List.map_append, hfst, List.append_assoc]
  | resume k user =>
    obtain ⟨rfl, rfl⟩ := ho
    obtain ⟨c, hc, rfl⟩ := Option.map_eq_some_iff.mp hs
    have hday := hi.sent _ (hi.calls c (List.mem_of_getElem? hc))
    refine ⟨written ++ [c.1], ?_, fun k hk => holdsLast_send hday hk (hdays k hk)⟩
    cases hcalls : s.calls with
    | nil =>
      rw [hcalls] at hc
      cases hc
    | cons first rest =>
      rw [hcalls] at hc hsent
      cases hc
      simp only [hsent, List.map_cons, List.eraseIdx_zero, List.tail_cons, List.append_assoc,
        List.singleton_append]
  | signUp uid email password nickname =>
    cases hs
    refine ⟨written, hsent, fun k hk => ?_⟩
    show HoldsLast written k (dayOf u k (signUpSet s.remote uid email password nickname))
    by_cases hu : uid = u
    · subst hu
      have hnil : written = [] := by
        rw [ho rfl] at hsent
        exact (List.append_eq_nil_iff.mp hsent.symm).1
      rw [dayOf_signUpSet_self, hnil]
      rfl
    · rw [dayOf_signUpSet_other hu]
      exact hdays k hk

/-- In every run in which the calls resume in the order in which they were started, for one
user: once no call is pending, a submitted day holds the eight fields of the row of that day that
was read last, and the other days are absent. -/
theorem last_submission_wins {u : String} {s : Office}
    (h : Reach (officeStep ra mode) (SentInTurn u) {} s) (hcalls : s.calls = []) {k : String}
    (hk : DayKey k) : HoldsLast s.sent k (dayOf u k s.remote) := by
  have hinv : OfficeInv ra mode s ∧ WrittenInTurn u s := by
    refine h.invariant (I := fun s => OfficeInv ra mode s ∧ WrittenInTurn u s)
      ⟨officeInv_init, [], rfl, fun _ _ => rfl⟩ ?_
    rintro s e s' - ⟨hi, hw⟩ ho hs
    exact ⟨officeInv_step hi ho.years hs, writtenInTurn_step hi hw ho hs⟩
  obtain ⟨written, hsent, hdays⟩ := hinv.2
  rw [hcalls, List.map_nil, List.append_nil] at hsent
  rw [hsent]
  exact hdays k hk

/-- The month is sent before and after 退勤. -/
def submittedTwice : List OfficeEvent :=
  [.signUp "u" "a@b.com" "secret" "田中"] ++ (regularDay.take 10).map .attend ++
    [.openList, .excel 0 0, .results 0] ++ (regularDay.drop 10).map .attend ++
    [.excel 0 0, .results 0, .resume 0 (some "u"), .resume 0 (some "u")]

/-- The row of the 27th before 退勤. -/
def enteredRow : FetchDatafromSQLite :=
  ⟨some 1, "20191227", true, false, "assets/img/enter.gif", "assets/img/out.gif", "09時00分", ""⟩

def eveningRow : FetchDatafromSQLite :=
  { enteredRow with outbutton := true, nowWorkout := "18時30分" }

/-- The 27th holds the row of the evening, and the 28th has never been submitted. -/
theorem last_submission_wins_twice :
    ∃ s, Reach (officeStep .succMax .debug) (SentInTurn "u") {} s ∧ s.calls = [] ∧
      s.sent = [enteredRow, eveningRow] ∧
      (let day := dayOf "u" "20191227" s.remote
      day ["id"] = some (.int 1) ∧ day ["ymdWork"] = some (.str "20191227") ∧
        day ["enterbutton"] = some (.bool true) ∧ day ["outbutton"] = some (.bool true) ∧
        day ["imgdirenter"] = some (.str "assets/img/enter.gif") ∧
        day ["imgdirout"] = some (.str "assets/img/out.gif") ∧
        day ["nowWorkenter"] = some (.str "09時00分") ∧
        day ["nowWorkout"] = some (.str "18時30分") ∧ FieldsOnly day) ∧
      dayOf "u" "20191228" s.remote = fun _ => none := by
  obtain ⟨s, hs, hcalls, hsent⟩ := exists_reach_of_run (officeStep .succMax .debug)
    (SentInTurn "u") {} submittedTwice
    (p := fun s => s.calls = [] ∧ s.sent = [enteredRow, eveningRow]) (by decide)
  have hlast := last_submission_wins hs hcalls (k := "20191227") (by decide)
  have hnone := last_submission_wins hs hcalls (k := "20191228") (by decide)
  rw [hsent] at hlast hnone
  have hrow : HoldsRow (dayOf "u" "20191227" s.remote) eveningRow := hlast
  exact ⟨s, hs, hcalls, hsent, ⟨hrow.id, hrow.ymdWork, hrow.enterbutton, hrow.outbutton,
    hrow.imgdirenter, hrow.imgdirout, hrow.nowWorkenter, hrow.nowWorkout, hrow.only⟩, hnone⟩

/-- The same presses, with calls that resume in the other order. The row of the morning stays. -/
theorem remote_whole_rows_reversed :
    ∃ s s₀, Reach (officeStep .succMax .debug) OfficeYears {} s ∧
      s.sent = [enteredRow, eveningRow] ∧ DayKey "20191227" ∧
      (let day := dayOf "u" "20191227" s.remote
      day ["id"] = some (.int 1) ∧ day ["ymdWork"] = some (.str "20191227") ∧
        day ["enterbutton"] = some (.bool true) ∧ day ["outbutton"] = some (.bool false) ∧
        day ["imgdirenter"] = some (.str "assets/img/enter.gif") ∧
        day ["imgdirout"] = some (.str "assets/img/out.gif") ∧
        day ["nowWorkenter"] = some (.str "09時00分") ∧
        day ["nowWorkout"] = some (.str "") ∧ FieldsOnly day) ∧
      Reach (officeStep .succMax .debug) OfficeYears {} s₀ ∧
      Reach (officeStep .succMax .debug) OfficeYears s₀ s ∧ enteredRow ∈ getManager s₀.phone.db := by
  obtain ⟨s, hs, hsent, hid, hymdWork, henterbutton, houtbutton, himgdirenter, himgdirout,
      hnowWorkenter, hnowWorkout⟩ := exists_reach_of_run (officeStep .succMax .debug) OfficeYears {}
    (submittedTwice.take 21 ++ [.excel 0 0, .results 0, .resume 1 (some "u"), .resume 0 (some "u")])
    (p := fun s => s.sent = [enteredRow, eveningRow] ∧
      (let day := dayOf "u" "20191227" s.remote
      day ["id"] = some (.int 1) ∧ day ["ymdWork"] = some (.str "20191227") ∧
        day ["enterbutton"] = some (.bool true) ∧ day ["outbutton"] = some (.bool false) ∧
        day ["imgdirenter"] = some (.str "assets/img/enter.gif") ∧
        day ["imgdirout"] = some (.str "assets/img/out.gif") ∧
        day ["nowWorkenter"] = some (.str "09時00分") ∧
        day ["nowWorkout"] = some (.str ""))) (by decide)
  rcases remote_whole_rows hs "u" (k := "20191227") (by decide) with hnone | hheld
  · rw [hnone] at hid
    cases hid
  · obtain ⟨s₀, r, h₀, hto, hmem, -, hrow⟩ := hheld
    have hentered : HoldsRow (dayOf "u" "20191227" s.remote) enteredRow :=
      ⟨hid, hymdWork, henterbutton, houtbutton, himgdirenter, himgdirout, hnowWorkenter,
        hnowWorkout, hrow.only⟩
    obtain rfl := HoldsRow.unique hrow hentered
    exact ⟨s, s₀, hs, hsent, by decide, ⟨hid, hymdWork, henterbutton, houtbutton, himgdirenter,
      himgdirout, hnowWorkenter, hnowWorkout, hrow.only⟩, h₀, hto, hmem⟩

end ShainManager
