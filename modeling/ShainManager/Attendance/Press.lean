import ShainManager.Attendance.Invariants

/-!
# One press

What the body of one press writes, in any reachable state. The operation it
issues is executed after all operations issued before it, so it finds the
settled table.

* `press_of_day_iff`: the press is recorded on the day on which its body runs
  exactly when the page was built on that day and holds no other day's id;
  `press_across_midnight` is the failing case.
* `press_recorded_iff`: the press is recorded or leaves the page as it was
  exactly when its operation reaches a row (or the day has such a row already);
  `clock_out_without_row` is the failing case.
-/

namespace ShainManager

open Machine Deferred

variable {ra : Rowid} {mode : Mode} {s s' : State} {k i : Nat} {b : Button} {p p' : Page}
  {t : DateTime} {op : Op} {db : Manageremps} {r : FetchDatafromSQLite}

/-- The key of the row that an operation inserts, or that its WHERE clause
matches. -/
def Op.wrote (ra : Rowid) (db : Manageremps) : Op → Option Int
  | .insert r => (insertManager ra db r).1
  | .update r => if (updateManager db r).1 then r.id else none
  | .read _ => none

/-! ## The row that is written -/

theorem wrote_of_not_writes (hk : Known db r.id) (h : ¬ b.Writes r.id) :
    (b.op r).wrote ra db = none := by
  cases b with
  | enter =>
    obtain ⟨k, hid⟩ := Option.ne_none_iff_exists'.mp h
    show (insertManager ra db r).1 = none
    rw [insertManager_dup hid (hk k hid)]
  | out =>
    show (if (updateManager db r).1 then r.id else none) = none
    rw [updateManager_none (not_not.mp h)]
    rfl

theorem wrote_enter (h : r.id = none) : (Op.insert r).wrote ra db = some (ra.key db) := by
  show (insertManager ra db r).1 = _
  rw [insertManager_none h]

theorem wrote_out (ra : Rowid) {k : Int} (hk : Known db r.id) (h : r.id = some k) :
    (Op.update r).wrote ra db = some k := by
  have hmem : k ∈ db.ids := hk k h
  show (if (updateManager db r).1 then r.id else none) = some k
  simp [updateManager, h, hmem]

/-- A write that reaches a row leaves exactly the record, under the key it
wrote, and every other row as it was. -/
theorem exists_wrote (ra : Rowid) (hk : Known db r.id) (h : b.Writes r.id) :
    ∃ k, (b.op r).wrote ra db = some k ∧
      { r with id := some k } ∈ getManager ((b.op r).exec ra db) ∧
      (∀ x ∈ getManager ((b.op r).exec ra db), x ∈ getManager db ∨ x.id = some k) ∧
      (∀ x ∈ getManager db, x.id ≠ some k → x ∈ getManager ((b.op r).exec ra db)) := by
  cases b with
  | enter =>
    refine ⟨_, wrote_enter h, (mem_insertManager h).mpr (.inl rfl), fun x hx => ?_,
      fun x hx _ => subset_insertManager hx⟩
    rcases (mem_insertManager h).mp hx with rfl | hx
    · exact .inr rfl
    · exact .inl hx
  | out =>
    obtain ⟨k, hid⟩ := Option.ne_none_iff_exists'.mp h
    obtain ⟨a, ha, hak⟩ := mem_ids.mp (hk k hid)
    refine ⟨k, wrote_out ra hk hid, ?_, fun x hx => ?_, fun x hx hne => ?_⟩
    · refine (mem_updateManager hid).mpr ⟨a, ha, ?_⟩
      rw [if_pos hak, ← hid]
    · obtain ⟨c, hc, rfl⟩ := (mem_updateManager hid).mp hx
      split
      · exact .inr hid
      · exact .inl hc
    · exact (mem_updateManager hid).mpr ⟨x, hx, by rw [if_neg hne]⟩

/-! ## The day of a press -/

/-- The operation `op` of a press of `b`, executed on `db`, belongs to the day of
the instant `now`: the row it writes was and is of that day and has the time of
`now`, no other row is new, and every other row, of that day or another, is as it was. -/
structure PressOfDay (ra : Rowid) (db : Manageremps) (op : Op) (b : Button) (now : DateTime) :
    Prop where
  before : ∀ k, op.wrote ra db = some k → ∀ r ∈ getManager db, r.id = some k →
    r.ymdWork = now.ymdKey
  after : ∀ k, op.wrote ra db = some k → ∃ r ∈ getManager (op.exec ra db),
    r.id = some k ∧ r.ymdWork = now.ymdKey ∧ r.time b = now.timeString
  only : ∀ r ∈ getManager (op.exec ra db),
    r ∈ getManager db ∨ ∃ k, op.wrote ra db = some k ∧ r.id = some k
  kept : ∀ r ∈ getManager db, (∀ k, op.wrote ra db = some k → r.id ≠ some k) →
    r ∈ getManager (op.exec ra db)
  others : ∀ r ∈ getManager db, r.ymdWork ≠ now.ymdKey → r ∈ getManager (op.exec ra db)

theorem pressOfDay_of_not_writes (hk : Known db r.id) (h : ¬ b.Writes r.id) :
    PressOfDay ra db (b.op r) b t := by
  have hw : (b.op r).wrote ra db = none := wrote_of_not_writes hk h
  have he : (b.op r).exec ra db = db := exec_of_not_writes hk h
  refine ⟨fun k hwk => ?_, fun k hwk => ?_, fun x hx => ?_, fun x hx _ => ?_, fun x hx _ => ?_⟩
  · rw [hw] at hwk
    cases hwk
  · rw [hw] at hwk
    cases hwk
  · rw [he] at hx
    exact .inl hx
  · rw [he]
    exact hx
  · rw [he]
    exact hx

/-- A write that reaches a row belongs to the day of `t` exactly when the record
and the row it replaces do. -/
theorem pressOfDay_of_writes (ra : Rowid) (hk : Known db r.id) (h : b.Writes r.id)
    (htime : r.time b = t.timeString) :
    PressOfDay ra db (b.op r) b t ↔
      r.ymdWork = t.ymdKey ∧ ∀ x ∈ getManager db, x.id = r.id → x.ymdWork = t.ymdKey := by
  obtain ⟨k, hw, hmem, honly, hothers⟩ := exists_wrote ra hk h
  -- a stored row has the key of the written row exactly when it has the record's id
  have hkey : ∀ x ∈ getManager db, x.id = some k → x.id = r.id := by
    intro x hx hxk
    cases b with
    | enter =>
      have hkk : ra.key db = k := Option.some.inj ((wrote_enter h).symm.trans hw)
      rw [← hkk] at hxk
      exact absurd (mem_ids.mpr ⟨x, hx, hxk⟩) (ra.key_fresh db)
    | out =>
      obtain ⟨k', hid⟩ := Option.ne_none_iff_exists'.mp h
      have hkk : k' = k := Option.some.inj ((wrote_out ra hk hid).symm.trans hw)
      rw [hid, hkk]
      exact hxk
  constructor
  · intro hd
    refine ⟨?_, fun x hx hxr => ?_⟩
    · obtain ⟨y, hy, hyk, hday, _⟩ := hd.after k hw
      rw [eq_of_id_eq hy hmem hyk] at hday
      exact hday
    · obtain ⟨k', hk', hid⟩ := id_of_mem hx
      have hid' : r.id = some k' := hxr.symm.trans hid
      cases b with
      | enter => rw [show r.id = none from h] at hid'; cases hid'
      | out => exact hd.before k' (wrote_out ra hk hid') x hx hid
  · rintro ⟨hday, hrow⟩
    refine ⟨fun k' hw' x hx hxk => ?_, fun k' hw' => ?_, fun x hx => ?_,
      fun x hx hne => hothers x hx (hne k hw), fun x hx hne => ?_⟩
    · cases hw.symm.trans hw'
      exact hrow x hx (hkey x hx hxk)
    · cases hw.symm.trans hw'
      refine ⟨_, hmem, rfl, hday, ?_⟩
      cases b with
      | enter => exact htime
      | out => exact htime
    · exact (honly x hx).imp_right fun hxk => ⟨k, hw, hxk⟩
    · exact hothers x hx fun hxk => hne (hrow x hx (hkey x hx hxk))

/-- In every reachable state, the body of a press that runs at `t` and issues
`op` belongs to the day of `t` exactly when, in case its write reaches a row, the
page was built on that day and the row whose id the page holds is of that day. -/
theorem press_of_day_iff (h : Reachable ra mode anyStep s)
    (hs : step ra mode s (.expire k t) = some s') (hk : s.presses[k]? = some (i, b))
    (hp : s.pages[i]? = some p) (hop : s'.ops = s.ops ++ [op]) :
    PressOfDay ra (s.settled ra) op b t ↔
      (b.Writes p.id → p.ymdWork = t.ymdKey ∧
        ∀ r ∈ getManager (s.settled ra), r.id = p.id → r.ymdWork = t.ymdKey) := by
  obtain ⟨rfl, _⟩ := expire_issued hs hk hp hop
  have hknown : Known (s.settled ra) (p.body b t).setdata.id := known_setdata h hp b t
  have hid : (p.body b t).setdata.id = p.id := by rw [Page.setdata_id, Page.body_id]
  by_cases hw : b.Writes p.id
  · have hiff := pressOfDay_of_writes ra (t := t) hknown (by rw [hid]; exact hw)
      (Page.body_setdata_time p b t)
    rw [hid, Page.setdata_ymdWork, Page.body_ymdWork] at hiff
    exact hiff.trans ⟨fun hd _ => hd, fun hd => hd hw⟩
  · refine ⟨fun _ hw' => absurd hw' hw, fun _ => ?_⟩
    exact pressOfDay_of_not_writes hknown (by rw [hid]; exact hw)

/-- The state after a list of events that runs to the end. -/
def stateAfter (es : List Event)
    (h : (run (step .succMax .debug) anyStep .init es).isSome = true := by decide) : State :=
  (run (step .succMax .debug) anyStep .init es).get h

theorem stateAfter_reachable (es : List Event)
    (h : (run (step .succMax .debug) anyStep .init es).isSome = true) :
    Reachable .succMax .debug anyStep (stateAfter es h) :=
  reach_of_run (Option.some_get h).symm

/-- The morning press of a regular day, when its delay is about to end, and after
its body has run at `t`. -/
def beforeEnter : State := stateAfter (regularDay.take 5)

def afterEnter (t : DateTime) : State :=
  (step .succMax .debug beforeEnter (.expire 0 t)).getD .init

def enterPage : Page := (beforeEnter.pages[0]?).getD {}

theorem press_of_day_morning :
    PressOfDay .succMax (beforeEnter.settled .succMax)
      (.insert ⟨none, "20191227", true, false, "assets/img/enter.gif", "assets/img/out.gif",
        "09時00分", ""⟩) .enter morning :=
  (press_of_day_iff (k := 0) (i := 0) (p := enterPage) (stateAfter_reachable _ _)
    (show step .succMax .debug beforeEnter (.expire 0 morning) = some (afterEnter morning) by decide)
    (by decide) (by decide) (by decide)).mpr (by decide)

/-- The page was built on the 27th and the body of a press runs on the 28th: the
row is stored under the 27th with a time of the 28th. -/
theorem press_across_midnight :
    ¬ ∀ (s s' : State) (k i : Nat) (b : Button) (t : DateTime) (op : Op),
      Reachable .succMax .debug anyStep s → step .succMax .debug s (.expire k t) = some s' →
      s.presses[k]? = some (i, b) → s'.ops = s.ops ++ [op] →
      PressOfDay .succMax (s.settled .succMax) op b t := by
  intro h
  have hd := h beforeEnter (afterEnter pastMidnight) 0 0 .enter pastMidnight
    (.insert ⟨none, "20191227", true, false, "assets/img/enter.gif", "assets/img/out.gif",
      "00時01分", ""⟩) (stateAfter_reachable _ _) (by decide) (by decide) (by decide)
  obtain ⟨r, hr, _, hday, _⟩ := hd.after 1 (by decide)
  have hall : ∀ r ∈ getManager ((Op.insert ⟨none, "20191227", true, false, "assets/img/enter.gif",
      "assets/img/out.gif", "00時01分", ""⟩).exec .succMax (beforeEnter.settled .succMax)),
      r.ymdWork ≠ pastMidnight.ymdKey := by decide
  exact hall r hr hday

/-! ## Recorded or without effect -/

/-- After the operation `op` of a press of `b` at `now` on the table `db`, the
day of the page has a row with the time and the flag of the press, or the body
left the flags and times of the page as they were. `p` is the page before the
body and `p'` the page after it. -/
def RecordedOrUnchanged (ra : Rowid) (db : Manageremps) (op : Op) (b : Button) (now : DateTime)
    (p p' : Page) : Prop :=
  (∃ r ∈ getManager (op.exec ra db),
    r.ymdWork = p.ymdWork ∧ r.time b = now.timeString ∧ r.flag b = p'.flag b) ∨
  (p'.enterbutton = p.enterbutton ∧ p'.outbutton = p.outbutton ∧
    p'.nowWorkenter = p.nowWorkenter ∧ p'.nowWorkout = p.nowWorkout)

instance (ra : Rowid) (db : Manageremps) (op : Op) (b : Button) (now : DateTime) (p p' : Page) :
    Decidable (RecordedOrUnchanged ra db op b now p p') :=
  inferInstanceAs (Decidable ((∃ r ∈ getManager (op.exec ra db), _) ∨ _))

theorem flag_eq_of_unchanged (h : p'.enterbutton = p.enterbutton ∧ p'.outbutton = p.outbutton)
    (b : Button) : p'.flag b = p.flag b := by
  cases b with
  | enter => exact h.1
  | out => exact h.2

/-- In every reachable state, a press whose body issues `op` is recorded or
without effect exactly when its operation reaches a row (出勤 with a null id,
退勤 with a loaded one), or the page's day already has a row with that very time
and flag. -/
theorem press_recorded_iff (h : Reachable ra mode anyStep s)
    (hs : step ra mode s (.expire k t) = some s') (hk : s.presses[k]? = some (i, b))
    (hp : s.pages[i]? = some p) (hop : s'.ops = s.ops ++ [op]) (hp' : s'.pages[i]? = some p') :
    RecordedOrUnchanged ra (s.settled ra) op b t p p' ↔
      b.Writes p.id ∨ ∃ r ∈ getManager (s.settled ra),
        r.ymdWork = p.ymdWork ∧ r.time b = t.timeString ∧ r.flag b = !p.flag b := by
  obtain ⟨rfl, hpages⟩ := expire_issued hs hk hp hop
  have hpage : p' = p.body b t := by
    have hi : i < s.pages.length := (List.getElem?_eq_some_iff.mp hp).1
    rw [hpages, List.getElem?_set_self hi] at hp'
    exact (Option.some.inj hp').symm
  subst hpage
  have hid : (p.body b t).setdata.id = p.id := by rw [Page.setdata_id, Page.body_id]
  have hknown : Known (s.settled ra) (p.body b t).setdata.id := known_setdata h hp b t
  by_cases hw : b.Writes p.id
  · refine ⟨fun _ => .inl hw, fun _ => .inl ?_⟩
    obtain ⟨k, _, hmem, _⟩ := exists_wrote ra hknown (by rw [hid]; exact hw)
    refine ⟨_, hmem, Page.body_ymdWork p b t, ?_, ?_⟩
    · cases b with
      | enter => rfl
      | out => rfl
    · cases b with
      | enter => rfl
      | out => rfl
  · -- the operation has no effect, and the body has toggled its flag
    rw [RecordedOrUnchanged, exec_of_not_writes hknown (by rw [hid]; exact hw), Page.body_flag]
    constructor
    · rintro (hr | ⟨he, ho, _⟩)
      · exact .inr hr
      · have hflag := flag_eq_of_unchanged ⟨he, ho⟩ b
        rw [Page.body_flag] at hflag
        exact absurd hflag (Bool.not_ne_self _)
    · rintro (hw' | hr)
      · exact absurd hw' hw
      · exact .inl hr

theorem press_recorded_morning :
    RecordedOrUnchanged .succMax (beforeEnter.settled .succMax)
      (.insert ⟨none, "20191227", true, false, "assets/img/enter.gif", "assets/img/out.gif",
        "09時00分", ""⟩) .enter morning
      enterPage (enterPage.body .enter morning) :=
  (press_recorded_iff (k := 0) (i := 0) (stateAfter_reachable _ _)
    (show step .succMax .debug beforeEnter (.expire 0 morning) = some (afterEnter morning) by decide)
    (by decide) (by decide) (by decide) (by decide)).mpr (.inl (by decide))

/-- 退勤 is pressed on a day without a row. -/
def clockOutFirst : List Event :=
  [.openPage, .build morning, .exec, .deliver 0, .press .out]

/-- 退勤 on a day without a row: the update matches nothing, and the page shows a
clock-out time that is stored nowhere. -/
theorem clock_out_without_row :
    ¬ ∀ (s s' : State) (k i : Nat) (b : Button) (p p' : Page) (t : DateTime) (op : Op),
      Reachable .succMax .debug anyStep s → step .succMax .debug s (.expire k t) = some s' →
      s.presses[k]? = some (i, b) → s.pages[i]? = some p → s'.ops = s.ops ++ [op] →
      s'.pages[i]? = some p' → RecordedOrUnchanged .succMax (s.settled .succMax) op b t p p' := by
  intro h
  have hr := h (stateAfter clockOutFirst)
    ((step .succMax .debug (stateAfter clockOutFirst) (.expire 0 evening)).getD .init) 0 0 .out
    enterPage (enterPage.body .out evening) evening
    (.update ⟨none, "20191227", false, true, "assets/img/enter.gif", "assets/img/out.gif",
      "", "18時30分"⟩) (stateAfter_reachable _ _) (by decide) (by decide) (by decide) (by decide)
    (by decide)
  revert hr
  decide

end ShainManager
