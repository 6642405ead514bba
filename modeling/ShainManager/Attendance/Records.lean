import ShainManager.Attendance.Invariants

/-!
# Laws about single rows

Both handlers write the whole record from the page, and the page is loaded from
whole records, so a law about one record goes round with it (`Carried`).

* `times_in_order`: a row with a clock-out time has a clock-in time that is not
  later, in every run whose bodies find the clock on the right side of the other
  button's time (`ClockInOrder`); `clock_out_before_clock_in` is the failing case.
* `flags_agree`: a flag is set exactly when its time is there, in every run whose
  bodies find their own flag clear (`FlagClear`); `second_press_clears_flag` is
  the failing case.
-/

namespace ShainManager

open Machine Deferred

variable {ra : Rowid} {mode : Mode} {s : State}

/-! ## Clock-in before clock-out -/

/-- A clock-out time comes with a clock-in time that is not later. The order is
that of the `HH時MM分` strings. -/
def InOrder (r : FetchDatafromSQLite) : Prop :=
  r.nowWorkout ≠ "" → r.nowWorkenter ≠ "" ∧ r.nowWorkenter ≤ r.nowWorkout

instance (r : FetchDatafromSQLite) : Decidable (InOrder r) :=
  inferInstanceAs (Decidable (_ → _ ∧ _))

/-- 出勤 that inserts finds a page without a clock-out time, or with one that the
clock has not passed. 退勤 that updates finds a page whose clock-in time the clock
has reached. -/
def ClockInOrder (mode : Mode) (s : State) (i : Nat) (b : Button) (p : Page) (t : DateTime) : Prop :=
  s.issues mode i b = true → b.Writes p.id →
    match b with
    | .enter => p.nowWorkout = "" ∨ t.timeString ≤ p.nowWorkout
    | .out => p.nowWorkenter ≤ t.timeString

instance (mode : Mode) (s : State) (i : Nat) (b : Button) (p : Page) (t : DateTime) :
    Decidable (ClockInOrder mode s i b p t) :=
  match b with
  | .enter => inferInstanceAs (Decidable (_ → _ → _ ∨ _))
  | .out => inferInstanceAs (Decidable (_ → _ → _ ≤ _))

theorem carried_inOrder :
    Carried mode (AtBody (ClockInOrder mode)) (fun p => p.id ≠ none → p.nowWorkenter ≠ "")
      (fun r => r.nowWorkenter ≠ "" ∧ InOrder r) where
  fresh := (carried_entered mode).fresh
  build := (carried_entered mode).build
  net := (carried_entered mode).net
  load := fun h hr => (carried_entered mode).load h hr.1
  body := fun _ hk hp hrun h => (carried_entered mode).body trivial hk hp hrun h
  write := by
    intro s k i b p t ho hk hp hi h hw
    have hne := (carried_entered mode).write (t := t) trivial hk hp hi h hw
    refine ⟨hne, fun hout => ⟨hne, ?_⟩⟩
    have hc := ho.at hk hp hi hw
    cases b with
    | enter =>
      rcases hc with hc | hc
      · exact absurd hc hout
      · exact hc
    | out => exact hc
  stored := fun _ h => h

/-- In every run whose bodies meet `ClockInOrder`, every row with a clock-out time
has a clock-in time that is not later. -/
theorem times_in_order (h : Reachable ra mode (AtBody (ClockInOrder mode)) s) :
    ∀ r ∈ getManager s.db, InOrder r :=
  fun r hr => ((carried_inOrder.reachable h).rows r hr).2

theorem times_in_order_regular :
    ∃ s, Reachable .succMax .debug (AtBody (ClockInOrder .debug)) s ∧
      (∃ r ∈ getManager s.db, r.nowWorkenter = "09時00分" ∧ r.nowWorkout = "18時30分") ∧
      ∀ r ∈ getManager s.db, InOrder r := by
  obtain ⟨s, hs, hp⟩ := exists_reach_of_run (step .succMax .debug)
    (AtBody (ClockInOrder .debug)) .init regularDay
    (p := fun s => ∃ r ∈ getManager s.db, r.nowWorkenter = "09時00分" ∧
      r.nowWorkout = "18時30分") (by decide)
  exact ⟨s, hs, hp, times_in_order hs⟩

/-- The clock's reading in an event. -/
def Event.instant : Event → Option DateTime
  | .build t => some t
  | .expire _ t => some t
  | _ => none

/-- The clock never goes backwards in the run. -/
def ClockForward (es : List Event) : Prop :=
  (es.filterMap Event.instant).Pairwise DateTime.le

instance (es : List Event) : Decidable (ClockForward es) :=
  inferInstanceAs (Decidable (List.Pairwise _ _))

/-- 退勤 at 09:00 reaches no row but stays on the page, and 出勤 at 18:30 stores
it. -/
def outThenEnter : List Event :=
  [.openPage, .build morning, .exec, .deliver 0,
   .press .out, .expire 0 morning, .exec, .build morning, .exec, .deliver 0,
   .press .enter, .expire 0 evening, .exec]

theorem clock_out_before_clock_in :
    ¬ ∀ es s, ClockForward es → run (step .succMax .debug) anyStep .init es = some s →
      ∀ r ∈ getManager s.db, InOrder r := by
  intro h
  obtain ⟨s, hs, hp⟩ := exists_run (step .succMax .debug) anyStep .init outThenEnter
    (p := fun s => ¬ ∀ r ∈ getManager s.db, InOrder r) (by decide)
  exact hp (h outThenEnter s (by decide) hs)

/-! ## Flags and times -/

/-- Each flag is set exactly when its time is there. -/
def FlagsAgree (r : FetchDatafromSQLite) : Prop :=
  (r.enterbutton = true ↔ r.nowWorkenter ≠ "") ∧ (r.outbutton = true ↔ r.nowWorkout ≠ "")

instance (r : FetchDatafromSQLite) : Decidable (FlagsAgree r) :=
  inferInstanceAs (Decidable (_ ∧ _))

/-- A body that runs finds its own flag clear, so that `!flag` sets it. -/
def FlagClear (mode : Mode) (s : State) (i : Nat) (b : Button) (p : Page) (_ : DateTime) : Prop :=
  s.runs mode i = true → p.flag b = false

instance (mode : Mode) (s : State) (i : Nat) (b : Button) (p : Page) (t : DateTime) :
    Decidable (FlagClear mode s i b p t) :=
  inferInstanceAs (Decidable (_ → _))

theorem flagsAgree_body {p : Page} {b : Button} {t : DateTime} (hflag : p.flag b = false)
    (h : FlagsAgree p.setdata) : FlagsAgree (p.body b t).setdata := by
  obtain ⟨henter, hout⟩ := h
  cases b with
  | enter =>
    refine ⟨⟨fun _ => t.timeString_ne_empty, fun _ => ?_⟩, hout⟩
    show (!p.enterbutton) = true
    rw [show p.enterbutton = false from hflag]
    rfl
  | out =>
    refine ⟨henter, ⟨fun _ => t.timeString_ne_empty, fun _ => ?_⟩⟩
    show (!p.outbutton) = true
    rw [show p.outbutton = false from hflag]
    rfl

theorem carried_flagsAgree :
    Carried mode (AtBody (FlagClear mode)) (fun p => FlagsAgree p.setdata) FlagsAgree where
  fresh := by decide
  build := fun _ h => h
  net := fun _ h => h
  load := fun _ hr => hr
  body := fun ho hk hp hrun h => flagsAgree_body (ho.at hk hp hrun) h
  write := fun ho hk hp hi h _ => flagsAgree_body (ho.at hk hp (runs_of_issues hi)) h
  stored := fun _ h => h

/-- In every run whose bodies meet `FlagClear`, every row's flags agree with its
times. -/
theorem flags_agree (h : Reachable ra mode (AtBody (FlagClear mode)) s) :
    ∀ r ∈ getManager s.db, FlagsAgree r :=
  (carried_flagsAgree.reachable h).rows

theorem flags_agree_regular :
    ∃ s, Reachable .succMax .debug (AtBody (FlagClear .debug)) s ∧
      (∃ r ∈ getManager s.db, r.enterbutton = true ∧ r.outbutton = true) ∧
      ∀ r ∈ getManager s.db, FlagsAgree r := by
  obtain ⟨s, hs, hp⟩ := exists_reach_of_run (step .succMax .debug)
    (AtBody (FlagClear .debug)) .init regularDay
    (p := fun s => ∃ r ∈ getManager s.db, r.enterbutton = true ∧ r.outbutton = true)
    (by decide)
  exact ⟨s, hs, hp, flags_agree hs⟩

/-- 退勤 is pressed twice before the first delay ends: the second body clears the
flag again and stores its time. -/
theorem second_press_clears_flag :
    ¬ ∀ s, Reachable .succMax .debug anyStep s → ∀ r ∈ getManager s.db, FlagsAgree r := by
  intro h
  obtain ⟨s, hs, hp⟩ := exists_reach_of_run (step .succMax .debug) anyStep .init
    (regularDay.take 10 ++
      [.press .out, .press .out, .expire 0 evening, .expire 0 evening, .exec, .exec])
    (p := fun s => ¬ ∀ r ∈ getManager s.db, FlagsAgree r) (by decide)
  exact hp (h s hs)

end ShainManager
