import ShainManager.Attendance.OneRow

/-!
# Recorded times are written once

A recorded time is protected by nothing but the disabled button, and whether a
button is disabled was decided at the last build.

* `second_press_overwrites`: two presses of 退勤 within the delay overwrite the
  clock-out time.
* `times_written_once`: in a run whose bodies all find their time still
  unrecorded (`Unrecorded`), the times of a day never change once there is one.
-/

namespace ShainManager

open Machine Deferred

variable {ra : Rowid} {mode : Mode} {s s' : State}

/-- A row of the day `d` has the time `x` for the button `b`. -/
def Recorded (t : Manageremps) (b : Button) (d x : String) : Prop :=
  ∃ r ∈ getManager t, r.ymdWork = d ∧ r.time b = x

instance (t : Manageremps) (b : Button) (d x : String) : Decidable (Recorded t b d x) :=
  inferInstanceAs (Decidable (∃ r ∈ getManager t, _))

/-- A day that has a time for a button keeps exactly its times for it. -/
def WriteOnce (t t' : Manageremps) : Prop :=
  ∀ b d, (∃ x, Recorded t b d x ∧ x ≠ "") → ∀ x, Recorded t' b d x ↔ Recorded t b d x

theorem WriteOnce.refl (t : Manageremps) : WriteOnce t t := fun _ _ _ _ => Iff.rfl

theorem WriteOnce.trans {t t' t'' : Manageremps} (h : WriteOnce t t') (h' : WriteOnce t' t'') :
    WriteOnce t t'' := by
  intro b d ⟨x, hx, hne⟩ y
  have hx' : Recorded t' b d x := (h b d ⟨x, hx, hne⟩ x).mpr hx
  exact (h' b d ⟨x, hx', hne⟩ y).trans (h b d ⟨x, hx, hne⟩ y)

/-- 出勤 that inserts finds no row of the page's day. 退勤 that updates finds the
row whose id the page holds on the page's day, with the page's clock-in time and
without a clock-out time (or with the one of this very minute). -/
def Unrecorded (ra : Rowid) (mode : Mode) (s : State) (i : Nat) (b : Button) (p : Page)
    (t : DateTime) : Prop :=
  s.issues mode i b = true → b.Writes p.id →
    match b with
    | .enter => ∀ r ∈ getManager (s.settled ra), r.ymdWork ≠ p.ymdWork
    | .out => ∃ r ∈ getManager (s.settled ra), r.id = p.id ∧ r.ymdWork = p.ymdWork ∧
        r.nowWorkenter = p.nowWorkenter ∧ (r.nowWorkout = "" ∨ r.nowWorkout = t.timeString)

instance (ra : Rowid) (mode : Mode) (s : State) (i : Nat) (b : Button) (p : Page) (t : DateTime) :
    Decidable (Unrecorded ra mode s i b p t) :=
  match b with
  | .enter => inferInstanceAs (Decidable (_ → _ → ∀ r ∈ getManager (s.settled ra), _))
  | .out => inferInstanceAs (Decidable (_ → _ → ∃ r ∈ getManager (s.settled ra), _))

/-! ## The write -/

theorem writeOnce_insert {t : Manageremps} {r : FetchDatafromSQLite} (hid : r.id = none)
    (hno : ∀ x ∈ getManager t, x.ymdWork ≠ r.ymdWork) : WriteOnce t (insertManager ra t r).2 := by
  intro b d ⟨y, ⟨a, ha, had, _⟩, _⟩ x
  -- the day `d` has the row `a`, so the inserted row is of another day
  have hd : r.ymdWork ≠ d := fun he => hno a ha (had.trans he.symm)
  constructor
  · rintro ⟨c, hc, hcd, hcx⟩
    rcases (mem_insertManager hid).mp hc with rfl | hc
    · exact absurd hcd hd
    · exact ⟨c, hc, hcd, hcx⟩
  · rintro ⟨c, hc, hcd, hcx⟩
    exact ⟨c, subset_insertManager hc, hcd, hcx⟩

theorem writeOnce_update {t : Manageremps} {r r₀ : FetchDatafromSQLite} {k : Int}
    (hid : r.id = some k) (hone : OneRowPerDay t) (h₀ : r₀ ∈ getManager t) (hid₀ : r₀.id = some k)
    (hday : r₀.ymdWork = r.ymdWork) (hkeep : ∀ b, r₀.time b ≠ "" → r.time b = r₀.time b) :
    WriteOnce t (updateManager t r).2 := by
  intro b d ⟨y, ⟨a, ha, had, hay⟩, hne⟩ x
  by_cases hd : r₀.ymdWork = d
  · -- the day of `r₀`: its only row is `r₀` before the update and `r` after it
    have har : a = r₀ := hone a ha r₀ h₀ (had.trans hd.symm)
    subst har
    have hx : r.time b = a.time b := hkeep b (by rw [hay]; exact hne)
    constructor
    · rintro ⟨c, hc, hcd, rfl⟩
      obtain ⟨c₀, hc₀, rfl⟩ := (mem_updateManager hid).mp hc
      split at hcd
      · next hck =>
        rw [if_pos hck, hx]
        exact ⟨a, ha, had, rfl⟩
      · next hck =>
        rw [if_neg hck]
        exact ⟨c₀, hc₀, hcd, rfl⟩
    · rintro ⟨c, hc, hcd, rfl⟩
      have hca : c = a := hone c hc a ha (hcd.trans had.symm)
      subst hca
      refine ⟨r, (mem_updateManager hid).mpr ⟨c, hc, by rw [if_pos hid₀]⟩, ?_, hx⟩
      rw [← hday, hd]
  · -- another day: none of its rows has the key `k`
    have hother : ∀ c ∈ getManager t, c.ymdWork = d → c.id ≠ some k := by
      intro c hc hcd hck
      have hcr : c = r₀ := eq_of_id_eq hc h₀ (hck.trans hid₀.symm)
      exact hd (hcr ▸ hcd)
    constructor
    · rintro ⟨c, hc, hcd, hcx⟩
      obtain ⟨c₀, hc₀, rfl⟩ := (mem_updateManager hid).mp hc
      split at hcd
      · exact absurd (hday.trans hcd) hd
      · next hck =>
        rw [if_neg hck] at hcx
        exact ⟨c₀, hc₀, hcd, hcx⟩
    · rintro ⟨c, hc, hcd, hcx⟩
      exact ⟨c, (mem_updateManager hid).mpr ⟨c, hc, by rw [if_neg (hother c hc hcd)]⟩, hcd, hcx⟩

/-! ## Runs -/

section

variable {ok : State → Event → Prop} (hok : ∀ s e, ok s e → AtBody (Unrecorded ra mode) s e)
include hok

/-- The bodies of such a run keep to their own row. -/
theorem oneRow_of_unrecorded (h : Reachable ra mode ok s) :
    OneRowPerDay s.db ∧ OneRowPerDay (s.settled ra) := by
  refine oneRow_reachable ?_ h
  intro s k i b p t ho hk hp hi hone hw x hx hday
  have hu := (hok s _ ho).at hk hp hi hw
  cases b with
  | enter => exact absurd hday (hu x hx)
  | out =>
    obtain ⟨r, hr, hid, hd, _⟩ := hu
    rw [hone x hx r hr (hday.trans hd.symm)]
    exact hid

theorem along_writeOnce (h : Reachable ra mode ok s) :
    Along (Op.exec ra) WriteOnce s.db s.ops := by
  refine along_reachable WriteOnce.refl ?_ h
  intro s k i b p t hr ho hk hp hi
  have hu := (hok s _ ho).at hk hp hi
  by_cases hw : b.Writes p.id
  · cases b with
    | enter => exact writeOnce_insert hw (hu hw)
    | out =>
      obtain ⟨k, hid⟩ := Option.ne_none_iff_exists'.mp hw
      obtain ⟨r, hr', hrid, hday, henter, hout⟩ := hu hw
      refine writeOnce_update (r := (p.body .out t).setdata) hid (oneRow_of_unrecorded hok hr).2 hr'
        (hrid.trans hid) hday ?_
      intro b hne
      cases b with
      | enter => exact henter.symm
      | out =>
        rcases hout with hout | hout
        · exact absurd hout hne
        · exact hout.symm
  · rw [exec_of_not_writes (known_setdata hr hp b t) (by simpa using hw)]
    exact WriteOnce.refl _

theorem writeOnce_reach (h : Reachable ra mode ok s) (h' : Reach (step ra mode) ok s s') :
    WriteOnce s.db s'.db := by
  induction h' with
  | start => exact WriteOnce.refl _
  | next hr _ hs ih =>
    refine ih.trans ?_
    cases move_of_step hs with
    | exec hops =>
      have ha := along_writeOnce hok (Reach.trans h hr)
      rw [hops] at ha
      exact along_head ha
    | openPage | build _ | press _ _ _ | expire _ _ | deliver _ _ | net _ => exact WriteOnce.refl _

end

/-- In every run whose bodies meet `Unrecorded`, a day that has a clock-in
(clock-out) time in some state has the same clock-in (clock-out) times in every
later state. -/
theorem times_written_once (h : Reachable ra mode (AtBody (Unrecorded ra mode)) s)
    (h' : Reach (step ra mode) (AtBody (Unrecorded ra mode)) s s') : WriteOnce s.db s'.db :=
  writeOnce_reach (fun _ _ ho => ho) h h'

theorem times_written_once_regular :
    ∃ s s', Reachable .succMax .debug (AtBody (Unrecorded .succMax .debug)) s ∧
      Reach (step .succMax .debug) (AtBody (Unrecorded .succMax .debug)) s s' ∧
      Recorded s.db .enter "20191227" "09時00分" ∧ Recorded s'.db .out "20191227" "18時30分" ∧
      WriteOnce s.db s'.db := by
  obtain ⟨s, s', hs, hs', h1, h2⟩ := exists_reach_of_run_run (step .succMax .debug)
    (AtBody (Unrecorded .succMax .debug)) .init (regularDay.take 10) (regularDay.drop 10)
    (p := fun s s' => Recorded s.db .enter "20191227" "09時00分" ∧
      Recorded s'.db .out "20191227" "18時30分") (by decide)
  exact ⟨s, s', hs, hs', h1, h2, times_written_once hs hs'⟩

/-- 退勤 is pressed twice before the first delay ends, and the second delay ends
in the next minute. -/
def lateSecondPress : List Event :=
  [.press .out, .press .out, .expire 0 evening, .exec]

theorem second_press_overwrites :
    ¬ ∀ s s', Reachable .succMax .debug anyStep s → Reach (step .succMax .debug) anyStep s s' →
      WriteOnce s.db s'.db := by
  intro h
  obtain ⟨s, s', hs, hs', h1, h2⟩ := exists_reach_of_run_run (step .succMax .debug) anyStep .init
    (regularDay.take 10 ++ lateSecondPress) [.expire 0 nextMinute, .exec]
    (p := fun s s' => Recorded s.db .out "20191227" "18時30分" ∧
      ¬ Recorded s'.db .out "20191227" "18時30分") (by decide)
  exact h2 ((h s s' hs hs' .out "20191227" ⟨_, h1, by decide⟩ _).mpr h1)

end ShainManager
