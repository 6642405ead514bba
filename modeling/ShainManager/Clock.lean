import ShainManager.Lib.Digits

/-!
# The clock and the strings made of it

`DateTime` holds what the pages read of a Dart `DateTime`: the calendar day and
the time of day down to the minute. A value is a real calendar instant: the
bounds are fields.

`ymdKey` is the key `ymdWork` that `_goingtoWork` builds (`lib/ui/manageEmp.dart`)
and `timeString` is the `HH時MM分` string that both button handlers build.
-/

namespace ShainManager

def isLeapYear (year : Int) : Bool :=
  year % 4 == 0 && (year % 100 != 0 || year % 400 == 0)

def daysInMonth (year : Int) (month : Nat) : Nat :=
  if month = 2 then (if isLeapYear year then 29 else 28)
  else if month = 4 ∨ month = 6 ∨ month = 9 ∨ month = 11 then 30
  else 31

structure DateTime where
  year : Int
  month : Nat
  day : Nat
  hour : Nat
  minute : Nat
  month_pos : 1 ≤ month := by decide
  month_le : month ≤ 12 := by decide
  day_pos : 1 ≤ day := by decide
  day_le : day ≤ daysInMonth year month := by decide
  hour_lt : hour < 24 := by decide
  minute_lt : minute < 60 := by decide
deriving DecidableEq

/-- Not later, down to the minute. -/
def DateTime.le (t u : DateTime) : Prop :=
  t.year < u.year ∨ t.year = u.year ∧ (t.month < u.month ∨ t.month = u.month ∧
    (t.day < u.day ∨ t.day = u.day ∧ (t.hour < u.hour ∨ t.hour = u.hour ∧ t.minute ≤ u.minute)))

instance (t u : DateTime) : Decidable (t.le u) := inferInstanceAs (Decidable (_ ∨ _))

/-! ## The day key -/

/-- `n < 10 ? '0' + n.toString() : n.toString()`. -/
def twoDigits (n : Nat) : String := if n < 10 then "0" ++ toString n else toString n

def DateTime.nowyear (t : DateTime) : String := toString t.year

def DateTime.nowmonth (t : DateTime) : String := twoDigits t.month

def DateTime.nowday (t : DateTime) : String := twoDigits t.day

/-- `ymdWork = nowyear + nowmonth + nowday`. -/
def DateTime.ymdKey (t : DateTime) : String := t.nowyear ++ t.nowmonth ++ t.nowday

/-- The shape of a day key: digits, at least the six of a year and a month. -/
structure DayKey (k : String) : Prop where
  length : 6 ≤ k.length
  digits : k.toList.all Char.isDigit = true

instance (k : String) : Decidable (DayKey k) :=
  decidable_of_iff (6 ≤ k.length ∧ k.toList.all Char.isDigit = true)
    ⟨fun h => ⟨h.1, h.2⟩, fun h => ⟨h.length, h.digits⟩⟩

/-! ## The time of day -/

/-- `nowhourenter` and `nowhourout`. -/
def DateTime.nowhour (t : DateTime) : String :=
  if t.hour < 10 then "0" ++ toString t.hour ++ "時" else toString t.hour ++ "時"

/-- `nowminuenter` and `nowminuout`. -/
def DateTime.nowminu (t : DateTime) : String :=
  if t.minute < 10 then "0" ++ toString t.minute ++ "分" else toString t.minute ++ "分"

/-- The string stored in `nowWorkenter` or `nowWorkout`. -/
def DateTime.timeString (t : DateTime) : String := t.nowhour ++ t.nowminu

theorem append_ne_empty (s : String) {u : String} (h : u ≠ "") : s ++ u ≠ "" := by
  intro he
  exact h (String.append_eq_empty_iff.mp he).2

/-- A press never stores a blank time. -/
theorem DateTime.timeString_ne_empty (t : DateTime) : t.timeString ≠ "" := by
  unfold timeString nowminu
  refine append_ne_empty _ ?_
  split <;> exact append_ne_empty _ (by decide)

/-! ## The keys of days -/

theorem writes_twoDigits : ∀ n < 100, Digits.Writes (twoDigits n).toList 2 n := by
  decide

theorem DateTime.writes_nowmonth (t : DateTime) : Digits.Writes t.nowmonth.toList 2 t.month :=
  writes_twoDigits t.month (by have := t.month_le; omega)

theorem DateTime.day_lt (t : DateTime) : t.day < 32 := by
  have h := t.day_le
  unfold daysInMonth at h
  split at h
  · split at h <;> omega
  · split at h <;> omega

theorem DateTime.writes_nowday (t : DateTime) : Digits.Writes t.nowday.toList 2 t.day :=
  writes_twoDigits t.day (by have := t.day_lt; omega)

/-- A year from 1000 on is written with at least four digits. -/
theorem DateTime.writes_nowyear (t : DateTime) (hyear : 1000 ≤ t.year) :
    ∃ width, 4 ≤ width ∧ (t.year ≤ 9999 → width = 4) ∧
      Digits.Writes t.nowyear.toList width t.year.toNat := by
  obtain ⟨n, hn⟩ := Int.eq_ofNat_of_zero_le (show 0 ≤ t.year by omega)
  have hdigits : t.nowyear.toList = Nat.toDigits 10 n := by
    unfold nowyear
    rw [hn]
    exact Nat.toList_repr
  rw [hdigits, hn]
  have hlong : 4 ≤ (Nat.toDigits 10 n).length := by
    refine Nat.succ_le_of_lt (Nat.lt_of_not_le fun hle => ?_)
    have hlt := (Nat.length_toDigits_le_iff (by decide) (by decide)).mp hle
    omega
  refine ⟨_, hlong, ?_, rfl, ?_, Nat.ofDigitChars_ten_toDigits⟩
  · intro hle
    have hlt : n < 10 ^ 4 := by omega
    exact Nat.le_antisymm ((Nat.length_toDigits_le_iff (by decide) (by decide)).mpr hlt) hlong
  · rw [List.all_eq_true]
    intro c hc
    exact Nat.isDigit_of_mem_toDigits (by decide) (by decide) hc

theorem DateTime.toList_ymdKey (t : DateTime) :
    t.ymdKey.toList = t.nowyear.toList ++ t.nowmonth.toList ++ t.nowday.toList := by
  unfold ymdKey
  rw [String.toList_append, String.toList_append]

/-- From the year 1000 on the key of an instant is a day key. -/
theorem DateTime.dayKey_ymdKey (t : DateTime) (hyear : 1000 ≤ t.year) : DayKey t.ymdKey := by
  obtain ⟨width, hwidth, -, hyears⟩ := t.writes_nowyear hyear
  constructor
  · rw [← String.length_toList, t.toList_ymdKey, List.length_append, List.length_append,
      hyears.length, t.writes_nowmonth.length, t.writes_nowday.length]
    omega
  · rw [t.toList_ymdKey, List.all_append, List.all_append, hyears.digits,
      t.writes_nowmonth.digits, t.writes_nowday.digits]
    rfl

end ShainManager
