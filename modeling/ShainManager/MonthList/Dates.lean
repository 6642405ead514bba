import ShainManager.MonthList.Builders

/-!
# The dates and times of the rows

The attendance page writes the day of a row as a key `yyyyMMdd` and its times as `HH時MM分`
(`lib/ui/manageEmp.dart`), padded by hand. The month list cuts the key at fixed places, parses the parts and makes a
`DateTime` of them in the local time zone of the phone (`lib/ui/listtaikin.dart`).

* `date_strings_agree_iff`: keys and times compare as strings in the order of the days and times,
  and the reader gets the day that was written exactly where the zone keeps the midnight at which
  the day begins.
* `date_decoded_as_day_before`: a zone and a day where it does not.
* `dateText_eq`: a line of the table shows the day that the reader gets.
-/

namespace ShainManager

/-! ## The constructor of `DateTime` -/

/-- Carries a day that is out of its month over to the months before or after, `fuel` times
at most. -/
def carryDays : Nat → Int → Nat → Int → Int × Nat × Nat
  | 0, year, month, day => (year, month, day.toNat)
  | fuel + 1, year, month, day =>
    if day < 1 then
      let (year', month') := if month ≤ 1 then (year - 1, 12) else (year, month - 1)
      carryDays fuel year' month' (day + daysInMonth year' month')
    else if daysInMonth year month < day then
      let (year', month') := if 12 ≤ month then (year + 1, 1) else (year, month + 1)
      carryDays fuel year' month' (day - daysInMonth year month)
    else (year, month, day.toNat)

/-- The days of a year before a month. -/
def daysUntilMonth (year : Int) : Nat → Nat
  | 0 | 1 => 0
  | month + 2 => daysUntilMonth year (month + 1) + daysInMonth year (month + 1)

/-- The days from the beginning of 1970 to a day, which may be out of its month. -/
def dayNumber (year : Int) (month : Nat) (day : Int) : Int :=
  365 * (year - 1970) + (year - 1969) / 4 - (year - 1901) / 100 + (year - 1601) / 400 +
    daysUntilMonth year month + (day - 1)

/-- The time zone of the phone: the seconds by which its clocks are ahead of UTC at each instant,
which is given in seconds from the beginning of 1970 in UTC, and those of its standard time. -/
structure TimeZone where
  offset : Int → Int
  standard : Int

/-- The offset with which `new DateTime` turns the midnight of a day into an instant: that of
the instant which has this midnight in standard time. -/
def TimeZone.guess (zone : TimeZone) (days : Int) : Int :=
  zone.offset (days * 86400 - zone.standard)

/-- The instant that `new DateTime` takes for the midnight of a day. -/
def TimeZone.instant (zone : TimeZone) (days : Int) : Int := days * 86400 - zone.guess days

/-- The day that the clocks of the zone show at an instant. -/
def TimeZone.localDay (zone : TimeZone) (instant : Int) : Int :=
  (instant + zone.offset instant) / 86400

/-- The calendar day of `new DateTime(year, month, day)` in the local time of `zone`. A month out
of range is carried over to the year, and a day out of range to the month. The day that the object
then shows is that of its instant, which is another one where the zone has no such midnight. -/
def newDateTime (zone : TimeZone) (year month day : Int) : Int × Nat × Nat :=
  let year' := year + (month - 1) / 12
  let month' := ((month - 1) % 12).toNat + 1
  let days := dayNumber year' month' day
  let day' := day + (zone.localDay (zone.instant days) - days)
  carryDays (day'.natAbs + 1) year' month' day'

/-- The calendar day that the inner builder makes of a key. It throws where this is `none`. -/
def decodeDate (zone : TimeZone) (ymdWork : String) : Option (Int × Nat × Nat) :=
  (readDate ymdWork).map fun (year, month, day) => newDateTime zone year month day

/-- The number of the day of `t`. -/
def DateTime.days (t : DateTime) : Int := dayNumber t.year t.month t.day

/-- The clocks of the zone are not put forward over the midnight at which the day of `t` begins:
taken with the offset of the midnight of standard time, this midnight is an instant at which the
offset is not less, nor greater by a whole day. -/
def TimeZone.KeepsMidnight (zone : TimeZone) (t : DateTime) : Prop :=
  let midnight := t.days * 86400
  let offset := zone.offset (midnight - zone.standard)
  offset ≤ zone.offset (midnight - offset) ∧ zone.offset (midnight - offset) < offset + 86400

/-! ## The orders of days and times -/

/-- The day of `t` is before that of `u`. -/
def DateTime.DayBefore (t u : DateTime) : Prop :=
  t.year < u.year ∨ t.year = u.year ∧ (t.month < u.month ∨ t.month = u.month ∧ t.day < u.day)

/-- The time of day of `t` is before that of `u`. -/
def DateTime.TimeBefore (t u : DateTime) : Prop :=
  t.hour < u.hour ∨ t.hour = u.hour ∧ t.minute < u.minute

namespace DatesLemmas

/-! ### The days of the calendar -/

theorem daysInMonth_december (year : Int) : daysInMonth year 12 = 31 := rfl

theorem daysUntilMonth_december (year : Int) :
    daysUntilMonth year 12 = if isLeapYear year then 335 else 334 := by
  cases h : isLeapYear year <;> simp [daysUntilMonth, daysInMonth, h]

/-- The day after the last of a month is the first of the next. -/
theorem dayNumber_month_succ (year : Int) {month : Nat} (hmonth : 1 ≤ month) (day : Int) :
    dayNumber year (month + 1) day = dayNumber year month (day + daysInMonth year month) := by
  obtain ⟨m, rfl⟩ := Nat.exists_eq_add_of_le' hmonth
  unfold dayNumber
  rw [daysUntilMonth]
  omega

/-- The day after the last of a year is the first of the next. -/
theorem dayNumber_year_succ (year : Int) (day : Int) :
    dayNumber (year + 1) 1 day = dayNumber year 12 (day + daysInMonth year 12) := by
  unfold dayNumber
  rw [daysUntilMonth_december, daysInMonth_december, daysUntilMonth]
  unfold isLeapYear
  simp only [Bool.and_eq_true, Bool.or_eq_true, beq_iff_eq, bne_iff_ne]
  split <;> omega

theorem daysInMonth_pos (year : Int) (month : Nat) : 1 ≤ daysInMonth year month := by
  unfold daysInMonth
  split
  · split <;> omega
  · split <;> omega

/-- The number of a calendar day. -/
def dateNumber (date : Int × Nat × Nat) : Int := dayNumber date.1 date.2.1 date.2.2

/-- Carrying a day over does not change which day it is. The fuel covers the distance of the day
to its month, and none is needed for a day of its month. -/
theorem dateNumber_carryDays {fuel : Nat} {year : Int} {month : Nat} {day : Int}
    (hmonth : 1 ≤ month ∧ month ≤ 12)
    (hfuel : day.natAbs < fuel ∨ 1 ≤ day ∧ day ≤ daysInMonth year month) :
    dateNumber (carryDays fuel year month day) = dayNumber year month day := by
  induction fuel generalizing year month day with
  | zero =>
    show dayNumber year month (day.toNat : Int) = _
    rw [Int.toNat_of_nonneg (by omega)]
  | succ fuel ih =>
    unfold carryDays
    split
    · -- back to the month before
      rcases Nat.lt_or_ge 1 month with hlt | hle
      · obtain ⟨m, rfl⟩ := Nat.exists_eq_add_of_lt hlt
        have hpos := daysInMonth_pos year (1 + m)
        rw [if_neg (by omega), Nat.add_sub_cancel, ih ⟨by omega, by omega⟩ (by omega),
          dayNumber_month_succ year (by omega)]
      · obtain rfl : month = 1 := by omega
        have hdecember := dayNumber_year_succ (year - 1) day
        rw [Int.sub_add_cancel] at hdecember
        have hpos := daysInMonth_pos (year - 1) 12
        rw [if_pos (le_refl 1), ih ⟨by decide, by decide⟩ (by omega), hdecember]
    · split
      · -- on to the month after
        have hpos := daysInMonth_pos year month
        rcases Nat.lt_or_ge month 12 with hlt | hle
        · rw [if_neg (by omega), ih ⟨by omega, by omega⟩ (by omega),
            dayNumber_month_succ year hmonth.1, Int.sub_add_cancel]
        · obtain rfl : month = 12 := by omega
          rw [if_pos (le_refl 12), ih ⟨by decide, by decide⟩ (by omega), dayNumber_year_succ,
            Int.sub_add_cancel]
      · show dayNumber year month (day.toNat : Int) = _
        rw [Int.toNat_of_nonneg (by omega)]

/-- A real day is not carried over. -/
theorem carryDays_of_mem {year : Int} {month day : Nat} (fuel : Nat)
    (h : 1 ≤ day ∧ day ≤ daysInMonth year month) :
    carryDays fuel year month day = (year, month, day) := by
  cases fuel with
  | zero => rfl
  | succ fuel =>
    rw [carryDays, if_neg (by omega), if_neg (by omega)]
    rfl

/-! ### The constructor -/

theorem newDateTime_eq_carryDays (zone : TimeZone) (t : DateTime) :
    newDateTime zone t.year t.month t.day =
      let day := t.day + (zone.localDay (zone.instant t.days) - t.days)
      carryDays (day.natAbs + 1) t.year t.month day := by
  have hmonth := t.month_pos
  have hmonth' := t.month_le
  have hyear : t.year + ((t.month : Int) - 1) / 12 = t.year := by omega
  have hmod : (((t.month : Int) - 1) % 12).toNat + 1 = t.month := by omega
  unfold newDateTime DateTime.days
  rw [hyear, hmod]

theorem keepsMidnight_iff (zone : TimeZone) (t : DateTime) :
    zone.KeepsMidnight t ↔ zone.localDay (zone.instant t.days) = t.days := by
  have hkeeps : zone.KeepsMidnight t ↔ zone.guess t.days ≤ zone.offset (zone.instant t.days) ∧
      zone.offset (zone.instant t.days) < zone.guess t.days + 86400 := Iff.rfl
  have hinstant : zone.instant t.days = t.days * 86400 - zone.guess t.days := rfl
  rw [hkeeps]
  unfold TimeZone.localDay
  omega

/-- The object shows the day it was made of exactly if the zone keeps its midnight. -/
theorem newDateTime_eq_iff (zone : TimeZone) (t : DateTime) :
    newDateTime zone t.year t.month t.day = (t.year, t.month, t.day) ↔ zone.KeepsMidnight t := by
  rw [newDateTime_eq_carryDays, keepsMidnight_iff]
  constructor
  · intro h
    let day := t.day + (zone.localDay (zone.instant t.days) - t.days)
    have hdays : dateNumber (carryDays (day.natAbs + 1) t.year t.month day) =
        dayNumber t.year t.month day :=
      dateNumber_carryDays ⟨t.month_pos, t.month_le⟩ (.inl (Nat.lt_succ_self _))
    rw [h] at hdays
    -- a day number is the day and a part that the month decides
    simp only [dateNumber, dayNumber] at hdays
    omega
  · intro h
    rw [h, Int.sub_self, Int.add_zero]
    exact carryDays_of_mem _ ⟨t.day_pos, t.day_le⟩

/-- The part of a string between two others. -/
theorem substring_of_append {s : String} {l m r : List Char} (h : s.toList = l ++ m ++ r) :
    substring s l.length (l.length + m.length) = some (String.ofList m) := by
  have hlen : s.length = l.length + m.length + r.length := by
    rw [← String.length_toList, h, List.length_append, List.length_append]
  have htake : s.toList.take (l.length + m.length) = l ++ m := by
    rw [h]
    exact List.take_left' (List.length_append ..)
  unfold substring
  rw [if_pos (by omega), htake, List.drop_left]

theorem intParse_ofList {cs : List Char} {width n : Nat} (h : Digits.Writes cs width n)
    (hpos : 1 ≤ width) (hle : width ≤ 4) : intParse (String.ofList cs) = some (n : Int) := by
  have hparse := intParse_digits (s := String.ofList cs)
  rw [String.toList_ofList, h.value, h.length] at hparse
  refine hparse h.digits ?_ hle
  rw [← List.length_pos_iff, h.length]
  exact hpos

variable {t u : DateTime}

theorem writes_nowyear_four (hyear : 1000 ≤ t.year ∧ t.year ≤ 9999) :
    Digits.Writes t.nowyear.toList 4 t.year.toNat := by
  obtain ⟨width, -, hfour, hwrites⟩ := t.writes_nowyear hyear.1
  rw [hfour hyear.2] at hwrites
  exact hwrites

/-- The key is compared by its parts. -/
theorem ymdKey_lt_iff (ht : 1000 ≤ t.year ∧ t.year ≤ 9999) (hu : 1000 ≤ u.year ∧ u.year ≤ 9999) :
    t.ymdKey < u.ymdKey ↔ t.DayBefore u := by
  have hyear := (writes_nowyear_four ht).append_lt_iff (writes_nowyear_four hu)
  have hmonth := t.writes_nowmonth.append_lt_iff u.writes_nowmonth
  have hday := t.writes_nowday.lt_iff u.writes_nowday
  rw [String.lt_iff, t.toList_ymdKey, u.toList_ymdKey, List.append_assoc, List.append_assoc,
    hyear, hmonth, hday]
  unfold DateTime.DayBefore
  omega

theorem ymdKey_eq_iff (ht : 1000 ≤ t.year ∧ t.year ≤ 9999) (hu : 1000 ≤ u.year ∧ u.year ≤ 9999) :
    t.ymdKey = u.ymdKey ↔ t.year = u.year ∧ t.month = u.month ∧ t.day = u.day := by
  constructor
  · intro h
    -- neither day is before the other
    have htu := mt (ymdKey_lt_iff ht hu).mpr (by rw [h]; exact String.lt_irrefl _)
    have hut := mt (ymdKey_lt_iff hu ht).mpr (by rw [h]; exact String.lt_irrefl _)
    unfold DateTime.DayBefore at htu hut
    omega
  · rintro ⟨hyear, hmonth, hday⟩
    unfold DateTime.ymdKey DateTime.nowyear DateTime.nowmonth DateTime.nowday
    rw [hyear, hmonth, hday]

theorem writes_hour (t : DateTime) : Digits.Writes (twoDigits t.hour).toList 2 t.hour :=
  writes_twoDigits t.hour (Nat.lt_trans t.hour_lt (by decide))

theorem writes_minute (t : DateTime) : Digits.Writes (twoDigits t.minute).toList 2 t.minute :=
  writes_twoDigits t.minute (Nat.lt_trans t.minute_lt (by decide))

theorem toList_timeString (t : DateTime) :
    t.timeString.toList =
      (twoDigits t.hour).toList ++ '時' :: ((twoDigits t.minute).toList ++ ['分']) := by
  have hhour : t.nowhour = twoDigits t.hour ++ "時" := by
    unfold DateTime.nowhour twoDigits
    split
    · rfl
    · rfl
  have hminute : t.nowminu = twoDigits t.minute ++ "分" := by
    unfold DateTime.nowminu twoDigits
    split
    · rfl
    · rfl
  unfold DateTime.timeString
  rw [hhour, hminute, String.toList_append, String.toList_append, String.toList_append,
    List.append_assoc]
  rfl

theorem timeString_lt_iff (t u : DateTime) : t.timeString < u.timeString ↔ t.TimeBefore u := by
  have hhour := (writes_hour t).append_lt_iff (writes_hour u)
  have hminute := (writes_minute t).append_lt_iff (writes_minute u)
  rw [String.lt_iff, toList_timeString, toList_timeString, hhour, List.cons_lt_cons_self, hminute]
  have hirrefl : ¬ ['分'] < ['分'] := List.lt_irrefl _
  unfold DateTime.TimeBefore
  simp only [hirrefl, and_false, or_false]

theorem timeString_eq_iff (t u : DateTime) :
    t.timeString = u.timeString ↔ t.hour = u.hour ∧ t.minute = u.minute := by
  constructor
  · intro h
    have htu := mt (timeString_lt_iff t u).mpr (by rw [h]; exact String.lt_irrefl _)
    have hut := mt (timeString_lt_iff u t).mpr (by rw [h]; exact String.lt_irrefl _)
    unfold DateTime.TimeBefore at htu hut
    omega
  · rintro ⟨hhour, hminute⟩
    unfold DateTime.timeString DateTime.nowhour DateTime.nowminu
    rw [hhour, hminute]

end DatesLemmas

open DatesLemmas

/-- The reader gets the year, the month and the day that were written. -/
theorem readDate_ymdKey (t : DateTime) (hyear : 1000 ≤ t.year ∧ t.year ≤ 9999) :
    readDate t.ymdKey = some (t.year, (t.month : Int), (t.day : Int)) := by
  have hy := writes_nowyear_four hyear
  have hm := t.writes_nowmonth
  have hd := t.writes_nowday
  have hkey := t.toList_ymdKey
  have hlen : t.ymdKey.length = 8 := by
    rw [← String.length_toList, hkey, List.length_append, List.length_append, hy.length,
      hm.length, hd.length]
  have hyear4 : substring t.ymdKey 0 4 = some (String.ofList t.nowyear.toList) := by
    have h := substring_of_append (s := t.ymdKey) (l := []) (m := t.nowyear.toList)
      (r := t.nowmonth.toList ++ t.nowday.toList) (hkey.trans (List.append_assoc ..))
    rwa [hy.length] at h
  have hmonth2 : substring t.ymdKey 4 6 = some (String.ofList t.nowmonth.toList) := by
    have h := substring_of_append hkey
    rwa [hy.length, hm.length] at h
  have hday2 : substringFrom t.ymdKey 6 = some (String.ofList t.nowday.toList) := by
    have h := substring_of_append (hkey.trans (List.append_nil _).symm)
    rw [List.length_append, hy.length, hm.length, hd.length] at h
    unfold substringFrom
    rw [hlen, h]
  have hnat : ((t.year.toNat : Nat) : Int) = t.year := Int.toNat_of_nonneg (by omega)
  have hyearv := intParse_ofList hy (by decide) (by decide)
  rw [hnat] at hyearv
  have hmonthv := intParse_ofList hm (by decide) (by decide)
  have hdayv := intParse_ofList hd (by decide) (by decide)
  simp only [readDate, hyear4, hmonth2, hday2, hyearv, hmonthv, hdayv, Option.bind_eq_bind,
    Option.bind_some, Option.pure_def]

/-- A line of the table shows the day that the reader gets, if the formatter shows the day of the
`DateTime` that it is given. -/
theorem dateText_eq {formatter : DateFormatter} {zone : TimeZone}
    {text : Int × Nat × Nat → Option String}
    (hformat : ∀ year month day,
      formatter.format year month day = text (newDateTime zone year month day))
    (ymdWork : String) :
    dateText formatter ymdWork =
      (decodeDate zone ymdWork).bind fun date => (text date).bind (substringFrom · 8) := by
  unfold dateText decodeDate
  cases readDate ymdWork with
  | none => rfl
  | some date => simp [hformat]

/-- The strings made of `t` and `u` and what the month list reads of them agree with the days and
the times of day. -/
structure DateStringsAgree (zone : TimeZone) (t u : DateTime) : Prop where
  decoded : decodeDate zone t.ymdKey = some (t.year, t.month, t.day)
  key_lt : t.ymdKey < u.ymdKey ↔ t.DayBefore u
  key_eq : t.ymdKey = u.ymdKey ↔ t.year = u.year ∧ t.month = u.month ∧ t.day = u.day
  time_eq : t.timeString = u.timeString ↔ t.hour = u.hour ∧ t.minute = u.minute
  time_lt : t.timeString < u.timeString ↔ t.TimeBefore u

/-- For all instants `t` and `u` of the years 1000 to 9999 and every time zone of the phone: the
month list makes of the key of `t` the day that the attendance page wrote, keys compare as strings
in the order of their days, and times of day are written alike only if they are the same and
compare as strings in their order, if and only if the zone keeps the midnight at which the day of
`t` begins. -/
theorem date_strings_agree_iff (zone : TimeZone) {t u : DateTime}
    (ht : 1000 ≤ t.year ∧ t.year ≤ 9999) (hu : 1000 ≤ u.year ∧ u.year ≤ 9999) :
    DateStringsAgree zone t u ↔ zone.KeepsMidnight t := by
  have hdecode : decodeDate zone t.ymdKey = some (t.year, t.month, t.day) ↔ zone.KeepsMidnight t := by
    unfold decodeDate
    rw [readDate_ymdKey t ht, ← newDateTime_eq_iff]
    exact Option.some_inj
  constructor
  · exact fun h => hdecode.mp h.decoded
  · exact fun h => ⟨hdecode.mpr h, ymdKey_lt_iff ht hu, ymdKey_eq_iff ht hu,
      timeString_eq_iff t u, timeString_lt_iff t u⟩

/-- A zone that never changes its clocks. -/
def fixedZone (offset : Int) : TimeZone where
  offset _ := offset
  standard := offset

theorem keepsMidnight_fixedZone (offset : Int) (t : DateTime) :
    (fixedZone offset).KeepsMidnight t := by
  constructor
  · exact le_refl offset
  · show offset < offset + 86400
    omega

/-- The last minute of a leap day and the morning after, nine hours ahead of UTC. -/
theorem date_strings_agree_leapDay :
    let t : DateTime := { year := 2020, month := 2, day := 29, hour := 23, minute := 59 }
    let u : DateTime := { year := 2020, month := 3, day := 1, hour := 9, minute := 5 }
    (fixedZone 32400).KeepsMidnight t ∧ decodeDate (fixedZone 32400) t.ymdKey = some (2020, 2, 29) ∧
      t.ymdKey < u.ymdKey ∧ u.timeString < t.timeString := by
  intro t u
  have htu := (date_strings_agree_iff (fixedZone 32400) (t := t) (u := u) (by decide)
    (by decide)).mpr (keepsMidnight_fixedZone 32400 t)
  have hut := (date_strings_agree_iff (fixedZone 32400) (t := u) (u := t) (by decide)
    (by decide)).mpr (keepsMidnight_fixedZone 32400 u)
  exact ⟨keepsMidnight_fixedZone 32400 t, htu.decoded,
    htu.key_lt.mpr (.inr ⟨rfl, .inl (by decide)⟩), hut.time_lt.mpr (.inl (by decide))⟩

/-- America/Sao_Paulo around the beginning of its summer time on 4 November 2018, when the clocks
went from midnight to one o'clock. -/
def saoPaulo : TimeZone where
  offset instant := if instant < 1541300400 then -10800 else -7200
  standard := -10800

/-- The key of a day without midnight is read as the day before. -/
theorem date_decoded_as_day_before :
    let t : DateTime := { year := 2018, month := 11, day := 4, hour := 9, minute := 0 }
    t.ymdKey = "20181104" ∧ decodeDate saoPaulo t.ymdKey = some (2018, 11, 3) ∧
      ¬ DateStringsAgree saoPaulo t t := by
  intro t
  have hday : decodeDate saoPaulo t.ymdKey = some (2018, 11, 3) := by decide
  refine ⟨by decide, hday, fun h => ?_⟩
  exact absurd (hday.symm.trans h.decoded) (by decide)

end ShainManager
