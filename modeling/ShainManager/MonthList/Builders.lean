import ShainManager.Submission

/-!
# The builders of the month list

`lib/ui/listtaikin.dart`, `_ListtimedateState`. The page lists the rows of the local
table. Its `itemBuilder` gives a card for some rows and an empty box for the others; a
card holds a table with an `itemBuilder` of its own. Both builders write fields of the
page, which are null at first and never reset, and read `monthwork`.

* `outerItem_complete`, `outerItem_incomplete`: what the outer builder returns and
  leaves, by the row.
* `innerItem_eq`: what the inner builder returns and leaves, for a key of eight digits.
-/

namespace ShainManager

/-- The fields of `_ListtaikinState` that the builders write. -/
structure ListPage where
  yearwork : Option String := none
  monthwork : Option String := none
  daywork : Option String := none
  enterwork : Option String := none
  outwork : Option String := none
  yearformat : Option String := none
  monthformat : Option String := none
deriving DecidableEq, Repr

/-- A builder may throw. What it has written until then stays. -/
abbrev Builder := OptionT (StateM ListPage)

/-- What the builder returns, `none` when it throws, and the page after it. -/
def Builder.call {α : Type} (b : Builder α) (page : ListPage) : Option α × ListPage :=
  StateT.run (OptionT.run b) page

def orThrow {α : Type} (x : Option α) : Builder α := OptionT.mk (pure x)

/-! ## The outer builder -/

/-- Both times of the row are recorded. -/
def Complete (data : FetchDatafromSQLite) : Prop := data.nowWorkenter ≠ "" ∧ data.nowWorkout ≠ ""

instance (data : FetchDatafromSQLite) : Decidable (Complete data) :=
  inferInstanceAs (Decidable (_ ∧ _))

/-- A card. Its button and its table are closures over `index` and the page. -/
structure Card where
  heading : String
  index : Nat
deriving DecidableEq, Repr

/-- The outer `itemBuilder`. It returns `none` for the empty box. -/
def outerItem (datas : List FetchDatafromSQLite) (index : Nat) : Builder (Option Card) := do
  let data ← orThrow datas[index]?
  if Complete data then
    let year ← orThrow (substring data.ymdWork 0 4)
    modify fun page => { page with yearwork := some year }
    let month ← orThrow (substring data.ymdWork 4 6)
    if (← get).monthwork ≠ some month then
      modify fun page => { page with monthwork := some month }
      let page ← get
      return some { heading := interpolated page.yearwork ++ "年" ++ interpolated page.monthwork ++ "月"
                    index }
    else return none
  else return none

/-! ## The inner builder -/

/-- `new DateFormat('yyyy年MM月dd日(E)', "ja_JP").format(new DateTime(year, month, day))`
of package intl, in the time zone of the phone. `DateTime` carries a month or a day that is out
of range over to the next year or month, and the pattern writes at least four digits, two
signs and four more digits. -/
structure DateFormatter where
  format : Int → Int → Int → Option String
  writes : ∀ {year month day : Nat}, year < 10000 → month < 100 → day < 100 →
    ∃ s, format year month day = some s ∧ 8 ≤ s.length

/-- `n` with at least `width` digits. -/
def padded (width n : Nat) : String :=
  String.ofList (List.replicate (width - (toString n).length) '0') ++ toString n

/-- The day of the week of a day of the calendar. -/
def weekday (year month day : Nat) : String :=
  let shift := [0, 3, 2, 5, 0, 3, 5, 1, 4, 6, 2, 4].getD (month - 1) 0
  let year := if month < 3 then year - 1 else year
  let n := (year + year / 4 - year / 100 + year / 400 + shift + day) % 7
  ["日", "月", "火", "水", "木", "金", "土"].getD n ""

theorem length_padded (width n : Nat) : width ≤ (padded width n).length := by
  unfold padded
  rw [String.length_append, String.length_ofList, List.length_replicate]
  omega

/-- The formatter on the days of the calendar. -/
def DateFormatter.calendar : DateFormatter where
  format year month day :=
    some (padded 4 year.toNat ++ "年" ++ padded 2 month.toNat ++ "月" ++ padded 2 day.toNat ++
      "日(" ++ weekday year.toNat month.toNat day.toNat ++ ")")
  writes := by
    intro year month day _ _ _
    refine ⟨_, rfl, ?_⟩
    have hyear := length_padded 4 (year : Int).toNat
    have hmonth := length_padded 2 (month : Int).toNat
    simp only [String.length_append]
    have hsign : "年".length = 1 ∧ "月".length = 1 := by decide
    omega

/-- A line of the table. -/
structure TableRow where
  dateformat : String
  enterwork : String
  outwork : String
deriving DecidableEq, Repr

/-- The inner `itemBuilder`. It returns `none` for the empty box. -/
def innerItem (formatter : DateFormatter) (datas : List FetchDatafromSQLite) (count : Nat) :
    Builder (Option TableRow) := do
  let data ← orThrow datas[count]?
  let year ← orThrow (substring data.ymdWork 0 4)
  modify fun page => { page with yearformat := some year }
  let month ← orThrow (substring data.ymdWork 4 6)
  modify fun page => { page with monthformat := some month }
  let day ← orThrow (substringFrom data.ymdWork 6)
  modify fun page => { page with daywork := some day }
  let y ← orThrow (intParse year)
  let m ← orThrow (intParse month)
  let d ← orThrow (intParse day)
  let datetimeformat ← orThrow (formatter.format y m d)
  let dateformat ← orThrow (substringFrom datetimeformat 8)
  modify fun page => { page with enterwork := some data.nowWorkenter }
  modify fun page => { page with outwork := some data.nowWorkout }
  let page ← get
  if some month = page.monthwork then
    return some { dateformat, enterwork := interpolated page.enterwork
                  outwork := interpolated page.outwork }
  else return none

/-- The numbers that the inner builder reads from a key, for `DateTime`. -/
def readDate (ymdWork : String) : Option (Int × Int × Int) := do
  let yearformat ← substring ymdWork 0 4
  let monthformat ← substring ymdWork 4 6
  let daywork ← substringFrom ymdWork 6
  let year ← intParse yearformat
  let month ← intParse monthformat
  let day ← intParse daywork
  return (year, month, day)

/-- The text that a line of the table shows for a key. -/
def dateText (formatter : DateFormatter) (ymdWork : String) : Option String := do
  let (year, month, day) ← readDate ymdWork
  let datetimeformat ← formatter.format year month day
  substringFrom datetimeformat 8

/-! ## What they do -/

section

variable {α β : Type} {page : ListPage}

@[simp] theorem call_pure (a : α) : Builder.call (pure a) page = (some a, page) := rfl

@[simp] theorem call_some_bind (a : α) (f : α → Builder β) :
    Builder.call (orThrow (some a) >>= f) page = Builder.call (f a) page := rfl

@[simp] theorem call_none_bind (f : α → Builder β) :
    Builder.call (orThrow none >>= f) page = (none, page) := rfl

@[simp] theorem call_get_bind (f : ListPage → Builder β) :
    Builder.call (get >>= f) page = Builder.call (f page) page := rfl

@[simp] theorem call_modify_bind (g : ListPage → ListPage) (f : Unit → Builder β) :
    Builder.call (modify g >>= f) page = Builder.call (f ()) (g page) := rfl

/-- A builder that returns goes on with the next. -/
theorem call_bind {b : Builder α} {a : α} {page' : ListPage} (h : b.call page = (some a, page'))
    (f : α → Builder β) : Builder.call (b >>= f) page = Builder.call (f a) page' := by
  unfold Builder.call at *
  rw [OptionT.run_bind, Option.elimM, StateT.run_bind, h]
  rfl

end

/-! ### The outer builder -/

/-- The heading of a card. -/
def headingText (year month : String) : String := year ++ "年" ++ month ++ "月"

section

variable {datas : List FetchDatafromSQLite} {index : Nat} {data : FetchDatafromSQLite}

theorem outerItem_incomplete (hdata : datas[index]? = some data) (hc : ¬ Complete data)
    (page : ListPage) : (outerItem datas index).call page = (some none, page) := by
  unfold outerItem
  rw [hdata, call_some_bind, if_neg hc, call_pure]

/-- A complete row gets a card unless `monthwork` is its month already. -/
theorem outerItem_complete {year month : String} (hdata : datas[index]? = some data)
    (hc : Complete data) (hyear : substring data.ymdWork 0 4 = some year)
    (hmonth : substring data.ymdWork 4 6 = some month) (page : ListPage) :
    (outerItem datas index).call page =
      if page.monthwork ≠ some month then
        (some (some ⟨headingText year month, index⟩),
          { page with yearwork := some year, monthwork := some month })
      else (some none, { page with yearwork := some year }) := by
  unfold outerItem
  rw [hdata, call_some_bind, if_pos hc, hyear, call_some_bind, call_modify_bind, hmonth,
    call_some_bind, call_get_bind]
  dsimp only
  split
  · rfl
  · rfl

/-- A key with no month makes the builder throw. -/
theorem outerItem_short (hdata : datas[index]? = some data) (hc : Complete data)
    (hshort : data.ymdWork.length < 6) (page : ListPage) :
    ((outerItem datas index).call page).1 = none := by
  have hmonth : substring data.ymdWork 4 6 = none := if_neg (by omega)
  unfold outerItem
  rw [hdata, call_some_bind, if_pos hc]
  cases hyear : substring data.ymdWork 0 4 with
  | none => rw [call_none_bind]
  | some year => rw [call_some_bind, call_modify_bind, hmonth, call_none_bind]

end

/-! ### Keys of eight digits -/

/-- A key `yyyyMMdd`. -/
structure EightDigit (k : String) : Prop where
  length : k.length = 8
  digits : k.toList.all Char.isDigit = true

instance (k : String) : Decidable (EightDigit k) :=
  decidable_of_iff (k.length = 8 ∧ k.toList.all Char.isDigit = true)
    ⟨fun h => ⟨h.1, h.2⟩, fun h => ⟨h.length, h.digits⟩⟩

def yearOf (k : String) : String := String.ofList (k.toList.take 4)

def monthOf (k : String) : String := String.ofList ((k.toList.take 6).drop 4)

section

variable {k : String}

theorem EightDigit.dayKey (h : EightDigit k) : DayKey k := ⟨by rw [h.length]; decide, h.digits⟩

theorem EightDigit.toList_length (h : EightDigit k) : k.toList.length = 8 := by
  rw [String.length_toList, h.length]

theorem EightDigit.substring_year (h : EightDigit k) : substring k 0 4 = some (yearOf k) :=
  if_pos (by rw [h.length]; decide)

theorem EightDigit.substring_month (h : EightDigit k) : substring k 4 6 = some (monthOf k) :=
  if_pos (by rw [h.length]; decide)

/-- A part of the key is parsed, to a number of as many digits. -/
theorem EightDigit.intParse_part (h : EightDigit k) {i j : Nat} (hij : i < j) (hj : j ≤ 8)
    (hlen : j - i ≤ 4) :
    ∃ s, substring k i j = some s ∧ ∃ v : Nat, intParse s = some (v : Int) ∧ v < 10 ^ (j - i) := by
  have hpart : ((k.toList.take j).drop i).length = j - i := by
    rw [List.length_drop, List.length_take, h.toList_length]
    omega
  refine ⟨String.ofList ((k.toList.take j).drop i), if_pos (by rw [h.length]; omega), ?_⟩
  have hdigits : ((k.toList.take j).drop i).all Char.isDigit = true :=
    List.all_eq_true.mpr fun c hc =>
      List.all_eq_true.mp h.digits c (List.mem_of_mem_take (List.mem_of_mem_drop hc))
  have hv := intParse_digits (s := String.ofList ((k.toList.take j).drop i))
  rw [String.toList_ofList] at hv
  refine ⟨_, hv hdigits ?_ (by omega), ?_⟩
  · rw [← List.length_pos_iff]
    omega
  · rw [← hpart]
    exact Digits.value_lt hdigits

end

/-! ### The inner builder -/

theorem substringFrom_of_le {s : String} {i : Nat} (h : i ≤ s.length) :
    ∃ s', substringFrom s i = some s' :=
  ⟨_, if_pos ⟨h, le_refl _⟩⟩

/-- The table has a line for the row if and only if the month of the row is `monthwork`.
The line shows the date and the times of the row. -/
theorem innerItem_eq (formatter : DateFormatter) {datas : List FetchDatafromSQLite} {count : Nat}
    {data : FetchDatafromSQLite} (hdata : datas[count]? = some data) (h8 : EightDigit data.ymdWork)
    (page : ListPage) :
    ∃ dateformat page', page'.monthwork = page.monthwork ∧
      dateText formatter data.ymdWork = some dateformat ∧
      (innerItem formatter datas count).call page =
        (some (if some (monthOf data.ymdWork) = page.monthwork then
            some ⟨dateformat, data.nowWorkenter, data.nowWorkout⟩ else none), page') := by
  obtain ⟨year, hyear, y, hy, hylt⟩ := h8.intParse_part (i := 0) (j := 4) (by decide) (by decide) (by decide)
  obtain ⟨month, hmonth, m, hm, hmlt⟩ := h8.intParse_part (i := 4) (j := 6) (by decide) (by decide) (by decide)
  obtain ⟨day, hday, d, hd, hdlt⟩ := h8.intParse_part (i := 6) (j := 8) (by decide) (by decide) (by decide)
  have hday' : substringFrom data.ymdWork 6 = some day := by
    unfold substringFrom
    rw [h8.length, hday]
  obtain ⟨datetimeformat, hformat, hlen⟩ := formatter.writes hylt hmlt hdlt
  obtain ⟨dateformat, hdate⟩ := substringFrom_of_le hlen
  have hmonthOf : month = monthOf data.ymdWork := Option.some.inj (hmonth.symm.trans h8.substring_month)
  refine ⟨dateformat, { page with
    yearformat := some year, monthformat := some month, daywork := some day
    enterwork := some data.nowWorkenter, outwork := some data.nowWorkout }, rfl, ?_, ?_⟩
  · simp [dateText, readDate, hyear, hmonth, hday', hy, hm, hd, hformat, hdate]
  · unfold innerItem
    rw [hdata, call_some_bind, hyear, call_some_bind, call_modify_bind, hmonth, call_some_bind,
      call_modify_bind, hday', call_some_bind, call_modify_bind, hy, call_some_bind, hm,
      call_some_bind, hd, call_some_bind, hformat, call_some_bind, hdate, call_some_bind,
      call_modify_bind, call_modify_bind, call_get_bind, hmonthOf]
    dsimp only
    split
    · rfl
    · rfl

end ShainManager
