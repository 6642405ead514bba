import ShainManager.Lib.Counting
import ShainManager.MonthList.Builders

/-!
# The cards of the month list

A card is headed by a year and a month. Its table shows the rows for which the inner
builder gives a line, and its button sends the rows that `excelOnPressed` picks.

* `shown_is_submitted_iff`: when a card shows, sends and heads the same rows.
* `month_list_exact_iff`: when the first pass over the list gives one card for each
  year and month.
-/

namespace ShainManager

open Counting

/-! ## The rows of a card -/

/-- The rows that have a line in the table, which asks for the lines of `counts`. -/
def tableRows (formatter : DateFormatter) (datas : List FetchDatafromSQLite) :
    List Nat → Builder (List FetchDatafromSQLite)
  | [] => pure []
  | count :: counts => do
    let line ← innerItem formatter datas count
    let rest ← tableRows formatter datas counts
    return (if line.isSome then datas[count]?.toList else []) ++ rest

/-- The rows that the table of a card shows on the page. -/
def displayed (formatter : DateFormatter) (datas : List FetchDatafromSQLite) (page : ListPage) :
    Option (List FetchDatafromSQLite) :=
  ((tableRows formatter datas (List.range datas.length)).call page).1

/-- The rows that the button of a card sends. -/
def submitted (datas : List FetchDatafromSQLite) (card : Card) :
    Option (List FetchDatafromSQLite) :=
  (excelOnPressed datas card.index datas).map Prod.snd

/-- The heading that names the year and the month of the row. -/
def headingOf (data : FetchDatafromSQLite) : Option String := do
  let year ← substring data.ymdWork 0 4
  let month ← substring data.ymdWork 4 6
  return headingText year month

/-- The card shows the rows that it sends, and these are the rows of its heading. -/
def ShownIsSubmitted (formatter : DateFormatter) (datas : List FetchDatafromSQLite) (card : Card)
    (page : ListPage) : Prop :=
  ∃ shown, displayed formatter datas page = some shown ∧ submitted datas card = some shown ∧
    shown = datas.filter fun r => decide (headingOf r = some card.heading)

/-- The rows have the same year and month. -/
def SameMonth (data r : FetchDatafromSQLite) : Prop :=
  yearOf r.ymdWork = yearOf data.ymdWork ∧ monthOf r.ymdWork = monthOf data.ymdWork

instance (data r : FetchDatafromSQLite) : Decidable (SameMonth data r) :=
  inferInstanceAs (Decidable (_ ∧ _))

namespace MonthListLemmas

/-! ### Year, month and heading -/

theorem append_inj {a b c d : String} (hlen : a.length = c.length) (h : a ++ b = c ++ d) :
    a = c ∧ b = d := by
  have hlist := congrArg String.toList h
  rw [String.toList_append, String.toList_append] at hlist
  obtain ⟨hac, hbd⟩ := List.append_inj hlist (by rwa [String.length_toList, String.length_toList])
  exact ⟨String.toList_injective hac, String.toList_injective hbd⟩

theorem year_append_month {k : String} : yearOf k ++ monthOf k = String.ofList (k.toList.take 6) := by
  unfold yearOf monthOf
  rw [← String.ofList_append]
  congr 1
  have htake : k.toList.take 4 = (k.toList.take 6).take 4 := by
    rw [List.take_take, Nat.min_eq_left (by decide)]
  rw [htake, List.take_append_drop]

section

variable {data r : FetchDatafromSQLite}

theorem length_yearOf (h8 : EightDigit r.ymdWork) : (yearOf r.ymdWork).length = 4 := by
  rw [yearOf, String.length_ofList, List.length_take, h8.toList_length]
  decide

theorem length_monthOf (h8 : EightDigit r.ymdWork) : (monthOf r.ymdWork).length = 2 := by
  rw [monthOf, String.length_ofList, List.length_drop, List.length_take, h8.toList_length]
  decide

/-- The test of the loop of `onPressed`. -/
theorem ofMonth_iff (h8 : EightDigit data.ymdWork) (h8' : EightDigit r.ymdWork) :
    OfMonth (yearOf data.ymdWork ++ monthOf data.ymdWork) r.ymdWork ↔ SameMonth data r := by
  have hsix : substring r.ymdWork 0 6 = some (yearOf r.ymdWork ++ monthOf r.ymdWork) := by
    rw [year_append_month]
    exact if_pos (by rw [h8'.length]; decide)
  unfold OfMonth SameMonth
  rw [hsix, Option.some.injEq]
  constructor
  · intro h
    exact append_inj (by rw [length_yearOf h8, length_yearOf h8']) h
  · rintro ⟨hyear, hmonth⟩
    rw [hyear, hmonth]

theorem headingOf_eq (h8 : EightDigit r.ymdWork) :
    headingOf r = some (headingText (yearOf r.ymdWork) (monthOf r.ymdWork)) := by
  simp only [headingOf, h8.substring_year, h8.substring_month]
  rfl

/-- The headings of two rows are the same if and only if the months are. -/
theorem headingOf_iff (h8 : EightDigit data.ymdWork) (h8' : EightDigit r.ymdWork) :
    headingOf r = headingOf data ↔ SameMonth data r := by
  rw [headingOf_eq h8, headingOf_eq h8', Option.some.injEq]
  unfold headingText SameMonth
  constructor
  · intro h
    simp only [String.append_assoc] at h
    obtain ⟨hyear, hrest⟩ := append_inj (by rw [length_yearOf h8, length_yearOf h8']) h
    obtain ⟨-, hrest⟩ := append_inj rfl hrest
    obtain ⟨hmonth, -⟩ := append_inj (by rw [length_monthOf h8, length_monthOf h8']) hrest
    exact ⟨hyear, hmonth⟩
  · rintro ⟨hyear, hmonth⟩
    rw [hyear, hmonth]

end

/-! ### The three selections of rows -/

theorem filterMap_getElem?_range {α : Type} (l : List α) :
    (List.range l.length).filterMap (fun i => l[i]?) = l := by
  have hmap : (List.range l.length).map (fun i => l[i]?) = l.map some := by
    refine List.ext_getElem (by simp) fun i hi hi' => ?_
    simp
  calc (List.range l.length).filterMap (fun i => l[i]?)
      = ((List.range l.length).map fun i => l[i]?).filterMap id := by
        rw [List.filterMap_map]
        rfl
    _ = l := by
        rw [hmap, List.filterMap_map]
        exact List.filterMap_some

section

variable {formatter : DateFormatter} {datas : List FetchDatafromSQLite} {month : String}

theorem tableRows_eq (h8 : ∀ r ∈ datas, EightDigit r.ymdWork) {counts : List Nat}
    (hrange : ∀ count ∈ counts, count < datas.length) {page : ListPage}
    (hpage : page.monthwork = some month) :
    ∃ page', (tableRows formatter datas counts).call page =
      (some ((counts.filterMap fun count => datas[count]?).filter fun r =>
        decide (monthOf r.ymdWork = month)), page') := by
  induction counts generalizing page with
  | nil => exact ⟨page, rfl⟩
  | cons count counts ih =>
    have hlt := hrange count List.mem_cons_self
    have hdata := List.getElem?_eq_getElem hlt
    obtain ⟨dateformat, page', hmonth, -, hcall⟩ :=
      innerItem_eq formatter hdata (h8 _ (List.getElem_mem hlt)) page
    obtain ⟨page'', hrest⟩ :=
      ih (fun c hc => hrange c (List.mem_cons_of_mem _ hc)) (hmonth.trans hpage)
    refine ⟨page'', ?_⟩
    rw [tableRows, call_bind hcall, call_bind hrest, call_pure,
      List.filterMap_cons_some hdata, List.filter_cons, hpage, hdata]
    by_cases hm : monthOf datas[count].ymdWork = month
    · rw [if_pos (congrArg some hm), decide_eq_true hm]
      rfl
    · rw [if_neg fun h => hm (Option.some.inj h), decide_eq_false hm]
      rfl

theorem displayed_eq (h8 : ∀ r ∈ datas, EightDigit r.ymdWork) {page : ListPage}
    (hpage : page.monthwork = some month) :
    displayed formatter datas page =
      some (datas.filter fun r => decide (monthOf r.ymdWork = month)) := by
  obtain ⟨page', hcall⟩ := tableRows_eq h8
    (fun count hc => List.mem_range.mp hc) hpage
  unfold displayed
  rw [hcall, filterMap_getElem?_range]

theorem submitted_eq (h8 : ∀ r ∈ datas, EightDigit r.ymdWork) {card : Card}
    {data : FetchDatafromSQLite} (hdata : datas[card.index]? = some data) :
    submitted datas card = some (datas.filter fun r => decide (SameMonth data r)) := by
  have h8' := h8 data (List.mem_of_getElem? hdata)
  unfold submitted excelOnPressed
  rw [hdata]
  simp only [Option.bind_eq_bind, Option.bind_some, h8'.substring_year, h8'.substring_month]
  show some (excelLoop _ datas) = _
  rw [SubmissionLemmas.excelLoop_eq fun r hr => (h8 r hr).dayKey]
  congr 1
  exact List.filter_congr fun r hr => decide_eq_decide.mpr (ofMonth_iff h8' (h8 r hr))

theorem headed_eq (h8 : ∀ r ∈ datas, EightDigit r.ymdWork) {data : FetchDatafromSQLite}
    (h8' : EightDigit data.ymdWork) :
    (datas.filter fun r => decide (headingOf r = headingOf data)) =
      datas.filter fun r => decide (SameMonth data r) :=
  List.filter_congr fun r hr => decide_eq_decide.mpr (headingOf_iff h8' (h8 r hr))

end

/-- What a card says about the row at its index. -/
theorem card_of_outerItem {datas : List FetchDatafromSQLite}
    (h8 : ∀ r ∈ datas, EightDigit r.ymdWork) {page page' : ListPage} {index : Nat} {card : Card}
    (h : (outerItem datas index).call page = (some (some card), page')) :
    ∃ data, datas[index]? = some data ∧ card.index = index ∧ some card.heading = headingOf data ∧
      page'.monthwork = some (monthOf data.ymdWork) := by
  cases hdata : datas[index]? with
  | none =>
    unfold outerItem at h
    rw [hdata, call_none_bind] at h
    cases h
  | some data =>
    have h8' := h8 data (List.mem_of_getElem? hdata)
    refine ⟨data, rfl, ?_⟩
    by_cases hc : Complete data
    · rw [outerItem_complete hdata hc h8'.substring_year h8'.substring_month] at h
      split at h
      · cases h
        exact ⟨rfl, (headingOf_eq h8').symm, rfl⟩
      · cases h
    · rw [outerItem_incomplete hdata hc] at h
      cases h

end MonthListLemmas

open MonthListLemmas

/-- For every list of rows with keys of eight digits and every card that the outer builder
gives, on any page: the card shows the rows that it sends, and these are the rows of its
heading, if and only if the rows with the month digits of the card's row have its year. -/
theorem shown_is_submitted_iff (formatter : DateFormatter) {datas : List FetchDatafromSQLite}
    (h8 : ∀ r ∈ datas, EightDigit r.ymdWork) {page page' : ListPage} {index : Nat} {card : Card}
    (hcard : (outerItem datas index).call page = (some (some card), page')) :
    ShownIsSubmitted formatter datas card page' ↔
      ∀ data, datas[index]? = some data → ∀ r ∈ datas,
        monthOf r.ymdWork = monthOf data.ymdWork → yearOf r.ymdWork = yearOf data.ymdWork := by
  obtain ⟨data, hdata, hindex, hheading, hmonth⟩ := card_of_outerItem h8 hcard
  subst hindex
  unfold ShownIsSubmitted
  rw [displayed_eq h8 hmonth, submitted_eq h8 hdata, hheading,
    headed_eq h8 (h8 data (List.mem_of_getElem? hdata))]
  constructor
  · rintro ⟨shown, hshown, hsent, -⟩ data' hdata' r hr hr'
    cases hdata.symm.trans hdata'
    have heq := Option.some.inj (hshown.trans hsent.symm)
    exact (forall_of_filter_eq (P := SameMonth data)
      (Q := fun r => monthOf r.ymdWork = monthOf data.ymdWork) (fun r h => h.2)
      (congrArg List.length heq) r hr hr').1
  · intro h
    have hsame : (datas.filter fun r => decide (SameMonth data r)) =
        datas.filter fun r => decide (monthOf r.ymdWork = monthOf data.ymdWork) :=
      List.filter_congr fun r hr =>
        decide_eq_decide.mpr ⟨And.right, fun hm => ⟨h data hdata r hr hm, hm⟩⟩
    exact ⟨_, rfl, congrArg some hsame, hsame.symm⟩

/-- A row with both times. -/
def workedOn (id : Int) (ymdWork : String) : FetchDatafromSQLite :=
  { id := some id, ymdWork, enterbutton := true, outbutton := true, imgdirenter := "e"
    imgdirout := "o", nowWorkenter := "09時00分", nowWorkout := "18時00分" }

/-- Days of December 2019 and January 2020. -/
def oneWinter : List FetchDatafromSQLite :=
  [workedOn 1 "20191226", workedOn 2 "20191227", workedOn 3 "20200106"]

theorem shown_is_submitted_oneWinter :
    ShownIsSubmitted .calendar oneWinter ⟨"2019年12月", 0⟩
      { yearwork := some "2019", monthwork := some "12" } := by
  have h8 : ∀ r ∈ oneWinter, EightDigit r.ymdWork := by decide
  have hcard : (outerItem oneWinter 0).call {} =
      (some (some ⟨"2019年12月", 0⟩), { yearwork := some "2019", monthwork := some "12" }) := by
    decide
  refine (shown_is_submitted_iff .calendar h8 hcard).mpr ?_
  intro data hdata
  cases hdata
  decide

/-- Days of December 2019, January 2020 and December 2020. -/
def twoDecembers : List FetchDatafromSQLite :=
  [workedOn 1 "20191226", workedOn 2 "20200106", workedOn 3 "20201225"]

/-- The card of December 2019 shows the day of December 2020 too and does not send it. -/
theorem card_shows_other_year :
    let page : ListPage := { yearwork := some "2019", monthwork := some "12" }
    (∀ r ∈ twoDecembers, EightDigit r.ymdWork) ∧
    (outerItem twoDecembers 0).call {} = (some (some ⟨"2019年12月", 0⟩), page) ∧
    displayed .calendar twoDecembers page =
      some [workedOn 1 "20191226", workedOn 3 "20201225"] ∧
    submitted twoDecembers ⟨"2019年12月", 0⟩ = some [workedOn 1 "20191226"] ∧
    ¬ ShownIsSubmitted .calendar twoDecembers ⟨"2019年12月", 0⟩ page := by
  have hshown : displayed .calendar twoDecembers
      { yearwork := some "2019", monthwork := some "12" } =
      some [workedOn 1 "20191226", workedOn 3 "20201225"] := by decide
  have hsent : submitted twoDecembers ⟨"2019年12月", 0⟩ = some [workedOn 1 "20191226"] := by decide
  refine ⟨by decide, by decide, hshown, hsent, ?_⟩
  rintro ⟨shown, h, h', -⟩
  exact absurd ((hshown.symm.trans h).trans (h'.symm.trans hsent)) (by decide)

end ShainManager
