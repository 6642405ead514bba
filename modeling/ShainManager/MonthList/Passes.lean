import ShainManager.Lib.Run
import ShainManager.MonthList.Cards

/-!
# Passes over the month list

The list view asks its builders for items: first from the top to the bottom, later again
and in any order, when the page is rebuilt or scrolled.

* `month_list_exact_iff`: when the first pass gives one card for each year and month.
* `independent_iff`: when the items do not depend on the earlier calls.
-/

namespace ShainManager

open Counting Machine MonthListLemmas

/-! ## The first pass -/

/-- The cards that the outer builder gives for `indices`. -/
def pass (datas : List FetchDatafromSQLite) : List Nat → Builder (List Card)
  | [] => pure []
  | index :: indices => do
    let item ← outerItem datas index
    let rest ← pass datas indices
    return item.toList ++ rest

/-- The cards of a pass from the top to the bottom on a new page. -/
def firstPass (datas : List FetchDatafromSQLite) : Option (List Card) :=
  ((pass datas (List.range datas.length)).call {}).1

/-- The first pass gives one card for the year and month of each complete row, and no
other card. -/
def MonthListExact (datas : List FetchDatafromSQLite) : Prop :=
  ∃ cards, firstPass datas = some cards ∧
    (∀ r ∈ datas, Complete r →
      cards.countP (fun card => decide (some card.heading = headingOf r)) = 1) ∧
    ∀ card ∈ cards, ∃ r ∈ datas, Complete r ∧ some card.heading = headingOf r

/-- The complete rows, in order. -/
def completeRows (datas : List FetchDatafromSQLite) : List FetchDatafromSQLite :=
  datas.filter fun r => decide (Complete r)

/-- Among the rows, the one at `i` has the year and month of `data`, and it is the
first or the one before it has other month digits. -/
def StartsMonth (rows : List FetchDatafromSQLite) (data : FetchDatafromSQLite) (i : Nat) : Prop :=
  ∃ r, rows[i]? = some r ∧ SameMonth data r ∧
    ∀ j, i = j + 1 → ∀ p, rows[j]? = some p → monthOf p.ymdWork ≠ monthOf r.ymdWork

namespace MonthListLemmas

section

variable {datas : List FetchDatafromSQLite} {data : FetchDatafromSQLite}

theorem mem_completeRows : data ∈ completeRows datas ↔ data ∈ datas ∧ Complete data := by
  simp [completeRows]

theorem completeRows_cons_pos (hc : Complete data) :
    completeRows (data :: datas) = data :: completeRows datas := by
  simp [completeRows, hc]

theorem completeRows_cons_neg (hc : ¬ Complete data) :
    completeRows (data :: datas) = completeRows datas := by
  simp [completeRows, hc]

/-- The cards are headed by the complete rows whose month differs from the one before. -/
theorem pass_eq (h8 : ∀ r ∈ datas, EightDigit r.ymdWork) {indices : List Nat}
    (hrange : ∀ index ∈ indices, index < datas.length) (page : ListPage) :
    ∃ cards page', (pass datas indices).call page = (some cards, page') ∧
      cards.map (fun card => some card.heading) =
        (openings (fun r => monthOf r.ymdWork) page.monthwork
          (completeRows (indices.filterMap fun index => datas[index]?))).map headingOf := by
  induction indices generalizing page with
  | nil => exact ⟨[], page, rfl, rfl⟩
  | cons index indices ih =>
    obtain ⟨data, hdata⟩ : ∃ data, datas[index]? = some data :=
      ⟨_, List.getElem?_eq_getElem (hrange index List.mem_cons_self)⟩
    have h8' := h8 data (List.mem_of_getElem? hdata)
    have hrest := ih fun i hi => hrange i (List.mem_cons_of_mem _ hi)
    rw [List.filterMap_cons_some hdata]
    by_cases hc : Complete data
    · have hcall := outerItem_complete hdata hc h8'.substring_year h8'.substring_month page
      rw [completeRows_cons_pos hc, openings]
      split at hcall
      · next hne =>
        obtain ⟨cards, page', hpass, hcards⟩ := hrest
          { page with yearwork := some (yearOf data.ymdWork)
                      monthwork := some (monthOf data.ymdWork) }
        refine ⟨⟨headingText (yearOf data.ymdWork) (monthOf data.ymdWork), index⟩ :: cards, page', ?_, ?_⟩
        · rw [pass, call_bind hcall, call_bind hpass]
          rfl
        · rw [if_pos hne, List.map_cons, List.map_cons, hcards, headingOf_eq h8']
      · next heq =>
        obtain ⟨cards, page', hpass, hcards⟩ := hrest
          { page with yearwork := some (yearOf data.ymdWork) }
        refine ⟨cards, page', ?_, ?_⟩
        · rw [pass, call_bind hcall, call_bind hpass]
          rfl
        · rw [if_neg heq, hcards, ← not_not.mp heq]
    · obtain ⟨cards, page', hpass, hcards⟩ := hrest page
      refine ⟨cards, page', ?_, ?_⟩
      · rw [pass, call_bind (outerItem_incomplete hdata hc page), call_bind hpass]
        rfl
      · rw [completeRows_cons_neg hc, hcards]

theorem startsMonth_iff {rows : List FetchDatafromSQLite} {i : Nat} :
    StartsMonth rows data i ↔
      OpensAt (fun r => monthOf r.ymdWork) (SameMonth data) none rows i := by
  unfold StartsMonth OpensAt
  refine exists_congr fun r => and_congr_right fun _ => and_congr_right fun _ => ?_
  cases i with
  | zero => simp [keyBefore]
  | succ j => simp [keyBefore]

theorem countP_heading {cards : List Card} {rows : List FetchDatafromSQLite}
    (h : cards.map (fun card => some card.heading) = rows.map headingOf) (t : Option String) :
    cards.countP (fun card => decide (some card.heading = t)) =
      rows.countP fun r => decide (headingOf r = t) := by
  have hcount := congrArg (List.countP fun x => decide (x = t)) h
  rwa [List.countP_map, List.countP_map] at hcount

/-- The cards of the first pass. -/
theorem firstPass_eq (h8 : ∀ r ∈ datas, EightDigit r.ymdWork) :
    ∃ cards, firstPass datas = some cards ∧
      cards.map (fun card => some card.heading) =
        (openings (fun r => monthOf r.ymdWork) none (completeRows datas)).map headingOf := by
  obtain ⟨cards, page', hpass, hcards⟩ := pass_eq h8 (fun i hi => List.mem_range.mp hi) {}
  rw [filterMap_getElem?_range] at hcards
  exact ⟨cards, congrArg Prod.fst hpass, hcards⟩

/-- How many cards are headed by the year and month of a row. -/
theorem countP_card_eq (h8 : ∀ r ∈ datas, EightDigit r.ymdWork) {cards : List Card}
    (hcards : cards.map (fun card => some card.heading) =
      (openings (fun r => monthOf r.ymdWork) none (completeRows datas)).map headingOf)
    (hdata : data ∈ datas) :
    cards.countP (fun card => decide (some card.heading = headingOf data)) =
      (openings (fun r => monthOf r.ymdWork) none (completeRows datas)).countP fun r =>
        decide (SameMonth data r) := by
  rw [countP_heading hcards]
  refine List.countP_congr fun r hr => ?_
  have hr' := (mem_completeRows.mp (mem_of_mem_openings hr)).1
  rw [decide_eq_true_eq, decide_eq_true_eq, headingOf_iff (h8 data hdata) (h8 r hr')]

end

end MonthListLemmas

/-- For every list of rows with keys of eight digits, the first pass gives exactly one card
for each year and month that has a complete row, and no other card, if and only if for each
complete row exactly one complete row of its year and month is the first complete row or
follows one with other month digits. -/
theorem month_list_exact_iff {datas : List FetchDatafromSQLite}
    (h8 : ∀ r ∈ datas, EightDigit r.ymdWork) :
    MonthListExact datas ↔
      ∀ r ∈ datas, Complete r → ∃! i, StartsMonth (completeRows datas) r i := by
  obtain ⟨cards, hpass, hcards⟩ := firstPass_eq h8
  have hone : ∀ r ∈ datas,
      cards.countP (fun card => decide (some card.heading = headingOf r)) = 1 ↔
        ∃! i, StartsMonth (completeRows datas) r i := by
    intro r hr
    rw [countP_card_eq h8 hcards hr, countP_openings_eq_one_iff]
    simp only [startsMonth_iff]
  constructor
  · rintro ⟨cards', hpass', hcount, -⟩ r hr hc
    cases hpass.symm.trans hpass'
    exact (hone r hr).mp (hcount r hr hc)
  · intro h
    refine ⟨cards, hpass, fun r hr hc => (hone r hr).mpr (h r hr hc), ?_⟩
    intro card hcard
    have hmem : some card.heading ∈ cards.map fun card => some card.heading :=
      List.mem_map_of_mem hcard
    rw [hcards] at hmem
    obtain ⟨r, hr, hheading⟩ := List.mem_map.mp hmem
    obtain ⟨hrow, hc⟩ := mem_completeRows.mp (mem_of_mem_openings hr)
    exact ⟨r, hrow, hc, hheading.symm⟩

theorem month_list_exact_oneWinter :
    MonthListExact oneWinter ∧
      ∀ r ∈ oneWinter, Complete r → ∃! i, StartsMonth (completeRows oneWinter) r i := by
  have hexact : MonthListExact oneWinter :=
    ⟨[⟨"2019年12月", 0⟩, ⟨"2020年01月", 2⟩], by decide, by decide, by decide⟩
  exact ⟨hexact, (month_list_exact_iff (by decide)).mp hexact⟩

/-- Days of December 2019 and of December 2020, with none between them. -/
def adjacentDecembers : List FetchDatafromSQLite := [workedOn 1 "20191226", workedOn 2 "20201225"]

/-- December 2020 gets no card. -/
theorem december_without_card :
    (∀ r ∈ adjacentDecembers, EightDigit r.ymdWork) ∧
    firstPass adjacentDecembers = some [⟨"2019年12月", 0⟩] ∧
    ¬ MonthListExact adjacentDecembers := by
  have hpass : firstPass adjacentDecembers = some [⟨"2019年12月", 0⟩] := by decide
  refine ⟨by decide, hpass, ?_⟩
  rintro ⟨cards, hcards, hcount, -⟩
  cases hpass.symm.trans hcards
  exact absurd (hcount (workedOn 2 "20201225") (by decide) (by decide)) (by decide)

/-! ## Rebuilding and scrolling -/

/-- A call of the outer builder, or of the builder of the table of the card at `card`. -/
inductive ListCall
  | outer (index : Nat)
  | inner (card count : Nat)
deriving DecidableEq, Repr

/-- The page, and the indices for which a card has been built. -/
structure Browsed where
  page : ListPage := {}
  cards : List Nat := []
deriving DecidableEq, Repr

/-- The list view makes a call. It stays within the list, and the table of a card is only
there when the card is. -/
def listCall (formatter : DateFormatter) (datas : List FetchDatafromSQLite) (s : Browsed) :
    ListCall → Option Browsed
  | .outer index =>
    if index < datas.length then
      match (outerItem datas index).call s.page with
      | (some (some card), page) => some { page, cards := card.index :: s.cards }
      | (some none, page) => some { s with page }
      | (none, page) => some { s with page }
    else none
  | .inner card count =>
    if card ∈ s.cards ∧ count < datas.length then
      some { s with page := ((innerItem formatter datas count).call s.page).2 }
    else none

/-- The states after the finite sequences of calls. -/
def AfterCalls (formatter : DateFormatter) (datas : List FetchDatafromSQLite) : Browsed → Prop :=
  Reach (listCall formatter datas) anyStep {}

/-- The items are the same after any two sequences of calls. -/
def Independent (formatter : DateFormatter) (datas : List FetchDatafromSQLite) : Prop :=
  ∀ s s', AfterCalls formatter datas s → AfterCalls formatter datas s' →
    (∀ index < datas.length,
      ((outerItem datas index).call s.page).1 = ((outerItem datas index).call s'.page).1) ∧
    ∀ card ∈ s.cards, card ∈ s'.cards → ∀ count < datas.length,
      ((innerItem formatter datas count).call s.page).1 =
        ((innerItem formatter datas count).call s'.page).1

namespace MonthListLemmas

section

variable {formatter : DateFormatter} {datas : List FetchDatafromSQLite}

/-- Without a complete row that has a month there is never a card. -/
theorem outerItem_of_short (hshort : ∀ r ∈ datas, Complete r → r.ymdWork.length < 6) {index : Nat}
    {data : FetchDatafromSQLite} (hdata : datas[index]? = some data) (page : ListPage) :
    ((outerItem datas index).call page).1 = if Complete data then none else some none := by
  split
  · next hc =>
    exact outerItem_short hdata hc (hshort data (List.mem_of_getElem? hdata) hc) page
  · next hc => rw [outerItem_incomplete hdata hc]

theorem cards_of_short (hshort : ∀ r ∈ datas, Complete r → r.ymdWork.length < 6) {s : Browsed}
    (h : AfterCalls formatter datas s) : s.cards = [] := by
  refine Reach.invariant (I := fun s => s.cards = []) rfl ?_ h
  intro s e s' _ hs _ hstep
  cases e with
  | outer index =>
    simp only [listCall] at hstep
    split at hstep
    · next hlt =>
      have hitem := outerItem_of_short hshort (List.getElem?_eq_getElem hlt) s.page
      split at hstep
      · next card page hcall =>
        rw [hcall] at hitem
        split at hitem
        · cases hitem
        · cases hitem
      · cases hstep
        exact hs
      · cases hstep
        exact hs
    · cases hstep
  | inner card count =>
    simp only [listCall] at hstep
    split at hstep
    · cases hstep
      exact hs
    · cases hstep

/-- A complete row that has a month gets a card on a new page, and none right after it. -/
theorem card_once {index : Nat} {data : FetchDatafromSQLite} (hdata : datas[index]? = some data)
    (hc : Complete data) (hlen : 6 ≤ data.ymdWork.length) :
    ∃ s, AfterCalls formatter datas s ∧
      ((outerItem datas index).call {}).1 ≠ ((outerItem datas index).call s.page).1 := by
  obtain ⟨year, hyear⟩ : ∃ year, substring data.ymdWork 0 4 = some year :=
    ⟨_, if_pos ⟨by omega, by omega⟩⟩
  obtain ⟨month, hmonth⟩ : ∃ month, substring data.ymdWork 4 6 = some month :=
    ⟨_, if_pos ⟨by omega, hlen⟩⟩
  have hitem := outerItem_complete hdata hc hyear hmonth
  have hlt : index < datas.length := (List.getElem?_eq_some_iff.mp hdata).1
  let page : ListPage := { yearwork := some year, monthwork := some month }
  have hfirst : (outerItem datas index).call {} =
      (some (some ⟨headingText year month, index⟩), page) := by
    rw [hitem, if_pos nofun]
  have hsecond : (outerItem datas index).call page = (some none, page) := by
    rw [hitem, if_neg (not_not_intro rfl)]
  refine ⟨{ page, cards := [index] }, ?_, ?_⟩
  · refine Reach.next (e := .outer index) .start trivial ?_
    simp only [listCall, if_pos hlt, hfirst]
  · rw [hfirst, hsecond]
    nofun

end

end MonthListLemmas

/-- For every list of rows, what the builders return does not depend on the earlier calls
if and only if no complete row has a key with a month, so that no card is ever built. -/
theorem independent_iff (formatter : DateFormatter) (datas : List FetchDatafromSQLite) :
    Independent formatter datas ↔ ∀ r ∈ datas, Complete r → r.ymdWork.length < 6 := by
  constructor
  · intro h r hr hc
    obtain ⟨index, hindex⟩ := List.getElem?_of_mem hr
    refine Nat.lt_of_not_le fun hlen => ?_
    obtain ⟨s, hs, hne⟩ := card_once hindex hc hlen
    exact hne ((h {} s .start hs).1 index (List.getElem?_eq_some_iff.mp hindex).1)
  · intro hshort s s' hs hs'
    refine ⟨fun index hlt => ?_, fun card hcard => ?_⟩
    · have hdata := List.getElem?_eq_getElem hlt
      rw [outerItem_of_short hshort hdata, outerItem_of_short hshort hdata]
    · rw [cards_of_short hshort hs] at hcard
      exact absurd hcard List.not_mem_nil

/-- The first card of `oneWinter` has been built. -/
def afterDecember : Browsed :=
  { page := { yearwork := some "2019", monthwork := some "12" }, cards := [0] }

/-- All rows of `oneWinter` have been asked for. -/
def afterJanuary : Browsed :=
  { page := { yearwork := some "2020", monthwork := some "01" }, cards := [2, 0] }

/-- The table of the card of December has lines before the card of January is built and none
after it. The card of December itself is an empty box when it is asked for twice in a row. -/
theorem card_depends_on_history :
    AfterCalls .calendar oneWinter afterDecember ∧ AfterCalls .calendar oneWinter afterJanuary ∧
    ((innerItem .calendar oneWinter 0).call afterDecember.page).1 =
      some (some ⟨"26日(木)", "09時00分", "18時00分"⟩) ∧
    ((innerItem .calendar oneWinter 0).call afterJanuary.page).1 = some none ∧
    ((outerItem oneWinter 0).call afterDecember.page).1 = some none ∧
    ((outerItem oneWinter 0).call afterJanuary.page).1 = some (some ⟨"2019年12月", 0⟩) ∧
    ¬ Independent .calendar oneWinter := by
  have hdecember : AfterCalls .calendar oneWinter afterDecember :=
    reach_of_run (show run (listCall .calendar oneWinter) anyStep {} [.outer 0] = _ by decide)
  have hjanuary : AfterCalls .calendar oneWinter afterJanuary :=
    reach_of_run (show run (listCall .calendar oneWinter) anyStep {}
      [.outer 0, .outer 1, .outer 2] = _ by decide)
  refine ⟨hdecember, hjanuary, by decide, by decide, by decide, by decide, ?_⟩
  intro h
  exact absurd ((h _ _ hdecember hjanuary).1 0 (by decide)) (by decide)

end ShainManager
