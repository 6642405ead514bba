import Mathlib.Data.List.Induction
import ShainManager.Clock
import ShainManager.Connectivity
import ShainManager.Sqlite

/-!
# The State object of the attendance page

The fields of `manageEmpState` (`lib/ui/manageEmp.dart`) that decide what is
recorded, and its pure parts:

* `Page.build`: `_goingtoWork` sets the date fields and lays out the buttons,
  enabled or not by the flags of that moment;
* `Page.onResults`: the callback of `getManager().then` with `_workingcheck`;
* `Page.body`: the delayed body of a press of 出勤 or 退勤.

`loads_last_row` says which row the read callback takes.

The fields of the task board and the fields that only hold intermediate strings
(`nowhourenter`, `datetimenow`, …) are not needed here.
-/

namespace ShainManager

/-- The two attendance buttons. -/
inductive Button
  | enter -- 出勤
  | out -- 退勤
deriving DecidableEq, Repr

/-- The buttons as a build laid them out: enabled when `onPressed` is not
null. -/
structure Built where
  enter : Bool
  out : Bool
deriving DecidableEq, Repr

def Built.enabled (w : Built) : Button → Bool
  | .enter => w.enter
  | .out => w.out

/-- `manageEmpState`. The date fields are written together, by a build, so
`ymdWork` is always their concatenation. `built` is `none` before the first
build and when the last build showed the network notice instead. -/
structure Page where
  id : Option Int := none
  enterbutton : Bool := false
  outbutton : Bool := false
  imgdirenter : String := "assets/img/enter.gif"
  imgdirout : String := "assets/img/out.gif"
  nowWorkenter : String := ""
  nowWorkout : String := ""
  nowyear : String := ""
  nowmonth : String := ""
  nowday : String := ""
  ymdWork : String := ""
  net : Net := {}
  built : Option Built := none
  ymdWork_eq : ymdWork = nowyear ++ nowmonth ++ nowday := by rfl
deriving DecidableEq

/-! ## Build -/

/-- What `_goingtoWork` writes at the instant `t`. -/
def Page.build (p : Page) (t : DateTime) : Page :=
  { p with
    nowyear := t.nowyear, nowmonth := t.nowmonth, nowday := t.nowday
    ymdWork := t.ymdKey
    built := if p.net.gate then some ⟨!p.enterbutton, !p.outbutton⟩ else none
    ymdWork_eq := rfl }

/-! ## The read callback -/

/-- The assignments of `_workingcheck`. -/
def Page.load (p : Page) (data : FetchDatafromSQLite) : Page :=
  { p with
    id := data.id, enterbutton := data.enterbutton, outbutton := data.outbutton
    imgdirout := data.imgdirout
    nowWorkenter := data.nowWorkenter, nowWorkout := data.nowWorkout }

/-- `_workingcheck`. -/
def Page.workingcheck (p : Page) (sldata : List FetchDatafromSQLite) : Page :=
  let todaydatetime := p.nowyear ++ p.nowmonth ++ p.nowday
  sldata.foldl (fun q data => if data.ymdWork = todaydatetime then q.load data else q) p

/-- The callback of `db.getManager().then`. -/
def Page.onResults (p : Page) (results : List FetchDatafromSQLite) : Page :=
  results.foldl (fun q result =>
    if q.ymdWork = result.ymdWork then q.workingcheck results else q) p

/-- The last record of the day `d`. -/
def lastOf (d : String) (results : List FetchDatafromSQLite) : Option FetchDatafromSQLite :=
  (results.filter fun r => decide (r.ymdWork = d)).getLast?

/-! ## The button handlers -/

/-- What the delayed body of a press writes to the page at the instant `t`. -/
def Page.body (p : Page) (b : Button) (t : DateTime) : Page :=
  match b with
  | .enter => { p with enterbutton := !p.enterbutton, nowWorkenter := t.timeString }
  | .out => { p with outbutton := !p.outbutton, nowWorkout := t.timeString }

/-- `FetchDatafromSQLite(id, ymdWork, enterbutton, …)` of both bodies. -/
def Page.setdata (p : Page) : FetchDatafromSQLite :=
  ⟨p.id, p.ymdWork, p.enterbutton, p.outbutton, p.imgdirenter, p.imgdirout,
    p.nowWorkenter, p.nowWorkout⟩

/-- The flag and the time of a button, on the page and in a record. -/
def Page.flag (p : Page) : Button → Bool
  | .enter => p.enterbutton
  | .out => p.outbutton

def FetchDatafromSQLite.flag (r : FetchDatafromSQLite) : Button → Bool
  | .enter => r.enterbutton
  | .out => r.outbutton

def FetchDatafromSQLite.time (r : FetchDatafromSQLite) : Button → String
  | .enter => r.nowWorkenter
  | .out => r.nowWorkout

/-! ## What they change -/

@[simp] theorem Page.load_ymdWork (p : Page) (r : FetchDatafromSQLite) :
    (p.load r).ymdWork = p.ymdWork := rfl

@[simp] theorem Page.body_id (p : Page) (b : Button) (t : DateTime) : (p.body b t).id = p.id := by
  cases b <;> rfl

@[simp] theorem Page.body_ymdWork (p : Page) (b : Button) (t : DateTime) :
    (p.body b t).ymdWork = p.ymdWork := by
  cases b <;> rfl

@[simp] theorem Page.body_built (p : Page) (b : Button) (t : DateTime) :
    (p.body b t).built = p.built := by
  cases b <;> rfl

@[simp] theorem Page.body_flag (p : Page) (b : Button) (t : DateTime) :
    (p.body b t).flag b = !p.flag b := by
  cases b <;> rfl

@[simp] theorem Page.body_setdata_time (p : Page) (b : Button) (t : DateTime) :
    (p.body b t).setdata.time b = t.timeString := by
  cases b <;> rfl

@[simp] theorem Page.setdata_id (p : Page) : p.setdata.id = p.id := rfl

@[simp] theorem Page.setdata_ymdWork (p : Page) : p.setdata.ymdWork = p.ymdWork := rfl

namespace PageLemmas

theorem workingcheck_snoc (p : Page) (rs : List FetchDatafromSQLite) (r : FetchDatafromSQLite) :
    p.workingcheck (rs ++ [r]) =
      if r.ymdWork = p.ymdWork then (p.workingcheck rs).load r else p.workingcheck rs := by
  simp [Page.workingcheck, List.foldl_append, p.ymdWork_eq]

theorem lastOf_snoc (d : String) (rs : List FetchDatafromSQLite) (r : FetchDatafromSQLite) :
    lastOf d (rs ++ [r]) = if r.ymdWork = d then some r else lastOf d rs := by
  by_cases h : r.ymdWork = d
  · simp [lastOf, List.filter_append, h]
  · simp [lastOf, List.filter_append, h]

theorem lastOf_eq_none {d : String} {rs : List FetchDatafromSQLite} :
    lastOf d rs = none ↔ ∀ r ∈ rs, r.ymdWork ≠ d := by
  simp [lastOf]

theorem lastOf_append_cons {d : String} (before : List FetchDatafromSQLite)
    {data : FetchDatafromSQLite} {rest : List FetchDatafromSQLite} (hdata : data.ymdWork = d)
    (hrest : ∀ r ∈ rest, r.ymdWork ≠ d) : lastOf d (before ++ data :: rest) = some data := by
  have hnone : rest.filter (fun r => decide (r.ymdWork = d)) = [] := by
    simpa using hrest
  unfold lastOf
  rw [List.filter_append, List.filter_cons_of_pos (by simpa using hdata), hnone,
    List.getLast?_append_of_ne_nil _ (List.cons_ne_nil _ _)]
  rfl

theorem mem_of_lastOf {d : String} {rs : List FetchDatafromSQLite} {r : FetchDatafromSQLite}
    (h : lastOf d rs = some r) : r ∈ rs ∧ r.ymdWork = d := by
  have hmem := List.mem_of_getLast? h
  simpa using hmem

/-- `_workingcheck` loads the last record of the page's day. -/
theorem workingcheck_eq (p : Page) (rs : List FetchDatafromSQLite) :
    p.workingcheck rs = (lastOf p.ymdWork rs).elim p p.load := by
  induction rs using List.reverseRecOn with
  | nil => rfl
  | append_singleton rs r ih =>
    rw [workingcheck_snoc, lastOf_snoc, ih]
    by_cases h : r.ymdWork = p.ymdWork
    · rw [if_pos h, if_pos h]
      cases lastOf p.ymdWork rs <;> rfl
    · rw [if_neg h, if_neg h]

theorem workingcheck_ymdWork (p : Page) (rs : List FetchDatafromSQLite) :
    (p.workingcheck rs).ymdWork = p.ymdWork := by
  rw [workingcheck_eq]
  cases lastOf p.ymdWork rs <;> rfl

theorem workingcheck_idem (p : Page) (rs : List FetchDatafromSQLite) :
    (p.workingcheck rs).workingcheck rs = p.workingcheck rs := by
  rw [workingcheck_eq (p.workingcheck rs), workingcheck_ymdWork, workingcheck_eq p]
  cases lastOf p.ymdWork rs <;> rfl

/-- The outer loop of the callback, over any part `l` of the results. -/
theorem foldl_workingcheck (rs l : List FetchDatafromSQLite) (p : Page) :
    l.foldl (fun q r => if q.ymdWork = r.ymdWork then q.workingcheck rs else q) p =
      if ∃ r ∈ l, r.ymdWork = p.ymdWork then p.workingcheck rs else p := by
  induction l generalizing p with
  | nil => simp
  | cons a l ih =>
    rw [List.foldl_cons]
    by_cases h : p.ymdWork = a.ymdWork
    · rw [if_pos h, ih, workingcheck_idem, ite_self, if_pos ⟨a, List.mem_cons_self, h.symm⟩]
    · rw [if_neg h, ih]
      have ha : ¬ a.ymdWork = p.ymdWork := fun he => h he.symm
      simp [ha]

end PageLemmas

open PageLemmas in
/-- The nested loops of the read callback load the last record of the page's
day, and change nothing when there is none. -/
theorem Page.onResults_eq (p : Page) (results : List FetchDatafromSQLite) :
    p.onResults results = (lastOf p.ymdWork results).elim p p.load := by
  unfold Page.onResults
  rw [foldl_workingcheck, workingcheck_eq]
  split
  · rfl
  · next h =>
    have hnone : lastOf p.ymdWork results = none := by
      refine lastOf_eq_none.mpr fun r hr he => h ⟨r, hr, he⟩
    rw [hnone]
    rfl

/-- The two outcomes of the read callback. -/
theorem Page.onResults_cases (p : Page) (results : List FetchDatafromSQLite) :
    (∃ r ∈ results, r.ymdWork = p.ymdWork ∧ p.onResults results = p.load r) ∨
      ((∀ r ∈ results, r.ymdWork ≠ p.ymdWork) ∧ p.onResults results = p) := by
  rw [p.onResults_eq]
  cases h : lastOf p.ymdWork results with
  | none => exact .inr ⟨PageLemmas.lastOf_eq_none.mp h, rfl⟩
  | some r =>
    obtain ⟨hr, hd⟩ := PageLemmas.mem_of_lastOf h
    exact .inl ⟨r, hr, hd, rfl⟩

/-! The read callback leaves the key and the buttons of the last build. -/

@[simp] theorem Page.onResults_ymdWork (p : Page) (results : List FetchDatafromSQLite) :
    (p.onResults results).ymdWork = p.ymdWork := by
  rcases p.onResults_cases results with ⟨r, _, _, he⟩ | ⟨_, he⟩
  · rw [he, Page.load_ymdWork]
  · rw [he]

@[simp] theorem Page.onResults_built (p : Page) (results : List FetchDatafromSQLite) :
    (p.onResults results).built = p.built := by
  rcases p.onResults_cases results with ⟨r, _, _, he⟩ | ⟨_, he⟩
  · rw [he]
    rfl
  · rw [he]

open PageLemmas in
/-- For every result list and every page state: the callback loads the last row of the page's
day and leaves the other fields alone, it changes nothing when there is no such row, and a
second call with the same list changes nothing. -/
theorem loads_last_row (p : Page) (results : List FetchDatafromSQLite) :
    (∀ before data rest, results = before ++ data :: rest → data.ymdWork = p.ymdWork →
      (∀ r ∈ rest, r.ymdWork ≠ p.ymdWork) →
      p.onResults results = { p with
        id := data.id, enterbutton := data.enterbutton, outbutton := data.outbutton
        imgdirout := data.imgdirout
        nowWorkenter := data.nowWorkenter, nowWorkout := data.nowWorkout }) ∧
    ((∀ r ∈ results, r.ymdWork ≠ p.ymdWork) → p.onResults results = p) ∧
    (p.onResults results).onResults results = p.onResults results := by
  refine ⟨?_, ?_, ?_⟩
  · intro before data rest hresults hdata hrest
    rw [p.onResults_eq, hresults, lastOf_append_cons before hdata hrest]
    rfl
  · intro hno
    rw [p.onResults_eq, lastOf_eq_none.mpr hno]
    rfl
  · -- the first call leaves the key, so the second looks for the same row
    rw [(p.onResults results).onResults_eq, p.onResults_ymdWork, p.onResults_eq]
    cases lastOf p.ymdWork results with
    | none => rfl
    | some data => rfl

/-- A day that was entered twice, and a page of the day after. -/
theorem loads_last_row_twoRows :
    let row : Int → String → FetchDatafromSQLite := fun id time =>
      ⟨some id, "20191227", true, false, "assets/img/enter.gif", "assets/img/out.gif", time, ""⟩
    let page : String → Page := fun day =>
      { nowyear := "2019", nowmonth := "12", nowday := day, ymdWork := "2019" ++ "12" ++ day }
    ((page "27").onResults [row 1 "09時00分", row 2 "09時05分"]).id = some 2 ∧
      ((page "28").onResults [row 1 "09時00分", row 2 "09時05分"]).id = none := by
  intro row page
  have hloaded := (loads_last_row (page "27") [row 1 "09時00分", row 2 "09時05分"]).1
    [row 1 "09時00分"] (row 2 "09時05分") [] rfl rfl nofun
  have hkept := (loads_last_row (page "28") [row 1 "09時00分", row 2 "09時05分"]).2.1 (by
    intro r hr
    rcases List.mem_cons.mp hr with rfl | hr
    · decide
    · rw [List.mem_singleton.mp hr]
      decide)
  exact ⟨by rw [hloaded], by rw [hkept]⟩

end ShainManager
