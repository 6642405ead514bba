import ShainManager.Attendance.Page
import ShainManager.Lib.Deferred
import ShainManager.Lib.Run

/-!
# The attendance page as a machine

The page, the SQLite queue and the clock as one transition system. An event is
one atomic stretch of Dart code or one action of the environment:

* `openPage`: the page is opened again; its State object is a new one and the
  previous page is disposed;
* `build t`: the page is built at the instant `t`; unless the network notice is
  shown it starts a `getManager`;
* `press b`: a press of a button that the last build left enabled; it only
  starts the 1-second delay;
* `expire k t`: the delay of the pending press `k` ends and its body runs at `t`;
* `exec`: SQLite executes the oldest issued operation;
* `deliver k`: a `getManager` result reaches its callback;
* `connectivity`, `wifi`: a connectivity result, an answer to a `wifi` handler.

Events come in any order, so neither the length of the delay nor the order in
which two delays or two results come back is fixed. Instants are arbitrary.

`step` is the function; `Move` lists once what a step can do, and every
invariant of the development is proved by cases on it.
-/

namespace ShainManager

open Machine Deferred

/-- An issued SQLite operation. A read remembers the page that asked. -/
inductive Op
  | insert (setdata : FetchDatafromSQLite)
  | update (setdata : FetchDatafromSQLite)
  | read (page : Nat)
deriving DecidableEq, Repr

/-- The effect of an operation on the table. The future of a write is ignored by
both handlers, so its result is dropped. -/
def Op.exec (ra : Rowid) (db : Manageremps) : Op → Manageremps
  | .insert r => (insertManager ra db r).2
  | .update r => (updateManager db r).2
  | .read _ => db

/-- The result that an operation sends back to a page. -/
def Op.answer (db : Manageremps) : Op → List (Nat × List FetchDatafromSQLite)
  | .read i => [(i, getManager db)]
  | _ => []

/-- 出勤 inserts and 退勤 updates. -/
def Button.op : Button → FetchDatafromSQLite → Op
  | .enter => .insert
  | .out => .update

/-- Whether `setState` on a disposed State throws before it runs its closure
(the assertion of a debug build) or runs it first (a release build). -/
inductive Mode
  | debug
  | release
deriving DecidableEq, Repr

inductive Event
  | openPage
  | build (t : DateTime)
  | press (b : Button)
  | expire (k : Nat) (t : DateTime)
  | exec
  | deliver (k : Nat)
  | connectivity (r : Option ConnectivityResult)
  | wifi (k : Nat) (a : PlatformAnswer)
deriving DecidableEq

/-- `ops` and `results` are in the order of issue. `pages` holds every State
object opened so far; only the last one is mounted. -/
structure State where
  db : Manageremps := onCreate
  ops : List Op := []
  results : List (Nat × List FetchDatafromSQLite) := []
  pages : List Page := []
  presses : List (Nat × Button) := []
deriving DecidableEq

/-- Before the first page is opened. -/
def State.init : State := {}

def State.mounted (s : State) : Nat := s.pages.length - 1

/-- Whether the body of a press on page `i` runs. -/
def State.runs (s : State) (mode : Mode) (i : Nat) : Bool :=
  decide (i = s.mounted) || decide (mode = .release)

/-- Whether it gets as far as its SQLite call. On a disposed page `_dialogCall`
finds no Navigator and throws; 出勤 calls it after `insertManager`, 退勤 before
`updateManager`. -/
def State.issues (s : State) (mode : Mode) (i : Nat) (b : Button) : Bool :=
  decide (i = s.mounted) || (decide (mode = .release) && decide (b = .enter))

/-- Writes the fields of the page `i`. -/
def State.setPage (s : State) (i : Nat) (p : Page) : State := { s with pages := s.pages.set i p }

def step (ra : Rowid) (mode : Mode) (s : State) : Event → Option State
  | .openPage => some { s with pages := s.pages ++ [{}] }
  | .build t =>
    match s.pages[s.mounted]? with
    | none => none
    | some p =>
      some { s.setPage s.mounted (p.build t) with
        ops := if p.net.gate then s.ops ++ [.read s.mounted] else s.ops }
  | .press b =>
    match s.pages[s.mounted]? with
    | none => none
    | some p =>
      match p.built with
      | none => none
      | some w => if w.enabled b then some { s with presses := s.presses ++ [(s.mounted, b)] } else none
  | .expire k t =>
    match s.presses[k]? with
    | none => none
    | some (i, b) =>
      match s.pages[i]? with
      | none => none
      | some p =>
        some { s with
          presses := s.presses.eraseIdx k
          pages := if s.runs mode i then s.pages.set i (p.body b t) else s.pages
          ops := if s.issues mode i b then s.ops ++ [b.op (p.body b t).setdata] else s.ops }
  | .exec =>
    match s.ops with
    | [] => none
    | op :: rest =>
      some { s with db := op.exec ra s.db, ops := rest, results := s.results ++ op.answer s.db }
  | .deliver k =>
    match s.results[k]? with
    | none => none
    | some (i, rows) =>
      match s.pages[i]? with
      | none => none
      | some p => some { s.setPage i (p.onResults rows) with results := s.results.eraseIdx k }
  | .connectivity r =>
    match s.pages[s.mounted]? with
    | none => none
    | some p => some (s.setPage s.mounted { p with net := p.net.updateConnectionStatus r })
  | .wifi k a =>
    match s.pages[s.mounted]? with
    | none => none
    | some p => (p.net.resume k a).map fun n => s.setPage s.mounted { p with net := n }

/-- The states of the runs whose steps all meet `ok`. -/
def Reachable (ra : Rowid) (mode : Mode) (ok : State → Event → Prop) : State → Prop :=
  Reach (step ra mode) ok .init

/-- The table once every issued operation has been executed. -/
def State.settled (ra : Rowid) (s : State) : Manageremps := flush (Op.exec ra) s.db s.ops

/-! ## Conditions on the delayed bodies -/

/-- The page, its index and the button of the pending press `k`. -/
def State.pending (s : State) (k : Nat) : Option (Nat × Button × Page) :=
  (s.presses[k]?).bind fun x => (s.pages[x.1]?).map fun p => (x.1, x.2, p)

/-- `P` holds of the state, the page and the instant at which a body runs. -/
def AtBody (P : State → Nat → Button → Page → DateTime → Prop) (s : State) : Event → Prop
  | .expire k t => ∀ x ∈ s.pending k, P s x.1 x.2.1 x.2.2 t
  | _ => True

instance (P : State → Nat → Button → Page → DateTime → Prop)
    [∀ s i b p t, Decidable (P s i b p t)] (s : State) : ∀ e, Decidable (AtBody P s e)
  | .expire k t => inferInstanceAs (Decidable (∀ x ∈ s.pending k, P s x.1 x.2.1 x.2.2 t))
  | .openPage | .build _ | .press _ | .exec | .deliver _ | .connectivity _ | .wifi _ _ =>
    .isTrue trivial

theorem pending_eq {s : State} {k i : Nat} {b : Button} {p : Page}
    (hk : s.presses[k]? = some (i, b)) (hp : s.pages[i]? = some p) :
    s.pending k = some (i, b, p) := by
  simp [State.pending, hk, hp]

theorem AtBody.at {P : State → Nat → Button → Page → DateTime → Prop} {s : State} {k i : Nat}
    {b : Button} {p : Page} {t : DateTime} (h : AtBody P s (.expire k t))
    (hk : s.presses[k]? = some (i, b)) (hp : s.pages[i]? = some p) : P s i b p t :=
  h _ (pending_eq hk hp)

/-! ## What a step can do -/

inductive Move (ra : Rowid) (mode : Mode) : State → Event → State → Prop
  | openPage {s : State} : Move ra mode s .openPage { s with pages := s.pages ++ [{}] }
  | build {s : State} {t : DateTime} {p : Page} (hp : s.pages[s.mounted]? = some p) :
      Move ra mode s (.build t)
        { s with
          pages := s.pages.set s.mounted (p.build t)
          ops := if p.net.gate then s.ops ++ [.read s.mounted] else s.ops }
  | press {s : State} {b : Button} {p : Page} {w : Built} (hp : s.pages[s.mounted]? = some p)
      (hw : p.built = some w) (hb : w.enabled b = true) :
      Move ra mode s (.press b) { s with presses := s.presses ++ [(s.mounted, b)] }
  | expire {s : State} {k i : Nat} {t : DateTime} {b : Button} {p : Page}
      (hk : s.presses[k]? = some (i, b)) (hp : s.pages[i]? = some p) :
      Move ra mode s (.expire k t)
        { s with
          presses := s.presses.eraseIdx k
          pages := if s.runs mode i then s.pages.set i (p.body b t) else s.pages
          ops := if s.issues mode i b then s.ops ++ [b.op (p.body b t).setdata] else s.ops }
  | exec {s : State} {op : Op} {rest : List Op} (ho : s.ops = op :: rest) :
      Move ra mode s .exec
        { s with db := op.exec ra s.db, ops := rest, results := s.results ++ op.answer s.db }
  | deliver {s : State} {k i : Nat} {rows : List FetchDatafromSQLite} {p : Page}
      (hr : s.results[k]? = some (i, rows)) (hp : s.pages[i]? = some p) :
      Move ra mode s (.deliver k)
        { s with pages := s.pages.set i (p.onResults rows), results := s.results.eraseIdx k }
  | net {s : State} {e : Event} {p : Page} {n : Net} (hp : s.pages[s.mounted]? = some p) :
      Move ra mode s e { s with pages := s.pages.set s.mounted { p with net := n } }

theorem move_of_step {ra : Rowid} {mode : Mode} {s s' : State} {e : Event}
    (h : step ra mode s e = some s') : Move ra mode s e s' := by
  cases e with
  | openPage =>
    cases h
    exact .openPage
  | build t =>
    simp only [step] at h
    split at h
    · cases h
    · next p hp =>
      cases h
      exact .build hp
  | press b =>
    simp only [step] at h
    split at h
    · cases h
    · next p hp =>
      split at h
      · cases h
      · next w hw =>
        split at h
        · next hb =>
          cases h
          exact .press hp hw hb
        · cases h
  | expire k t =>
    simp only [step] at h
    split at h
    · cases h
    · next i b hk =>
      split at h
      · cases h
      · next p hp =>
        cases h
        exact .expire hk hp
  | exec =>
    simp only [step] at h
    split at h
    · cases h
    · next op rest ho =>
      cases h
      exact .exec ho
  | deliver k =>
    simp only [step] at h
    split at h
    · cases h
    · next i rows hr =>
      split at h
      · cases h
      · next p hp =>
        cases h
        exact .deliver hr hp
  | connectivity r =>
    simp only [step] at h
    split at h
    · cases h
    · next p hp =>
      cases h
      exact .net hp
  | wifi k a =>
    simp only [step] at h
    split at h
    · cases h
    · next p hp =>
      obtain ⟨n, _, rfl⟩ := Option.map_eq_some_iff.mp h
      exact .net hp

/-! ## The settled table -/

/-- Executing the whole queue leads to the settled table and touches no page. -/
theorem exec_all (ra : Rowid) (mode : Mode) (s : State) :
    ∃ s', Reach (step ra mode) anyStep s s' ∧ s'.ops = [] ∧ s'.db = s.settled ra ∧
      s'.pages = s.pages := by
  obtain ⟨db, ops, results, pages, presses⟩ := s
  induction ops generalizing db results with
  | nil => exact ⟨_, .start, rfl, rfl, rfl⟩
  | cons op rest ih =>
    obtain ⟨s', hr, ho, hd, hp⟩ := ih (op.exec ra db) (results ++ op.answer db)
    refine ⟨s', Reach.trans ?_ hr, ho, hd, hp⟩
    exact Reach.start.next (e := .exec) trivial rfl

theorem runs_of_issues {mode : Mode} {s : State} {i : Nat} {b : Button}
    (h : s.issues mode i b = true) : s.runs mode i = true := by
  simp only [State.issues, State.runs, Bool.or_eq_true, Bool.and_eq_true] at h ⊢
  exact h.imp_right And.left

/-- The operation that a body issues, and the page it leaves behind. -/
theorem expire_issued {ra : Rowid} {mode : Mode} {s s' : State} {k i : Nat} {b : Button} {p : Page}
    {t : DateTime} {op : Op} (hs : step ra mode s (.expire k t) = some s')
    (hk : s.presses[k]? = some (i, b)) (hp : s.pages[i]? = some p)
    (hop : s'.ops = s.ops ++ [op]) :
    op = b.op (p.body b t).setdata ∧ s'.pages = s.pages.set i (p.body b t) := by
  simp only [step, hk, hp, Option.some.injEq] at hs
  subst hs
  by_cases hi : s.issues mode i b = true
  · simp only [hi, if_true] at hop
    refine ⟨(List.singleton_inj.mp (List.append_cancel_left hop)).symm, ?_⟩
    exact if_pos (runs_of_issues hi)
  · simp only [hi] at hop
    have hlen := congrArg List.length hop
    simp at hlen

/-! ## Instants and a day as it is meant -/

/-- 27 December 2019, 09:00. -/
def morning : DateTime := { year := 2019, month := 12, day := 27, hour := 9, minute := 0 }

/-- The same day, 18:30. -/
def evening : DateTime := { year := 2019, month := 12, day := 27, hour := 18, minute := 30 }

/-- The minute after `evening`. -/
def nextMinute : DateTime := { year := 2019, month := 12, day := 27, hour := 18, minute := 31 }

/-- One minute after midnight of the next day. -/
def pastMidnight : DateTime := { year := 2019, month := 12, day := 28, hour := 0, minute := 1 }

/-- The next day, 09:00. -/
def nextMorning : DateTime := { year := 2019, month := 12, day := 28, hour := 9, minute := 0 }

/-- A day as it is meant: the page is opened and loaded, 出勤 is pressed and
recorded, the page reloads, and 退勤 is pressed and recorded. -/
def regularDay : List Event :=
  [.openPage, .build morning, .exec, .deliver 0,
   .press .enter, .expire 0 morning, .build morning, .exec, .exec, .deliver 0,
   .press .out, .expire 0 evening, .build evening, .exec, .exec, .deliver 0]

end ShainManager
