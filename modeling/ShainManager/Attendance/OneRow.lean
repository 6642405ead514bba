import ShainManager.Attendance.Invariants

/-!
# One row per day

`manageremps` has no uniqueness constraint on `ymdWork`. The page relies on the
disabled button and on the id it has loaded, and both come too late: the flag
changes one second after the press, and the id comes back through a read that
the press does not wait for.

* `two_presses_two_rows`: two presses within the delay store two rows.
* `one_row_per_day`: in a run whose bodies all find no foreign row of their day
  (`OwnRow`), no day ever has two rows.
-/

namespace ShainManager

open Machine Deferred

variable {ra : Rowid} {mode : Mode} {s : State}

/-- No two rows have the same `ymdWork`. -/
def OneRowPerDay (t : Manageremps) : Prop :=
  ∀ r ∈ getManager t, ∀ r' ∈ getManager t, r.ymdWork = r'.ymdWork → r = r'

instance (t : Manageremps) : Decidable (OneRowPerDay t) :=
  inferInstanceAs (Decidable (∀ r ∈ getManager t, ∀ r' ∈ getManager t, _))

/-- A body whose write reaches a row runs while every row of the page's day,
stored or queued, is the row whose id the page holds. For 出勤, which writes with
a null id, this says that the day has no row. -/
def OwnRow (ra : Rowid) (mode : Mode) (s : State) (i : Nat) (b : Button) (p : Page)
    (_ : DateTime) : Prop :=
  s.issues mode i b = true → b.Writes p.id →
    ∀ r ∈ getManager (s.settled ra), r.ymdWork = p.ymdWork → r.id = p.id

instance (ra : Rowid) (mode : Mode) (s : State) (i : Nat) (b : Button) (p : Page) (t : DateTime) :
    Decidable (OwnRow ra mode s i b p t) :=
  inferInstanceAs (Decidable (_ → _ → ∀ r ∈ getManager (s.settled ra), _))

/-! ## The write keeps the days apart -/

theorem oneRow_insert {t : Manageremps} {r : FetchDatafromSQLite} (hid : r.id = none)
    (hno : ∀ x ∈ getManager t, x.ymdWork ≠ r.ymdWork) (h : OneRowPerDay t) :
    OneRowPerDay (insertManager ra t r).2 := by
  intro x hx y hy hday
  rcases (mem_insertManager hid).mp hx with rfl | hx
  · rcases (mem_insertManager hid).mp hy with rfl | hy
    · rfl
    · exact absurd hday.symm (hno y hy)
  · rcases (mem_insertManager hid).mp hy with rfl | hy
    · exact absurd hday (hno x hx)
    · exact h x hx y hy hday

theorem oneRow_update {t : Manageremps} {r : FetchDatafromSQLite} {k : Int} (hid : r.id = some k)
    (hown : ∀ x ∈ getManager t, x.ymdWork = r.ymdWork → x.id = some k) (h : OneRowPerDay t) :
    OneRowPerDay (updateManager t r).2 := by
  intro x hx y hy hday
  obtain ⟨a, ha, rfl⟩ := (mem_updateManager hid).mp hx
  obtain ⟨c, hc, rfl⟩ := (mem_updateManager hid).mp hy
  by_cases hak : a.id = some k
  · by_cases hck : c.id = some k
    · rw [if_pos hak, if_pos hck]
    · rw [if_pos hak, if_neg hck] at hday
      exact absurd (hown c hc hday.symm) hck
  · by_cases hck : c.id = some k
    · rw [if_neg hak, if_pos hck] at hday
      exact absurd (hown a ha hday) hak
    · rw [if_neg hak, if_neg hck] at hday ⊢
      exact h a ha c hc hday

/-- The operation of a body that finds no foreign row of its day. -/
theorem oneRow_write {t : Manageremps} {b : Button} {r : FetchDatafromSQLite} (hk : Known t r.id)
    (hown : b.Writes r.id → ∀ x ∈ getManager t, x.ymdWork = r.ymdWork → x.id = r.id)
    (h : OneRowPerDay t) : OneRowPerDay ((b.op r).exec ra t) := by
  by_cases hw : b.Writes r.id
  · cases b with
    | enter =>
      refine oneRow_insert hw (fun x hx hday => ?_) h
      obtain ⟨k, _, hid⟩ := id_of_mem hx
      have hnone := hown hw x hx hday
      rw [hid, show r.id = none from hw] at hnone
      cases hnone
    | out =>
      obtain ⟨k, hid⟩ := Option.ne_none_iff_exists'.mp hw
      exact oneRow_update hid (fun x hx hday => (hown hw x hx hday).trans hid) h
  · rw [exec_of_not_writes hk hw]
    exact h

/-- When every body that reaches a row finds no foreign row of its day, no day has
two rows, in the table and in the table that the issued operations will leave. The
bodies may count on the latter. -/
theorem oneRow_reachable {ok : State → Event → Prop}
    (hown : ∀ {s k i b p t}, ok s (.expire k t) → s.presses[k]? = some (i, b) →
      s.pages[i]? = some p → s.issues mode i b = true → OneRowPerDay (s.settled ra) →
      b.Writes p.id → ∀ r ∈ getManager (s.settled ra), r.ymdWork = p.ymdWork → r.id = p.id)
    (h : Reachable ra mode ok s) : OneRowPerDay s.db ∧ OneRowPerDay (s.settled ra) := by
  refine table_reachable (fun _ hr => absurd hr List.not_mem_nil) ?_ h
  intro s k i b p t hr ho hk hp hi hone
  refine oneRow_write (known_setdata hr hp b t) ?_ hone
  simp only [Page.setdata_id, Page.body_id, Page.setdata_ymdWork, Page.body_ymdWork]
  exact hown ho hk hp hi hone

theorem oneRow_of_ownRow {ok : State → Event → Prop}
    (hok : ∀ s e, ok s e → AtBody (OwnRow ra mode) s e) (h : Reachable ra mode ok s) :
    OneRowPerDay s.db ∧ OneRowPerDay (s.settled ra) :=
  oneRow_reachable (fun ho hk hp hi _ => (hok _ _ ho).at hk hp hi) h

/-! ## Results -/

/-- In every run whose bodies meet `OwnRow`, no reachable table has two rows of
one day. -/
theorem one_row_per_day (h : Reachable ra mode (AtBody (OwnRow ra mode)) s) : OneRowPerDay s.db :=
  (oneRow_of_ownRow (fun _ _ ho => ho) h).1

theorem one_row_per_day_regular :
    ∃ s, Reachable .succMax .debug (AtBody (OwnRow .succMax .debug)) s ∧
      (getManager s.db).length = 1 ∧ OneRowPerDay s.db := by
  obtain ⟨s, hs, hp⟩ := exists_reach_of_run (step .succMax .debug)
    (AtBody (OwnRow .succMax .debug)) .init regularDay
    (p := fun s => (getManager s.db).length = 1) (by decide)
  exact ⟨s, hs, hp, one_row_per_day hs⟩

/-- Two presses of 出勤 before the first delay ends: both bodies insert with a
null id. -/
def doublePress : List Event :=
  [.openPage, .build morning, .exec, .deliver 0,
   .press .enter, .press .enter, .expire 0 morning, .expire 0 morning, .exec, .exec]

theorem two_presses_two_rows :
    ¬ ∀ s, Reachable .succMax .debug anyStep s → OneRowPerDay s.db := by
  intro h
  obtain ⟨s, hs, hp⟩ := exists_reach_of_run (step .succMax .debug) anyStep .init doublePress
    (p := fun s => ¬ OneRowPerDay s.db) (by decide)
  exact hp (h s hs)

end ShainManager
