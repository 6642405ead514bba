import ShainManager.Attendance.Machine

/-!
# The network gate

`_goingtoWork` shows the buttons unless `idwifi` is `'ConnectivityResult.none'` at the time
of the build. The README wants the contents shown after it is known that the phone is on
the Wi-Fi. `Watched` is the machine with the connectivity result delivered last.

* `writes_only_on_wifi`: the runs in which every attendance write is issued on Wi-Fi.
* `write_before_check`: a run in which one is not.
-/

namespace ShainManager

open Machine

/-- The machine and the last result that was delivered to any page, which opening another page
does not undo: `none` before the first, `some none` after a failed check. -/
structure Watched where
  state : State := .init
  last : Option (Option ConnectivityResult) := none
deriving DecidableEq

def watch (ra : Rowid) (mode : Mode) (w : Watched) (e : Event) : Option Watched :=
  (step ra mode w.state e).map fun s =>
    { state := s
      last := match e with
        | .connectivity r => some r
        | _ => w.last }

/-- The step issues an `insertManager` or an `updateManager`. -/
def IssuesWrite (s s' : State) : Prop :=
  ∃ b : Button, ∃ setdata, s'.ops = s.ops ++ [b.op setdata]

/-- The last result is `wifi`. -/
def Watched.OnWifi (w : Watched) : Prop := w.last = some (some .wifi)

instance (w : Watched) : Decidable w.OnWifi := inferInstanceAs (Decidable (_ = _))

/-- A button is pressed on Wi-Fi, and a result other than `wifi` comes while no press is
pending. -/
def pressedOnWifi (w : Watched) : Event → Prop
  | .press _ => w.OnWifi
  | .connectivity r => r = some .wifi ∨ w.state.presses = []
  | _ => True

instance (w : Watched) : ∀ e, Decidable (pressedOnWifi w e)
  | .press _ => inferInstanceAs (Decidable w.OnWifi)
  | .connectivity _ => inferInstanceAs (Decidable (_ ∨ _))
  | .openPage | .build _ | .expire _ _ | .exec | .deliver _ | .wifi _ _ => .isTrue trivial

namespace GateLemmas

variable {ra : Rowid} {mode : Mode}

/-- Only the body of a press issues a write. -/
theorem expire_of_issuesWrite {s s' : State} {e : Event} (h : Move ra mode s e s')
    (hw : IssuesWrite s s') : ∃ k t, e = .expire k t ∧ s.presses ≠ [] := by
  obtain ⟨b, setdata, hops⟩ := hw
  have hlen := congrArg List.length hops
  rw [List.length_append, List.length_singleton] at hlen
  cases h with
  | openPage => exact absurd hlen (by simp)
  | @build t p hp =>
    dsimp only at hops hlen
    split at hops
    · -- the build issues a read
      have hop := List.singleton_inj.mp (List.append_cancel_left hops)
      cases b with
      | enter => cases hop
      | out => cases hop
    · exact absurd (congrArg List.length hops) (by simp)
  | @press b p w hp hw _ => exact absurd hlen (by simp)
  | @expire k i t b p hk hp =>
    refine ⟨k, t, rfl, ?_⟩
    rintro hnil
    rw [hnil] at hk
    cases hk
  | @exec op rest ho =>
    rw [ho] at hlen
    exact absurd hlen (by simp; omega)
  | @deliver k i rows p hr hp => exact absurd hlen (by simp)
  | @net _ p n hp => exact absurd hlen (by simp)

/-- Only a press adds a pending press. -/
theorem presses_of_move {s s' : State} {e : Event} (h : Move ra mode s e s') :
    (∃ b, e = .press b) ∨ (s.presses = [] → s'.presses = []) := by
  cases h with
  | openPage => exact .inr id
  | @build t p hp => exact .inr id
  | @press b p w hp hw _ => exact .inl ⟨b, rfl⟩
  | @expire k i t b p hk hp =>
    refine .inr fun hnil => ?_
    rw [hnil] at hk
    cases hk
  | @exec op rest ho => exact .inr id
  | @deliver k i rows p hr hp => exact .inr id
  | @net _ p n hp => exact .inr id

/-- While a press is pending the last result is `wifi`. -/
def PendingOnWifi (w : Watched) : Prop := w.state.presses ≠ [] → w.OnWifi

theorem pendingOnWifi_step {w w' : Watched} {e : Event} (hinv : PendingOnWifi w)
    (hok : pressedOnWifi w e) (hs : watch ra mode w e = some w') : PendingOnWifi w' := by
  obtain ⟨s', hs', rfl⟩ := Option.map_eq_some_iff.mp hs
  intro hpending
  dsimp only at hpending
  rcases presses_of_move (move_of_step hs') with ⟨b, rfl⟩ | hkept
  · exact hok
  · have hwifi := hinv (mt hkept hpending)
    cases e with
    | connectivity r =>
      rcases hok with rfl | hnil
      · rfl
      · exact absurd (hkept hnil) hpending
    | openPage => exact hwifi
    | build t => exact hwifi
    | press b => exact hwifi
    | expire k t => exact hwifi
    | exec => exact hwifi
    | deliver k => exact hwifi
    | wifi k a => exact hwifi

end GateLemmas

open GateLemmas

/-- In every run in which the buttons are pressed on Wi-Fi and a result other than `wifi`
comes while no press is pending, a step that issues an attendance write is made when a
result has been delivered and the last one is `wifi`. -/
theorem writes_only_on_wifi {ra : Rowid} {mode : Mode} {w w' : Watched} {e : Event}
    (h : Reach (watch ra mode) pressedOnWifi {} w) (hs : watch ra mode w e = some w')
    (hw : IssuesWrite w.state w'.state) : w.OnWifi := by
  have hinv : PendingOnWifi w := by
    refine h.invariant ?_ fun _ hi hok hs => pendingOnWifi_step hi hok hs
    intro hne
    exact absurd rfl hne
  obtain ⟨s', hs', rfl⟩ := Option.map_eq_some_iff.mp hs
  obtain ⟨k, t, rfl, hne⟩ := expire_of_issuesWrite (move_of_step hs') hw
  exact hinv hne

/-- 出勤 is pressed after the Wi-Fi has been found. -/
def clockInOnWifi : List Event :=
  [.openPage, .build morning, .connectivity (some .wifi), .wifi 0 (.value "office"),
   .wifi 0 (.value "b1"), .wifi 0 (.value "192.168.8.82"), .build morning, .press .enter]

/-- 出勤 is pressed before any result. -/
def clockInAtOnce : List Event := [.openPage, .build morning, .press .enter]

/-- What 出勤 inserts in the morning on a page that has read no row. -/
def morningRow : FetchDatafromSQLite :=
  ⟨none, "20191227", true, false, "assets/img/enter.gif", "assets/img/out.gif", "09時00分", ""⟩

/-- A run to a state with the last result `r`, in which the pending press inserts. -/
theorem exists_clock_in (ok : Watched → Event → Prop) [∀ w e, Decidable (ok w e)] (es : List Event)
    (r : Option (Option ConnectivityResult))
    (h : (run (watch .succMax .debug) ok {} es).map (fun w => decide (w.last = r ∧
      (watch .succMax .debug w (.expire 0 morning)).map (·.state.ops) =
        some (w.state.ops ++ [.insert morningRow]))) = some true) :
    ∃ w w', Reach (watch .succMax .debug) ok {} w ∧ w.last = r ∧
      watch .succMax .debug w (.expire 0 morning) = some w' ∧ IssuesWrite w.state w'.state := by
  obtain ⟨w, hr, hlast, hops⟩ := exists_reach_of_run _ _ _ _ h
  obtain ⟨w', hw', hops'⟩ := Option.map_eq_some_iff.mp hops
  exact ⟨w, w', hr, hlast, hw', .enter, morningRow, hops'⟩

theorem writes_only_on_wifi_morning :
    ∃ w w', Reach (watch .succMax .debug) pressedOnWifi {} w ∧
      watch .succMax .debug w (.expire 0 morning) = some w' ∧ IssuesWrite w.state w'.state ∧
      w.OnWifi := by
  obtain ⟨w, w', hr, -, hs, hw⟩ :=
    exists_clock_in pressedOnWifi clockInOnWifi (some (some .wifi)) (by decide)
  exact ⟨w, w', hr, hs, hw, writes_only_on_wifi hr hs hw⟩

/-- The buttons are there before the first check, and the write is issued with no result. -/
theorem write_before_check :
    ∃ w w', Reach (watch .succMax .debug) anyStep {} w ∧
      watch .succMax .debug w (.expire 0 morning) = some w' ∧ IssuesWrite w.state w'.state ∧
      w.last = none ∧ ¬ w.OnWifi := by
  obtain ⟨w, w', hr, hlast, hs, hw⟩ := exists_clock_in anyStep clockInAtOnce none (by decide)
  refine ⟨w, w', hr, hs, hw, hlast, ?_⟩
  intro hwifi
  exact absurd (hlast.symm.trans hwifi) nofun

end ShainManager
