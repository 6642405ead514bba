import Mathlib.Data.List.Basic
import ShainManager.Lib.Run

/-!
# The dialogs of the attendance page

`_dialogCall` (`lib/ui/manageEmp.dart`) shows a picture and starts a 3-second timer whose
callback calls `Navigator.of(context).pop`. The context is that of the dialog, but `pop` removes
the topmost route, whichever it is. When the dialog has left the tree, the lookup of its
Navigator throws and nothing is removed; while it is still leaving, the lookup succeeds. The
timer is started by the builder of the dialog, so a dialog that is built again has one more.

`Screen` is the stack of routes with the pending timers.

* `timers_close_only_dialogs`: when no other route is pushed over such a dialog and no timer ends
  while its own dialog is leaving, the timers remove nothing but such dialogs.
* `late_timer_pops_page`: otherwise a timer can remove the attendance page itself.
* `half_of_dialogs_stay`: of `n` dialogs that are open at once, the timers leave at most half
  open, and exactly half when each dialog has left before the next timer ends.
-/

namespace ShainManager

open Machine

/-- The pages that are pushed as routes. -/
inductive PageName
  | LoginPage
  | HomePage
  | manageEmp
  | listtaikin
  | choicechat
  | Chat
  | receiptphoto
deriving DecidableEq, Repr

/-- A route. `ticket` is a dialog without a timer, of `_showdialogTask` or
`_showVerifyEmailSentDialog`; `dialog id` is one of `_dialogCall`. -/
inductive Route
  | page (name : PageName)
  | ticket
  | dialog (id : Nat)
deriving DecidableEq, Repr

/-- The routes from the top, the dialogs of `_dialogCall` that are leaving, and the dialogs of
the pending timers, in the order in which these were started. -/
structure Screen where
  stack : List Route := [.page .LoginPage]
  leaving : List Nat := []
  timers : List Nat := []
  next : Nat := 0
deriving DecidableEq, Repr

/-- * `push r`: a page or a ticket is pushed, by the user or after an await;
* `dialogCall`: the body of a press shows its dialog;
* `rebuild id`: the builder of a dialog runs again;
* `back`: the user closes the topmost route;
* `close`: the button of the chat page goes back to the first route;
* `settle`: the dialogs that were leaving have left;
* `fire k`: the timer `k` ends. -/
inductive ScreenEvent
  | push (r : Route)
  | dialogCall
  | rebuild (id : Nat)
  | back
  | close
  | settle
  | fire (k : Nat)
deriving DecidableEq, Repr

def Route.isDialog : Route → Bool
  | .dialog _ => true
  | _ => false

/-- The dialog is in the tree, on the stack or leaving. -/
def Screen.Mounted (s : Screen) (id : Nat) : Prop := .dialog id ∈ s.stack ∨ id ∈ s.leaving

instance (s : Screen) (id : Nat) : Decidable (s.Mounted id) := inferInstanceAs (Decidable (_ ∨ _))

/-- `pop` of the Navigator. The last route stays. -/
def Screen.pop (s : Screen) : Screen :=
  match s.stack with
  | .dialog id :: below :: rest => { s with stack := below :: rest, leaving := id :: s.leaving }
  | _ :: below :: rest => { s with stack := below :: rest }
  | _ => s

def screenStep (s : Screen) : ScreenEvent → Option Screen
  | .push r => if r.isDialog then none else some { s with stack := r :: s.stack }
  | .dialogCall =>
    if .page .manageEmp ∈ s.stack then
      some { s with
        stack := .dialog s.next :: s.stack
        timers := s.timers ++ [s.next]
        next := s.next + 1 }
    else none
  | .rebuild id => if s.Mounted id then some { s with timers := s.timers ++ [id] } else none
  | .back => some s.pop
  | .close =>
    match s.stack with
    | .page .Chat :: _ => some { s with stack := s.stack.getLast?.toList }
    | _ => none
  | .settle => some { s with leaving := [] }
  | .fire k =>
    (s.timers[k]?).map fun id =>
      let s := { s with timers := s.timers.eraseIdx k }
      if s.Mounted id then s.pop else s

/-! ## What the timers remove -/

/-- No page and no ticket is pushed over a dialog of `_dialogCall`, and no timer ends while its
dialog is leaving. -/
def Unhurried (s : Screen) : ScreenEvent → Prop
  | .push _ => ∀ r ∈ s.stack.head?, r.isDialog = false
  | .fire k => ∀ id ∈ s.timers[k]?, id ∉ s.leaving
  | _ => True

instance (s : Screen) : ∀ e, Decidable (Unhurried s e)
  | .push _ => inferInstanceAs (Decidable (∀ r ∈ s.stack.head?, _))
  | .fire k => inferInstanceAs (Decidable (∀ id ∈ s.timers[k]?, _))
  | .dialogCall | .rebuild _ | .back | .close | .settle => .isTrue trivial

/-- The dialogs of `_dialogCall` are the topmost routes. -/
def DialogsOnTop : List Route → Prop
  | [] => True
  | r :: rest => (r.isDialog = false → ∀ r' ∈ rest, r'.isDialog = false) ∧ DialogsOnTop rest

namespace DialogsLemmas

variable {s s' : Screen}

theorem dialogsOnTop_of_none {l : List Route} (h : ∀ r ∈ l, r.isDialog = false) : DialogsOnTop l := by
  induction l with
  | nil => trivial
  | cons r rest ih =>
    exact ⟨fun _ r' hr' => h r' (List.mem_cons_of_mem _ hr'),
      ih fun r' hr' => h r' (List.mem_cons_of_mem _ hr')⟩

/-- When there is such a dialog, one is on top. -/
theorem head_isDialog {l : List Route} {id : Nat} (h : DialogsOnTop l) (hmem : .dialog id ∈ l) :
    ∃ top rest, l = .dialog top :: rest := by
  cases l with
  | nil => exact absurd hmem List.not_mem_nil
  | cons r rest =>
    cases r with
    | dialog top => exact ⟨top, rest, rfl⟩
    | page name =>
      rcases List.mem_cons.mp hmem with he | hmem
      · cases he
      · exact absurd (h.1 rfl _ hmem) nofun
    | ticket =>
      rcases List.mem_cons.mp hmem with he | hmem
      · cases he
      · exact absurd (h.1 rfl _ hmem) nofun

/-- What `pop` leaves. -/
theorem pop_stack (s : Screen) : s.pop.stack = s.stack ∨ ∃ r, s.stack = r :: s.pop.stack := by
  unfold Screen.pop
  split
  · next id below rest h => exact .inr ⟨.dialog id, h⟩
  · next r below rest _ h => exact .inr ⟨r, h⟩
  · exact .inl rfl

theorem dialogsOnTop_pop (h : DialogsOnTop s.stack) : DialogsOnTop s.pop.stack := by
  rcases pop_stack s with he | ⟨r, he⟩
  · rw [he]
    exact h
  · rw [he] at h
    exact h.2

theorem dialogsOnTop_step {e : ScreenEvent} (h : DialogsOnTop s.stack) (ho : Unhurried s e)
    (hs : screenStep s e = some s') : DialogsOnTop s'.stack := by
  cases e with
  | push r =>
    simp only [screenStep] at hs
    split at hs
    · cases hs
    · cases hs
      refine ⟨fun _ r' hr' => ?_, h⟩
      -- a dialog further down would put one on top
      cases r' with
      | dialog id =>
        obtain ⟨top, rest, he⟩ := head_isDialog h hr'
        exact absurd (ho (.dialog top) (by rw [he]; rfl)) nofun
      | page name => rfl
      | ticket => rfl
  | dialogCall =>
    simp only [screenStep] at hs
    split at hs
    · cases hs
      exact ⟨nofun, h⟩
    · cases hs
  | rebuild id =>
    simp only [screenStep] at hs
    split at hs
    · cases hs
      exact h
    · cases hs
  | back =>
    cases hs
    exact dialogsOnTop_pop h
  | close =>
    simp only [screenStep] at hs
    split at hs
    · next below hstack =>
      cases hs
      refine dialogsOnTop_of_none fun r hr => ?_
      have hmem := List.mem_of_getLast? (Option.mem_toList.mp hr)
      rw [hstack] at h hmem
      rcases List.mem_cons.mp hmem with rfl | hmem
      · rfl
      · exact h.1 rfl r hmem
    · cases hs
  | settle =>
    cases hs
    exact h
  | fire k =>
    obtain ⟨id, -, rfl⟩ := Option.map_eq_some_iff.mp hs
    dsimp only
    split
    · exact dialogsOnTop_pop (s := { s with timers := s.timers.eraseIdx k }) h
    · exact h

end DialogsLemmas

open DialogsLemmas

/-- In every run whose steps meet `Unhurried`, the end of a timer leaves the stack as it is or
removes a dialog of `_dialogCall` from its top. -/
theorem timers_close_only_dialogs {s s' : Screen} {k : Nat} (h : Reach screenStep Unhurried {} s)
    (ho : Unhurried s (.fire k)) (hs : screenStep s (.fire k) = some s') :
    s'.stack = s.stack ∨ ∃ id, s.stack = .dialog id :: s'.stack := by
  have htop : DialogsOnTop s.stack := by
    refine h.invariant (I := fun s => DialogsOnTop s.stack) ?_
      fun _ hi ho hs => dialogsOnTop_step hi ho hs
    exact dialogsOnTop_of_none (by decide)
  obtain ⟨id, hk, rfl⟩ := Option.map_eq_some_iff.mp hs
  dsimp only
  split
  · next hm =>
    -- the dialog is not leaving, so it is on the stack
    have hmem : .dialog id ∈ s.stack := hm.resolve_right (ho id hk)
    obtain ⟨top, rest, hstack⟩ := head_isDialog htop hmem
    rcases pop_stack { s with timers := s.timers.eraseIdx k } with he | ⟨r, he⟩
    · exact .inl he
    · obtain rfl : r = .dialog top := (List.cons.inj (he.symm.trans hstack)).1
      exact .inr ⟨top, he⟩
  · exact .inl rfl

/-- 出勤 is recorded, and the dialog closes by its timer. -/
def oneDialog : List ScreenEvent :=
  [.push (.page .HomePage), .push (.page .manageEmp), .dialogCall]

theorem timers_close_only_dialogs_oneDialog :
    ∃ s s', Reach screenStep Unhurried {} s ∧ Unhurried s (.fire 0) ∧
      screenStep s (.fire 0) = some s' ∧ s.stack.length = 4 ∧ s'.stack.length = 3 ∧
      (s'.stack = s.stack ∨ ∃ id, s.stack = .dialog id :: s'.stack) := by
  obtain ⟨s, hs, hok, hlen, hfire⟩ := exists_reach_of_run screenStep Unhurried {} oneDialog
    (p := fun s => Unhurried s (.fire 0) ∧ s.stack.length = 4 ∧
      (screenStep s (.fire 0)).map (·.stack.length) = some 3) (by decide)
  obtain ⟨s', hs', hlen'⟩ := Option.map_eq_some_iff.mp hfire
  exact ⟨s, s', hs, hok, hs', hlen, hlen', timers_close_only_dialogs hs hok hs'⟩

/-- The user closes the dialog, and its timer ends while it is leaving: the attendance page is
removed. -/
theorem late_timer_pops_page :
    (run screenStep anyStep {} (oneDialog ++ [.back, .fire 0])).map (·.stack) =
      some [.page .HomePage, .page .LoginPage] := by
  decide

/-! ## Dialogs that are open at once -/

/-- The dialogs `0` to `m - 1`, the newest on top. -/
def dialogs (m : Nat) : List Route := (List.range m).reverse.map .dialog

namespace DialogsLemmas

theorem dialogs_succ (m : Nat) : dialogs (m + 1) = .dialog m :: dialogs m := by
  unfold dialogs
  rw [List.range_succ, List.reverse_append]
  rfl

theorem mem_dialogs {m id : Nat} : .dialog id ∈ dialogs m ↔ id < m := by
  simp [dialogs]

theorem drop_range {n k : Nat} (h : k < n) : (List.range n).drop k = k :: (List.range n).drop (k + 1) := by
  rw [List.drop_eq_getElem_cons (by rwa [List.length_range]), List.getElem_range]

/-- The screen while the timers of `n` dialogs over `base` end: `fired` of them have ended and
`popped` dialogs have been removed. -/
structure Draining (base : List Route) (n fired popped : Nat) (s : Screen) : Prop where
  stack : s.stack = dialogs (n - popped) ++ base
  timers : s.timers = (List.range n).drop fired
  fired_le : fired ≤ n
  popped_le : popped ≤ fired

variable {base : List Route} {n fired popped : Nat} {s s' : Screen}

theorem run_dialogCall (hb : .page .manageEmp ∈ base) (n : Nat) :
    run screenStep anyStep { stack := base } (List.replicate n .dialogCall) =
      some { stack := dialogs n ++ base, timers := List.range n, next := n } := by
  induction n with
  | zero => rfl
  | succ n ih =>
    have hmem : Route.page .manageEmp ∈ dialogs n ++ base := List.mem_append_right _ hb
    rw [List.replicate_succ', run_append, ih, Option.bind_some]
    simp only [run, anyStep, if_true, screenStep, if_pos hmem, Option.bind_some, dialogs_succ,
      List.cons_append, List.range_succ]

/-- A timer whose dialog is in the tree removes one more dialog. -/
theorem draining_pop (hne : base ≠ []) (h : Draining base n fired popped s) (hlt : fired < n)
    (hm : s.Mounted fired) : ∃ s', screenStep s (.fire 0) = some s' ∧
      Draining base n (fired + 1) (popped + 1) s' := by
  have htimers : s.timers = fired :: (List.range n).drop (fired + 1) := by
    rw [h.timers, drop_range hlt]
  obtain ⟨m, hpop⟩ : ∃ m, n - popped = m + 1 := ⟨n - popped - 1, by have := h.popped_le; omega⟩
  obtain ⟨below, rest, hbelow⟩ : ∃ below rest, dialogs m ++ base = below :: rest :=
    List.exists_cons_of_ne_nil (List.append_ne_nil_of_right_ne_nil _ hne)
  have hstack : s.stack = .dialog m :: below :: rest := by
    rw [h.stack, hpop, dialogs_succ, List.cons_append, hbelow]
  have hm' : ({ s with timers := s.timers.eraseIdx 0 } : Screen).Mounted fired := hm
  refine ⟨{ s with timers := s.timers.eraseIdx 0, stack := below :: rest, leaving := m :: s.leaving },
    ?_, ?_, ?_, hlt, ?_⟩
  · simp only [screenStep, htimers, List.getElem?_cons_zero, Option.map_some]
    rw [htimers] at hm'
    rw [if_pos hm']
    unfold Screen.pop
    simp only [hstack]
  · show below :: rest = dialogs (n - (popped + 1)) ++ base
    rw [← hbelow, show n - (popped + 1) = m by omega]
  · show s.timers.eraseIdx 0 = _
    rw [htimers]
    rfl
  · exact Nat.succ_le_succ h.popped_le

/-- Any other timer removes nothing. -/
theorem draining_miss (h : Draining base n fired popped s) (hlt : fired < n)
    (hm : ¬ s.Mounted fired) : ∃ s', screenStep s (.fire 0) = some s' ∧
      Draining base n (fired + 1) popped s' ∧ s'.leaving = s.leaving := by
  have htimers : s.timers = fired :: (List.range n).drop (fired + 1) := by
    rw [h.timers, drop_range hlt]
  have hm' : ¬ ({ s with timers := s.timers.eraseIdx 0 } : Screen).Mounted fired := hm
  refine ⟨{ s with timers := s.timers.eraseIdx 0 }, ?_, ⟨h.stack, ?_, hlt, ?_⟩, rfl⟩
  · simp only [screenStep, htimers, List.getElem?_cons_zero, Option.map_some]
    rw [htimers] at hm'
    rw [if_neg hm']
  · show s.timers.eraseIdx 0 = _
    rw [htimers]
    rfl
  · exact Nat.le_succ_of_le h.popped_le

/-- A dialog that has not been removed is in the tree. -/
theorem mounted_of_lt (h : Draining base n fired popped s) (hlt : fired < n - popped) :
    s.Mounted fired := by
  refine .inl ?_
  rw [h.stack]
  exact List.mem_append_left _ (mem_dialogs.mpr hlt)

/-- As long as fewer than half of the dialogs have been removed, every timer has removed one. -/
theorem draining_run (hne : base ≠ []) {es : List ScreenEvent}
    (hes : ∀ e ∈ es, e = .fire 0 ∨ e = .settle) (h : Draining base n fired popped s)
    (hhalf : popped = fired ∨ n ≤ 2 * popped) (hrun : run screenStep anyStep s es = some s') :
    ∃ fired' popped', Draining base n fired' popped' s' ∧
      (popped' = fired' ∨ n ≤ 2 * popped') := by
  induction es generalizing s fired popped with
  | nil =>
    cases hrun
    exact ⟨fired, popped, h, hhalf⟩
  | cons e es ih =>
    obtain ⟨-, s₁, hs, hrest⟩ := run_cons_eq_some.mp hrun
    have hes' : ∀ e ∈ es, e = .fire 0 ∨ e = .settle := fun e he => hes e (.tail _ he)
    rcases hes e List.mem_cons_self with rfl | rfl
    · rcases Nat.lt_or_ge fired n with hlt | hge
      · by_cases hm : s.Mounted fired
        · obtain ⟨s₂, hs₂, h₂⟩ := draining_pop hne h hlt hm
          cases hs.symm.trans hs₂
          exact ih hes' h₂ (by omega) hrest
        · obtain ⟨s₂, hs₂, h₂, -⟩ := draining_miss h hlt hm
          cases hs.symm.trans hs₂
          have hout : ¬ fired < n - popped := mt (mounted_of_lt h) hm
          exact ih hes' h₂ (by omega) hrest
      · -- no timer is left
        have hnil : s.timers = [] := by
          rw [h.timers, List.drop_eq_nil_of_le (by rwa [List.length_range])]
        simp [screenStep, hnil] at hs
    · cases hs
      exact ih (s := { s with leaving := [] }) hes'
        ⟨h.stack, h.timers, h.fired_le, h.popped_le⟩ hhalf hrest

/-- One timer ends, and the dialog it removed leaves. -/
theorem draining_round (hne : base ≠ []) (hbase : ∀ r ∈ base, r.isDialog = false)
    (h : Draining base n fired (min fired ((n + 1) / 2)) s) (hleft : s.leaving = [])
    (hlt : fired < n) :
    ∃ s', run screenStep anyStep s [.fire 0, .settle] = some s' ∧ s'.leaving = [] ∧
      Draining base n (fired + 1) (min (fired + 1) ((n + 1) / 2)) s' := by
  -- what is left of one round once the timer has ended
  have hsettle : ∀ {s₁ : Screen} {popped : Nat}, screenStep s (.fire 0) = some s₁ →
      Draining base n (fired + 1) popped s₁ →
      run screenStep anyStep s [.fire 0, .settle] = some { s₁ with leaving := [] } ∧
        Draining base n (fired + 1) popped { s₁ with leaving := [] } := by
    intro s₁ popped hs₁ h₁
    refine ⟨?_, ⟨h₁.stack, h₁.timers, h₁.fired_le, h₁.popped_le⟩⟩
    exact run_cons_eq_some.mpr ⟨trivial, s₁, hs₁, rfl⟩
  rcases Nat.lt_or_ge fired ((n + 1) / 2) with hfirst | hsecond
  · obtain ⟨s₁, hs₁, h₁⟩ := draining_pop hne h hlt (mounted_of_lt h (by omega))
    obtain ⟨hrun, h₂⟩ := hsettle hs₁ h₁
    refine ⟨_, hrun, rfl, ?_⟩
    rw [show min (fired + 1) ((n + 1) / 2) = min fired ((n + 1) / 2) + 1 by omega]
    exact h₂
  · have hm : ¬ s.Mounted fired := by
      rintro (hmem | hmem)
      · rw [h.stack] at hmem
        rcases List.mem_append.mp hmem with hmem | hmem
        · have := mem_dialogs.mp hmem
          omega
        · exact absurd (hbase _ hmem) nofun
      · rw [hleft] at hmem
        exact absurd hmem List.not_mem_nil
    obtain ⟨s₁, hs₁, h₁, -⟩ := draining_miss h hlt hm
    obtain ⟨hrun, h₂⟩ := hsettle hs₁ h₁
    refine ⟨_, hrun, rfl, ?_⟩
    rw [show min (fired + 1) ((n + 1) / 2) = min fired ((n + 1) / 2) by omega]
    exact h₂

theorem draining_rounds (hne : base ≠ []) (hbase : ∀ r ∈ base, r.isDialog = false) (k : Nat)
    (h : Draining base n fired (min fired ((n + 1) / 2)) s) (hleft : s.leaving = [])
    (hk : fired + k = n) :
    ∃ s', run screenStep anyStep s (List.replicate k [.fire 0, .settle]).flatten = some s' ∧
      Draining base n n (min n ((n + 1) / 2)) s' := by
  induction k generalizing fired s with
  | zero =>
    obtain rfl : fired = n := hk
    exact ⟨s, rfl, h⟩
  | succ k ih =>
    obtain ⟨s₁, hrun, hleft₁, h₁⟩ := draining_round hne hbase h hleft (by omega)
    obtain ⟨s₂, hrest, h₂⟩ := ih h₁ hleft₁ (by omega)
    refine ⟨s₂, ?_, h₂⟩
    rw [List.replicate_succ, List.flatten_cons, run_append, hrun, Option.bind_some]
    exact hrest

end DialogsLemmas

/-- On every screen with the attendance page, after `n` presses whose dialogs are open at once,
with timers that end in the order in which they were started:

* however the dialogs leave in between, when all timers have ended at most half of the dialogs
  are left, the oldest ones;
* when each dialog has left before the next timer ends, exactly half of them are left. -/
theorem half_of_dialogs_stay {base : List Route} (hb : .page .manageEmp ∈ base) (n : Nat) :
    (∀ es s, (∀ e ∈ es, e = .fire 0 ∨ e = .settle) →
      run screenStep anyStep { stack := base } (List.replicate n .dialogCall ++ es) = some s →
      s.timers = [] → ∃ m ≤ n / 2, s.stack = dialogs m ++ base) ∧
    ((∀ r ∈ base, r.isDialog = false) →
      ∃ s, run screenStep anyStep { stack := base }
          (List.replicate n .dialogCall ++ (List.replicate n [.fire 0, .settle]).flatten) = some s ∧
        s.timers = [] ∧ s.stack = dialogs (n / 2) ++ base) := by
  have hne : base ≠ [] := List.ne_nil_of_mem hb
  have hopen : Draining base n 0 0 { stack := dialogs n ++ base, timers := List.range n, next := n } :=
    ⟨rfl, rfl, Nat.zero_le n, Nat.le_refl 0⟩
  refine ⟨fun es s hes hrun hdone => ?_, fun hbase => ?_⟩
  · rw [run_append, run_dialogCall hb, Option.bind_some] at hrun
    obtain ⟨fired, popped, h, hhalf⟩ := draining_run hne hes hopen (.inl rfl) hrun
    have hall : n ≤ fired := by
      have htimers := h.timers
      rw [hdone] at htimers
      simpa using List.drop_eq_nil_iff.mp htimers.symm
    refine ⟨n - popped, ?_, h.stack⟩
    have := h.popped_le
    omega
  · rw [← Nat.zero_min ((n + 1) / 2)] at hopen
    obtain ⟨s, hrun, h⟩ := draining_rounds hne hbase n hopen rfl (Nat.zero_add n)
    refine ⟨s, ?_, ?_, ?_⟩
    · rw [run_append, run_dialogCall hb, Option.bind_some]
      exact hrun
    · rw [h.timers, List.drop_eq_nil_of_le (Nat.le_of_eq List.length_range)]
    · rw [h.stack, show n - min n ((n + 1) / 2) = n / 2 by omega]

/-- Three presses leave one dialog open, which no timer closes. -/
theorem half_of_dialogs_stay_three :
    ∃ s, run screenStep anyStep { stack := [.page .manageEmp, .page .HomePage, .page .LoginPage] }
        (List.replicate 3 .dialogCall ++ (List.replicate 3 [.fire 0, .settle]).flatten) = some s ∧
      s.timers = [] ∧
      s.stack = [.dialog 0, .page .manageEmp, .page .HomePage, .page .LoginPage] :=
  (half_of_dialogs_stay (by decide) 3).2 (by decide)

end ShainManager
