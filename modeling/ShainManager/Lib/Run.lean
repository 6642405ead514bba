import Mathlib.Init

/-!
# Runs of a machine with a partial step function

A machine is a function `step : σ → ε → Option σ`: an event is either not
enabled in a state (`none`) or leads to exactly one next state. A condition
`ok : σ → ε → Prop` restricts the runs: it is read in the state before the
event. `Reach step ok s₀` is the set of states that a run from `s₀` reaches
when each of its steps meets `ok`.

* `Reach.invariant`: what holds at the start and survives every step that
  meets `ok` holds in every reachable state.
* `reach_of_run`: a list of events that runs to the end is such a run, so that
  a concrete run can be evaluated.
* `forall_run_iff_run`: properties of the states and of the steps hold all along a run if
  and only if all steps of the run meet `ok`.
-/

namespace Machine

variable {σ ε : Type}

/-- The states reachable from `s₀` by steps that all meet `ok`. -/
inductive Reach (step : σ → ε → Option σ) (ok : σ → ε → Prop) (s₀ : σ) : σ → Prop
  | start : Reach step ok s₀ s₀
  | next {s s' : σ} {e : ε} :
      Reach step ok s₀ s → ok s e → step s e = some s' → Reach step ok s₀ s'

/-- No condition on the steps. -/
def anyStep (_ : σ) (_ : ε) : Prop := True

instance (s : σ) (e : ε) : Decidable (anyStep s e) := .isTrue trivial

variable {step : σ → ε → Option σ} {ok ok' : σ → ε → Prop} {s₀ s s' : σ}

theorem Reach.mono (hok : ∀ s e, ok s e → ok' s e) (h : Reach step ok s₀ s) :
    Reach step ok' s₀ s := by
  induction h with
  | start => exact .start
  | next _ ho hs ih => exact ih.next (hok _ _ ho) hs

theorem Reach.any (h : Reach step ok s₀ s) : Reach step anyStep s₀ s :=
  h.mono fun _ _ _ => trivial

theorem Reach.trans (h : Reach step ok s₀ s) (h' : Reach step ok s s') : Reach step ok s₀ s' := by
  induction h' with
  | start => exact h
  | next _ ho hs ih => exact ih.next ho hs

/-- The invariant rule. The step may use that its start is reachable. -/
theorem Reach.invariant {I : σ → Prop} (h0 : I s₀)
    (hstep : ∀ {s e s'}, Reach step ok s₀ s → I s → ok s e → step s e = some s' → I s')
    (h : Reach step ok s₀ s) : I s := by
  induction h with
  | start => exact h0
  | next hr ho hs ih => exact hstep hr ih ho hs

/-- Runs a list of events, as long as each is enabled and meets `ok`. -/
def run (step : σ → ε → Option σ) (ok : σ → ε → Prop) [∀ s e, Decidable (ok s e)] :
    σ → List ε → Option σ
  | s, [] => some s
  | s, e :: rest => if ok s e then (step s e).bind (run step ok · rest) else none

theorem run_cons_eq_some [∀ s e, Decidable (ok s e)] {e : ε} {es : List ε} :
    run step ok s (e :: es) = some s' ↔
      ok s e ∧ ∃ s₁, step s e = some s₁ ∧ run step ok s₁ es = some s' := by
  rw [run]
  split
  · next ho => simp [ho, Option.bind_eq_some_iff]
  · next ho => simp [ho]

theorem run_append [∀ s e, Decidable (ok s e)] (es es' : List ε) :
    run step ok s (es ++ es') = (run step ok s es).bind fun s₁ => run step ok s₁ es' := by
  induction es generalizing s with
  | nil => rfl
  | cons e es ih =>
    rw [List.cons_append, run, run]
    split
    · cases step s e with
      | none => rfl
      | some s₁ => exact ih
    · rfl

/-- A condition restricts the runs and does not change where they lead. -/
theorem run_unique [∀ s e, Decidable (ok s e)] [∀ s e, Decidable (ok' s e)] {es : List ε}
    {s₁ s₂ : σ} (h : run step ok s es = some s₁) (h' : run step ok' s es = some s₂) : s₁ = s₂ := by
  induction es generalizing s with
  | nil => exact Option.some.inj (h.symm.trans h')
  | cons e es ih =>
    obtain ⟨-, t, ht, hrest⟩ := run_cons_eq_some.mp h
    obtain ⟨-, t', ht', hrest'⟩ := run_cons_eq_some.mp h'
    obtain rfl : t = t' := Option.some.inj (ht.symm.trans ht')
    exact ih hrest hrest'

theorem reach_of_run [∀ s e, Decidable (ok s e)] :
    ∀ {s s' : σ} {es : List ε}, run step ok s es = some s' → Reach step ok s s'
  | s, s', [], h => by
    cases h
    exact .start
  | s, s', e :: rest, h => by
    simp only [run] at h
    split at h
    · next ho =>
      cases hs : step s e with
      | none => simp [hs] at h
      | some s1 =>
        simp only [hs, Option.bind_some] at h
        exact (Reach.next .start ho hs).trans (reach_of_run h)
    · cases h

/-- A list of events that runs to a state with `p`. -/
theorem exists_run (step : σ → ε → Option σ) (ok : σ → ε → Prop) [∀ s e, Decidable (ok s e)]
    (s₀ : σ) (es : List ε) {p : σ → Prop} [DecidablePred p]
    (h : (run step ok s₀ es).map (fun s => decide (p s)) = some true) :
    ∃ s, run step ok s₀ es = some s ∧ p s := by
  obtain ⟨s, hs, hp⟩ := Option.map_eq_some_iff.mp h
  exact ⟨s, hs, of_decide_eq_true hp⟩

theorem exists_reach_of_run (step : σ → ε → Option σ) (ok : σ → ε → Prop)
    [∀ s e, Decidable (ok s e)] (s₀ : σ) (es : List ε) {p : σ → Prop} [DecidablePred p]
    (h : (run step ok s₀ es).map (fun s => decide (p s)) = some true) :
    ∃ s, Reach step ok s₀ s ∧ p s := by
  obtain ⟨s, hs, hp⟩ := exists_run step ok s₀ es h
  exact ⟨s, reach_of_run hs, hp⟩

/-- Two lists of events, run one after the other, and a property of both end
states. -/
theorem exists_reach_of_run_run (step : σ → ε → Option σ) (ok : σ → ε → Prop)
    [∀ s e, Decidable (ok s e)] (s₀ : σ) (es es' : List ε) {p : σ → σ → Prop}
    [∀ s s', Decidable (p s s')]
    (h : ((run step ok s₀ es).bind fun s => (run step ok s es').map fun s' => decide (p s s')) =
      some true) :
    ∃ s s', Reach step ok s₀ s ∧ Reach step ok s s' ∧ p s s' := by
  obtain ⟨s, hs, h⟩ := Option.bind_eq_some_iff.mp h
  obtain ⟨s', hs', hp⟩ := exists_reach_of_run step ok s es' h
  exact ⟨s, s', reach_of_run hs, hs', hp⟩

/-! ## Exact conditions -/

section

variable [∀ s e, Decidable (ok s e)] {I P : σ → Prop} {Q : σ → ε → Prop} {es : List ε}

/-- Let a step from a state with `P` have `Q` and lead to a state with `P`, exactly if it meets
`ok`. Then all states of a run have `P` and all its steps have `Q`, if and only if all its steps
meet `ok`. The runs are those that meet `ok'`, and the invariant need only survive the steps that
meet both. -/
theorem forall_run_iff_run [∀ s e, Decidable (ok' s e)]
    (hinv : ∀ {s e s'}, I s → ok' s e → ok s e → step s e = some s' → I s')
    (hstep : ∀ {s e s'}, I s → P s → ok' s e → step s e = some s' → (Q s e ∧ P s' ↔ ok s e))
    (hI : I s) (hP : P s) (hrun : run step ok' s es = some s') :
    (∀ n s₁, run step ok' s (es.take n) = some s₁ → P s₁ ∧ ∀ e, es[n]? = some e → Q s₁ e) ↔
      run step ok s es = some s' := by
  induction es generalizing s with
  | nil =>
    refine ⟨fun _ => hrun, fun _ n s₁ hr => ?_⟩
    rw [List.take_nil] at hr
    cases hr
    exact ⟨hP, nofun⟩
  | cons e es ih =>
    obtain ⟨hok', s₁, hs, hrest⟩ := run_cons_eq_some.mp hrun
    have htake : ∀ n, run step ok' s ((e :: es).take (n + 1)) = run step ok' s₁ (es.take n) := by
      intro n
      rw [List.take_succ_cons, run, if_pos hok', hs, Option.bind_some]
    constructor
    · intro h
      have hP₁ : P s₁ := (h 1 s₁ (by rw [htake, List.take_zero]; rfl)).1
      have hok := (hstep hI hP hok' hs).mp ⟨(h 0 s rfl).2 e rfl, hP₁⟩
      refine run_cons_eq_some.mpr ⟨hok, s₁, hs, ?_⟩
      refine (ih (hinv hI hok' hok hs) hP₁ hrest).mp fun n s₂ hr => h (n + 1) s₂ ?_
      rw [htake, hr]
    · intro h n s₂ hr
      obtain ⟨hok, s₁', hs', hrest'⟩ := run_cons_eq_some.mp h
      obtain rfl : s₁ = s₁' := Option.some.inj (hs.symm.trans hs')
      obtain ⟨hQ, hP₁⟩ := (hstep hI hP hok' hs).mpr hok
      cases n with
      | zero =>
        cases hr
        refine ⟨hP, fun e' he => ?_⟩
        cases he
        exact hQ
      | succ n =>
        rw [htake] at hr
        exact (ih (hinv hI hok' hok hs) hP₁ hrest).mpr hrest' n s₂ hr

/-- A property of states holds all along a run if and only if its steps meet `ok`. -/
theorem forall_take_iff_run (hinv : ∀ {s e s'}, I s → step s e = some s' → I s')
    (hstep : ∀ {s e s'}, I s → P s → step s e = some s' → (P s' ↔ ok s e)) (hI : I s) (hP : P s)
    (hrun : run step anyStep s es = some s') :
    (∀ n s₁, run step anyStep s (es.take n) = some s₁ → P s₁) ↔ run step ok s es = some s' := by
  rw [← forall_run_iff_run (Q := fun _ _ => True) (fun hI _ _ hs => hinv hI hs)
    (fun hI hP _ hs => (and_iff_right trivial).trans (hstep hI hP hs)) hI hP hrun]
  exact ⟨fun h n s₁ hr => ⟨h n s₁ hr, fun _ _ => trivial⟩, fun h n s₁ hr => (h n s₁ hr).1⟩

/-- A property of the steps themselves. -/
theorem forall_step_iff_run (hinv : ∀ {s e s'}, I s → ok s e → step s e = some s' → I s')
    (hstep : ∀ {s e s'}, I s → step s e = some s' → (Q s e ↔ ok s e)) (hI : I s)
    (hrun : run step anyStep s es = some s') :
    (∀ n s₁ e, run step anyStep s (es.take n) = some s₁ → es[n]? = some e → Q s₁ e) ↔
      run step ok s es = some s' := by
  rw [← forall_run_iff_run (P := fun _ => True) (fun hI _ hok hs => hinv hI hok hs)
    (fun hI _ _ hs => (and_iff_left trivial).trans (hstep hI hs)) hI trivial hrun]
  exact ⟨fun h n s₁ hr => ⟨trivial, fun e he => h n s₁ e hr he⟩,
    fun h n s₁ e hr he => (h n s₁ hr).2 e he⟩

end

end Machine
