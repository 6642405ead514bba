import Mathlib.Init

/-!
# A machine that answers calls, and its abstract counterpart

A machine `step : σ → ι → ο × σ` answers each call and moves on. Its abstract
counterpart is a relation `A t c o t'`: in the abstract state `t` the call `c` may be
answered with `o` and lead to `t'`. It may leave a choice open that the machine makes.

* `trace_of_simulation`: when every step of the machine is matched by an abstract one
  with the same answer, so is every sequence of calls.
* `answers_snoc`: one more call at the end of a sequence.
-/

namespace Simulation

variable {σ τ ι ο : Type}

/-- The answers to a sequence of calls, and the state after it. -/
def answers (step : σ → ι → ο × σ) : σ → List ι → List ο × σ
  | s, [] => ([], s)
  | s, c :: cs =>
    let rest := answers step (step s c).2 cs
    ((step s c).1 :: rest.1, rest.2)

/-- The calls `cs` may be answered with `os`. -/
inductive Trace (A : τ → ι → ο → τ → Prop) : τ → List ι → List ο → τ → Prop
  | nil {t : τ} : Trace A t [] [] t
  | cons {t t' t'' : τ} {c : ι} {o : ο} {cs : List ι} {os : List ο} :
      A t c o t' → Trace A t' cs os t'' → Trace A t (c :: cs) (o :: os) t''

variable {step : σ → ι → ο × σ} {A : τ → ι → ο → τ → Prop} {R : σ → τ → Prop}

/-- The simulation rule. -/
theorem trace_of_simulation
    (hstep : ∀ {s t} (c : ι), R s t → ∃ t', A t c (step s c).1 t' ∧ R (step s c).2 t')
    {s : σ} {t : τ} (h : R s t) (cs : List ι) :
    ∃ t', Trace A t cs (answers step s cs).1 t' ∧ R (answers step s cs).2 t' := by
  induction cs generalizing s t with
  | nil => exact ⟨t, .nil, h⟩
  | cons c cs ih =>
    obtain ⟨t', hA, hR⟩ := hstep c h
    obtain ⟨t'', htrace, hR'⟩ := ih hR
    exact ⟨t'', .cons hA htrace, hR'⟩

/-- One more call at the end. -/
theorem answers_snoc (s : σ) (cs : List ι) (c : ι) :
    answers step s (cs ++ [c]) =
      ((answers step s cs).1 ++ [(step (answers step s cs).2 c).1],
        (step (answers step s cs).2 c).2) := by
  induction cs generalizing s with
  | nil => rfl
  | cons c' cs ih =>
    rw [List.cons_append, answers, ih]
    rfl

end Simulation
