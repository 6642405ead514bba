import Mathlib.Init

/-!
# Operations issued now and executed later, in order

A store of type `σ` receives operations of type `ο` through a first-in
first-out queue: an operation is appended when it is issued and applied to the
store when it reaches the head. `flush t ops` is the store once the whole queue
has been executed.

`Along R t ops` says that every operation of the queue, applied to the store it
will find, makes a step in `R`. It is the form in which a fact about a write is
kept from the moment the write is issued until it is executed:

* `along_snoc`: issuing an operation asks for `R` on the flushed store only;
* `along_tail`: executing the head leaves the rest of the queue in order;
* `along_flush`: a reflexive and transitive `R` relates the store to the
  flushed store.
-/

namespace Deferred

variable {σ ο : Type} {exec : σ → ο → σ} {R : σ → σ → Prop} {t : σ} {ops : List ο} {o : ο}

/-- The store after the whole queue has been executed. -/
def flush (exec : σ → ο → σ) (t : σ) (ops : List ο) : σ := ops.foldl exec t

/-- Every operation of the queue makes a step in `R` when its turn comes. -/
def Along (exec : σ → ο → σ) (R : σ → σ → Prop) : σ → List ο → Prop
  | _, [] => True
  | t, o :: rest => R t (exec t o) ∧ Along exec R (exec t o) rest

@[simp] theorem flush_nil : flush exec t [] = t := rfl

@[simp] theorem flush_cons : flush exec t (o :: ops) = flush exec (exec t o) ops := rfl

@[simp] theorem flush_snoc : flush exec t (ops ++ [o]) = exec (flush exec t ops) o := by
  simp [flush, List.foldl_append]

theorem along_snoc :
    Along exec R t (ops ++ [o]) ↔
      Along exec R t ops ∧ R (flush exec t ops) (exec (flush exec t ops) o) := by
  induction ops generalizing t with
  | nil => simp [Along]
  | cons a rest ih => simp [Along, ih, and_assoc]

theorem along_head (h : Along exec R t (o :: ops)) : R t (exec t o) := h.1

theorem along_tail (h : Along exec R t (o :: ops)) : Along exec R (exec t o) ops := h.2

theorem along_flush (hrefl : ∀ t, R t t) (htrans : ∀ {a b c}, R a b → R b c → R a c)
    (h : Along exec R t ops) : R t (flush exec t ops) := by
  induction ops generalizing t with
  | nil => exact hrefl t
  | cons a rest ih => exact htrans h.1 (ih h.2)

end Deferred
