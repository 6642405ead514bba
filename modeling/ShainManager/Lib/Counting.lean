import Mathlib.Data.List.Basic
import Mathlib.Logic.ExistsUnique

/-!
# Selecting, relating and counting elements of a list

`openings key prev l` are the elements of `l` whose key is not the key of the element
before them; the first is compared with `prev`.

* `forall_of_filter_eq`: two tests that select equally many elements.
* `filter_eq_filter_iff`: two tests that select the same elements.
* `forall_pairs_snoc`: one more element in a list whose elements are all related.
* `countP_openings_eq_one_iff`: one opening satisfies a test if and only if there is
  exactly one position where an element that satisfies it opens.
-/

namespace Counting

/-- A filter by a weaker test gives the same list only if it adds nothing. -/
theorem forall_of_filter_eq {α : Type} {l : List α} {P Q : α → Prop} [DecidablePred P]
    [DecidablePred Q] (hPQ : ∀ a, P a → Q a)
    (h : (l.filter fun a => decide (Q a)).length = (l.filter fun a => decide (P a)).length) :
    ∀ a ∈ l, Q a → P a := by
  intro a ha hq
  have hsub : (l.filter fun a => decide (P a)).Sublist (l.filter fun a => decide (Q a)) :=
    List.monotone_filter_right l fun x hx => by simpa using hPQ x (by simpa using hx)
  have hmem : a ∈ l.filter fun a => decide (Q a) := List.mem_filter.mpr ⟨ha, by simpa using hq⟩
  rw [← hsub.eq_of_length h.symm] at hmem
  simpa using (List.mem_filter.mp hmem).2

/-- Two filters give the same list only if they agree on it. -/
theorem filter_eq_filter_iff {α : Type} {l : List α} {P Q : α → Prop} [DecidablePred P]
    [DecidablePred Q] :
    (l.filter fun a => decide (P a)) = (l.filter fun a => decide (Q a)) ↔ ∀ a ∈ l, (P a ↔ Q a) := by
  constructor
  · intro h a ha
    have hmem : a ∈ (l.filter fun a => decide (P a)) ↔ a ∈ l.filter fun a => decide (Q a) := by
      rw [h]
    simpa [ha] using hmem
  · intro h
    exact List.filter_congr fun a ha => decide_eq_decide.mpr (h a ha)

/-- A symmetric relation between any two elements, after one more element. -/
theorem forall_pairs_snoc {α : Type} {R : α → α → Prop} {l : List α} {x : α}
    (hsymm : ∀ a b, R a b → R b a) (hl : ∀ a ∈ l, ∀ b ∈ l, R a b) (hx : ∀ a ∈ l, R a x)
    (hself : R x x) : ∀ a ∈ l ++ [x], ∀ b ∈ l ++ [x], R a b := by
  intro a ha b hb
  rcases List.mem_append.mp ha with ha | ha
  · rcases List.mem_append.mp hb with hb | hb
    · exact hl a ha b hb
    · rw [List.mem_singleton.mp hb]
      exact hx a ha
  · rw [List.mem_singleton.mp ha]
    rcases List.mem_append.mp hb with hb | hb
    · exact hsymm b x (hx b hb)
    · rw [List.mem_singleton.mp hb]
      exact hself

/-! ## Openings -/

section

variable {α κ : Type}

/-- The key before the position `i`. -/
def keyBefore (key : α → κ) (prev : Option κ) (l : List α) : Nat → Option κ
  | 0 => prev
  | j + 1 => l[j]?.map key

/-- At the position `i` there is an element that satisfies `P` and opens. -/
def OpensAt (key : α → κ) (P : α → Prop) (prev : Option κ) (l : List α) (i : Nat) : Prop :=
  ∃ a, l[i]? = some a ∧ P a ∧ keyBefore key prev l i ≠ some (key a)

variable {key : α → κ} {P : α → Prop} {prev : Option κ}

theorem opensAt_zero {a : α} {l : List α} :
    OpensAt key P prev (a :: l) 0 ↔ P a ∧ prev ≠ some (key a) := by
  simp [OpensAt, keyBefore]

theorem opensAt_succ {a : α} {l : List α} {i : Nat} :
    OpensAt key P prev (a :: l) (i + 1) ↔ OpensAt key P (some (key a)) l i := by
  have hbefore : keyBefore key prev (a :: l) (i + 1) = keyBefore key (some (key a)) l i := by
    cases i with
    | zero => rfl
    | succ j => rfl
  unfold OpensAt
  rw [hbefore, List.getElem?_cons_succ]

/-- A property of positions holds at one position if and only if it holds at the first
only, or not at the first and at one later. -/
theorem existsUnique_cons {Q : Nat → Prop} :
    (∃! i, Q i) ↔ (Q 0 ∧ ∀ i, ¬ Q (i + 1)) ∨ (¬ Q 0 ∧ ∃! i, Q (i + 1)) := by
  constructor
  · rintro ⟨i, hi, hone⟩
    cases i with
    | zero =>
      refine .inl ⟨hi, fun j hj => ?_⟩
      exact absurd (hone _ hj) (by omega)
    | succ i =>
      refine .inr ⟨fun h0 => absurd (hone _ h0) (by omega), i, hi, fun j hj => ?_⟩
      exact Nat.succ.inj (hone _ hj)
  · rintro (⟨h0, hno⟩ | ⟨h0, i, hi, hone⟩)
    · refine ⟨0, h0, fun j hj => ?_⟩
      cases j with
      | zero => rfl
      | succ j => exact absurd hj (hno j)
    · refine ⟨i + 1, hi, fun j hj => ?_⟩
      cases j with
      | zero => exact absurd hj h0
      | succ j => rw [hone j hj]

variable [DecidableEq κ]

/-- The elements that open. -/
def openings (key : α → κ) : Option κ → List α → List α
  | _, [] => []
  | prev, a :: l =>
    if prev ≠ some (key a) then a :: openings key (some (key a)) l
    else openings key (some (key a)) l

theorem mem_of_mem_openings {l : List α} {a : α} (h : a ∈ openings key prev l) :
    a ∈ l := by
  induction l generalizing prev with
  | nil => exact absurd h List.not_mem_nil
  | cons b l ih =>
    rw [openings] at h
    split at h
    · rcases List.mem_cons.mp h with rfl | h
      · exact List.mem_cons_self
      · exact List.mem_cons_of_mem _ (ih h)
    · exact List.mem_cons_of_mem _ (ih h)

variable [DecidablePred P]

/-- The first element counts if it opens and satisfies the test. -/
theorem countP_openings_cons (a : α) (l : List α) :
    (openings key prev (a :: l)).countP (fun a => decide (P a)) =
      (openings key (some (key a)) l).countP (fun a => decide (P a)) +
        if P a ∧ prev ≠ some (key a) then 1 else 0 := by
  rw [openings]
  by_cases hprev : prev = some (key a)
  · rw [if_neg (not_not_intro hprev), if_neg fun h => h.2 hprev]
    rfl
  · rw [if_pos hprev, List.countP_cons]
    simp [hprev]

theorem countP_openings_eq_zero_iff {l : List α} :
    (openings key prev l).countP (fun a => decide (P a)) = 0 ↔
      ∀ i, ¬ OpensAt key P prev l i := by
  induction l generalizing prev with
  | nil => simp [openings, OpensAt]
  | cons a l ih =>
    rw [countP_openings_cons, Nat.add_eq_zero_iff, ih]
    constructor
    · rintro ⟨hrest, h0⟩ i
      cases i with
      | zero =>
        rw [opensAt_zero]
        intro h
        rw [if_pos h] at h0
        exact absurd h0 (by decide)
      | succ i =>
        rw [opensAt_succ]
        exact hrest i
    · intro h
      refine ⟨fun i => ?_, if_neg ?_⟩
      · have hi := h (i + 1)
        rwa [opensAt_succ] at hi
      · have h0 := h 0
        rwa [opensAt_zero] at h0

theorem countP_openings_eq_one_iff {l : List α} :
    (openings key prev l).countP (fun a => decide (P a)) = 1 ↔
      ∃! i, OpensAt key P prev l i := by
  induction l generalizing prev with
  | nil => simp [openings, OpensAt, ExistsUnique]
  | cons a l ih =>
    rw [countP_openings_cons, existsUnique_cons]
    simp only [opensAt_zero, opensAt_succ]
    rw [← countP_openings_eq_zero_iff, ← ih]
    split
    · next h => simp [h]
    · next h => simp [h]

end

end Counting
