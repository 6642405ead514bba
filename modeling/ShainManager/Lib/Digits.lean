import Mathlib.Algebra.Group.Nat.Defs

/-!
# Strings of digits and their order

The value of a list of digits is `Nat.ofDigitChars 10 cs 0`. Lists are compared from the
left, as strings are.

* `append_lt_append_iff`: lists that begin with equally many elements.
* `lt_iff_value_lt`, `eq_iff_value_eq`: equally many digits compare as their values.
* `Writes cs width n`: the digits `cs` write `n`, padded to `width`.
-/

namespace Digits

/-- The first parts decide, and the rest only when they are equal. -/
theorem append_lt_append_iff {α : Type} [LT α] {l₁ l₂ : List α} (r₁ r₂ : List α)
    (h : l₁.length = l₂.length) :
    l₁ ++ r₁ < l₂ ++ r₂ ↔ l₁ < l₂ ∨ l₁ = l₂ ∧ r₁ < r₂ := by
  induction l₁ generalizing l₂ with
  | nil =>
    obtain rfl : l₂ = [] := List.length_eq_zero_iff.mp h.symm
    simp
  | cons a l₁ ih =>
    cases l₂ with
    | nil => cases h
    | cons b l₂ =>
      rw [List.cons_append, List.cons_append, List.cons_lt_cons_iff, List.cons_lt_cons_iff,
        ih (Nat.succ.inj h), List.cons.injEq]
      constructor
      · rintro (hab | ⟨hab, hl | ⟨hl, hr⟩⟩)
        · exact .inl (.inl hab)
        · exact .inl (.inr ⟨hab, hl⟩)
        · exact .inr ⟨⟨hab, hl⟩, hr⟩
      · rintro ((hab | ⟨hab, hl⟩) | ⟨⟨hab, hl⟩, hr⟩)
        · exact .inl hab
        · exact .inr ⟨hab, .inl hl⟩
        · exact .inr ⟨hab, .inr ⟨hl, hr⟩⟩

/-- A digit is one of ten characters in a row. -/
theorem isDigit_iff {c : Char} : c.isDigit = true ↔ 48 ≤ c.toNat ∧ c.toNat ≤ 57 := by
  simp only [Char.isDigit, Bool.and_eq_true, decide_eq_true_eq]
  exact Iff.rfl

theorem all_isDigit_cons {c : Char} {cs : List Char} :
    (c :: cs).all Char.isDigit = true ↔ c.isDigit = true ∧ cs.all Char.isDigit = true := by
  rw [List.all_cons, Bool.and_eq_true]

/-- The value of the first digit and of the rest. -/
theorem value_cons (c : Char) (cs : List Char) :
    Nat.ofDigitChars 10 (c :: cs) 0 =
      10 ^ cs.length * (c.toNat - 48) + Nat.ofDigitChars 10 cs 0 := by
  rw [Nat.ofDigitChars_cons, Nat.ofDigitChars_eq_ofDigitChars_zero, Nat.mul_zero, Nat.zero_add]
  rfl

theorem value_lt {cs : List Char} (h : cs.all Char.isDigit = true) :
    Nat.ofDigitChars 10 cs 0 < 10 ^ cs.length := by
  induction cs with
  | nil => decide
  | cons c cs ih =>
    obtain ⟨hc, hcs⟩ := all_isDigit_cons.mp h
    have hdigit : c.toNat - 48 ≤ 9 := by
      have := (isDigit_iff.mp hc).2
      omega
    calc Nat.ofDigitChars 10 (c :: cs) 0
        = 10 ^ cs.length * (c.toNat - 48) + Nat.ofDigitChars 10 cs 0 := value_cons c cs
      _ < 10 ^ cs.length * (c.toNat - 48) + 10 ^ cs.length := Nat.add_lt_add_left (ih hcs) _
      _ ≤ 10 ^ cs.length * 9 + 10 ^ cs.length :=
        Nat.add_le_add_right (Nat.mul_le_mul_left _ hdigit) _
      _ = 10 ^ (c :: cs).length := by
        rw [List.length_cons, Nat.pow_succ, ← Nat.mul_succ]

/-- Two numbers of the form `q * n + r` with `r < q` compare by `n` first. -/
theorem mul_add_lt_iff {q n n' r r' : Nat} (hr : r < q) (hr' : r' < q) :
    q * n + r < q * n' + r' ↔ n < n' ∨ n = n' ∧ r < r' := by
  rcases Nat.lt_trichotomy n n' with hlt | rfl | hgt
  · have hle : q * (n + 1) ≤ q * n' := Nat.mul_le_mul_left q hlt
    rw [Nat.mul_succ] at hle
    exact ⟨fun _ => .inl hlt, fun _ => by omega⟩
  · constructor
    · intro h
      exact .inr ⟨rfl, by omega⟩
    · rintro (h | ⟨-, h⟩)
      · exact absurd h (Nat.lt_irrefl n)
      · omega
  · have hle : q * (n' + 1) ≤ q * n := Nat.mul_le_mul_left q hgt
    rw [Nat.mul_succ] at hle
    constructor
    · intro h
      omega
    · rintro (h | ⟨h, -⟩)
      · omega
      · omega

theorem lt_iff_value_lt {cs ds : List Char} (hlen : cs.length = ds.length)
    (hcs : cs.all Char.isDigit = true) (hds : ds.all Char.isDigit = true) :
    cs < ds ↔ Nat.ofDigitChars 10 cs 0 < Nat.ofDigitChars 10 ds 0 := by
  induction cs generalizing ds with
  | nil =>
    obtain rfl : ds = [] := List.length_eq_zero_iff.mp hlen.symm
    simp
  | cons c cs ih =>
    cases ds with
    | nil => cases hlen
    | cons d ds =>
      obtain ⟨hc, hcs⟩ := all_isDigit_cons.mp hcs
      obtain ⟨hd, hds⟩ := all_isDigit_cons.mp hds
      have hlen' : cs.length = ds.length := Nat.succ.inj hlen
      obtain ⟨hc1, -⟩ := isDigit_iff.mp hc
      obtain ⟨hd1, -⟩ := isDigit_iff.mp hd
      have hlt : c < d ↔ c.toNat - 48 < d.toNat - 48 := by
        show c.toNat < d.toNat ↔ _
        omega
      have heq : c = d ↔ c.toNat - 48 = d.toNat - 48 := by
        rw [← Char.toNat_inj]
        omega
      rw [List.cons_lt_cons_iff, value_cons, value_cons, ih hlen' hcs hds, hlt, heq, hlen']
      exact (mul_add_lt_iff (hlen' ▸ value_lt hcs) (value_lt hds)).symm

theorem eq_iff_value_eq {cs ds : List Char} (hlen : cs.length = ds.length)
    (hcs : cs.all Char.isDigit = true) (hds : ds.all Char.isDigit = true) :
    cs = ds ↔ Nat.ofDigitChars 10 cs 0 = Nat.ofDigitChars 10 ds 0 := by
  constructor
  · intro h
    rw [h]
  · intro h
    -- neither list is less than the other
    refine List.le_antisymm ?_ ?_
    · exact List.not_lt.mp fun hlt => absurd ((lt_iff_value_lt hlen.symm hds hcs).mp hlt) (by omega)
    · exact List.not_lt.mp fun hlt => absurd ((lt_iff_value_lt hlen hcs hds).mp hlt) (by omega)

/-- The digits `cs`, of which there are `width`, write the number `n`. -/
structure Writes (cs : List Char) (width n : Nat) : Prop where
  length : cs.length = width
  digits : cs.all Char.isDigit = true
  value : Nat.ofDigitChars 10 cs 0 = n

instance (cs : List Char) (width n : Nat) : Decidable (Writes cs width n) :=
  decidable_of_iff (cs.length = width ∧ cs.all Char.isDigit = true ∧ Nat.ofDigitChars 10 cs 0 = n)
    ⟨fun h => ⟨h.1, h.2.1, h.2.2⟩, fun h => ⟨h.length, h.digits, h.value⟩⟩

section

variable {cs ds : List Char} {width n m : Nat}

theorem Writes.lt_iff (hcs : Writes cs width n) (hds : Writes ds width m) : cs < ds ↔ n < m := by
  rw [lt_iff_value_lt (hcs.length.trans hds.length.symm) hcs.digits hds.digits, hcs.value,
    hds.value]

theorem Writes.eq_iff (hcs : Writes cs width n) (hds : Writes ds width m) : cs = ds ↔ n = m := by
  rw [eq_iff_value_eq (hcs.length.trans hds.length.symm) hcs.digits hds.digits, hcs.value,
    hds.value]

/-- Padded numbers of one width, with something after them. -/
theorem Writes.append_lt_iff (hcs : Writes cs width n) (hds : Writes ds width m)
    (r r' : List Char) : cs ++ r < ds ++ r' ↔ n < m ∨ n = m ∧ r < r' := by
  rw [append_lt_append_iff r r' (hcs.length.trans hds.length.symm), hcs.lt_iff hds,
    hcs.eq_iff hds]

end

end Digits
