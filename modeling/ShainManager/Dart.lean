import Mathlib.Algebra.Group.Int.Defs
import Mathlib.Algebra.Group.Nat.Defs
import Mathlib.Data.List.Infix
import ShainManager.Lib.Digits

/-!
# Dart operations that the pages use

Where a Dart operation throws, the model gives `none`. A `map` that is traversed for
the side effect of its closure, which adds to a list, is a `foldl` over the list.
-/

namespace ShainManager

/-- A null in a string interpolation. -/
def interpolated (s : Option String) : String := s.getD "null"

/-- `s.substring(i, j)`. It throws a RangeError unless `i ≤ j ≤ s.length`. The
strings it is used on have no characters outside the basic plane, so code units
and characters are the same. -/
def substring (s : String) (i j : Nat) : Option String :=
  if i ≤ j ∧ j ≤ s.length then some (String.ofList ((s.toList.take j).drop i)) else none

/-- `s.substring(i)`. -/
def substringFrom (s : String) (i : Nat) : Option String := substring s i s.length

/-- `s.contains(other)`. -/
def Contains (s other : String) : Prop := other.toList <:+: s.toList

instance (s other : String) : Decidable (Contains s other) :=
  inferInstanceAs (Decidable (_ <:+: _))

/-! ## `int.parse` -/

/-- What `trim` removes: the white space of Unicode and the byte order mark. -/
def isTrimmed (c : Char) : Bool :=
  let n := c.toNat
  (9 ≤ n && n ≤ 13) || (0x2000 ≤ n && n ≤ 0x200A) ||
    [0x20, 0x85, 0xA0, 0x1680, 0x2028, 0x2029, 0x202F, 0x205F, 0x3000, 0xFEFF].contains n

def trim (cs : List Char) : List Char :=
  ((cs.dropWhile isTrimmed).reverse.dropWhile isTrimmed).reverse

def digitValue (c : Char) : Option Nat :=
  if c.isDigit then some (c.toNat - 48)
  else if 'a' ≤ c ∧ c ≤ 'f' then some (c.toNat - 87)
  else if 'A' ≤ c ∧ c ≤ 'F' then some (c.toNat - 55)
  else none

/-- One more digit. -/
def pushDigit (radix n : Nat) (c : Char) : Option Nat :=
  (digitValue c).bind fun d => if d < radix then some (n * radix + d) else none

def parseDigits (radix : Nat) (cs : List Char) : Option Nat :=
  if cs = [] then none else cs.foldlM (pushDigit radix) 0

def signed (negative : Bool) (n : Nat) : Int := if negative then -n else n

/-- The part after the sign. A decimal number has to fit in 64 bits with its sign; a
hexadecimal one is read as 64 bits. -/
def parseUnsigned (negative : Bool) (cs : List Char) : Option Int :=
  match cs with
  | '0' :: 'x' :: ds | '0' :: 'X' :: ds =>
    (parseDigits 16 ds).bind fun n =>
      if n < 2 ^ 64 then some ((signed negative n).bmod (2 ^ 64)) else none
  | ds =>
    (parseDigits 10 ds).bind fun n =>
      if -2 ^ 63 ≤ signed negative n ∧ signed negative n < 2 ^ 63 then some (signed negative n)
      else none

/-- `int.parse(source)`. It throws a FormatException where this is `none`. -/
def intParse (source : String) : Option Int :=
  match trim source.toList with
  | '-' :: cs => parseUnsigned true cs
  | '+' :: cs => parseUnsigned false cs
  | cs => parseUnsigned false cs

namespace DartLemmas

theorem foldlM_pushDigit {cs : List Char} (hdigits : cs.all Char.isDigit = true) (n : Nat) :
    cs.foldlM (pushDigit 10) n = some (Nat.ofDigitChars 10 cs n) := by
  induction cs generalizing n with
  | nil => rfl
  | cons c cs ih =>
    obtain ⟨hc, hcs⟩ := Digits.all_isDigit_cons.mp hdigits
    have hlt : c.toNat - 48 < 10 := by
      have := (Digits.isDigit_iff.mp hc).2
      omega
    have hpush : pushDigit 10 n c = some (10 * n + (c.toNat - 48)) := by
      simp [pushDigit, digitValue, hc, hlt, Nat.mul_comm]
    rw [List.foldlM_cons, hpush]
    exact ih hcs _

theorem dropWhile_eq_self {cs : List Char} (h : ∀ c ∈ cs, isTrimmed c = false) :
    cs.dropWhile isTrimmed = cs := by
  cases cs with
  | nil => rfl
  | cons c cs => rw [List.dropWhile_cons_of_neg (by simp [h c List.mem_cons_self])]

theorem not_isTrimmed_of_isDigit {c : Char} (h : c.isDigit = true) : isTrimmed c = false := by
  obtain ⟨hge, hle⟩ := Digits.isDigit_iff.mp h
  simp [isTrimmed]
  omega

theorem trim_digits {cs : List Char} (hdigits : cs.all Char.isDigit = true) : trim cs = cs := by
  have h : ∀ c ∈ cs, isTrimmed c = false := fun c hc =>
    not_isTrimmed_of_isDigit (List.all_eq_true.mp hdigits c hc)
  unfold trim
  rw [dropWhile_eq_self h, dropWhile_eq_self fun c hc => h c (List.mem_reverse.mp hc),
    List.reverse_reverse]

theorem parseUnsigned_digits {cs : List Char} (hdigits : cs.all Char.isDigit = true)
    (hne : cs ≠ []) (hlen : cs.length ≤ 4) :
    parseUnsigned false cs = some (Nat.ofDigitChars 10 cs 0 : Int) := by
  have hsmall : Nat.ofDigitChars 10 cs 0 < 10 ^ 4 :=
    Nat.lt_of_lt_of_le (Digits.value_lt hdigits) (Nat.pow_le_pow_right (by decide) hlen)
  unfold parseUnsigned
  split
  · exact absurd hdigits (by simp [Char.isDigit])
  · exact absurd hdigits (by simp [Char.isDigit])
  · rw [parseDigits, if_neg hne, foldlM_pushDigit hdigits]
    have hfits : -2 ^ 63 ≤ signed false (Nat.ofDigitChars 10 cs 0) ∧
        signed false (Nat.ofDigitChars 10 cs 0) < 2 ^ 63 := by
      simp only [signed, Bool.false_eq_true, if_false]
      omega
    rw [Option.bind_some, if_pos hfits]
    rfl

end DartLemmas

open DartLemmas in
/-- At most four digits are parsed to their value. -/
theorem intParse_digits {s : String} (hdigits : s.toList.all Char.isDigit = true)
    (hne : s.toList ≠ []) (hlen : s.toList.length ≤ 4) :
    intParse s = some (Nat.ofDigitChars 10 s.toList 0 : Int) := by
  unfold intParse
  rw [trim_digits hdigits]
  generalize s.toList = cs at *
  split
  · exact absurd hdigits (by simp [Char.isDigit])
  · exact absurd hdigits (by simp [Char.isDigit])
  · exact parseUnsigned_digits hdigits hne hlen

/-! ## Traversals -/

/-- A traversal whose closure adds at most one element a call. -/
theorem foldl_collect {α β : Type} {step : List β → α → List β} {f : α → Option β}
    (h : ∀ acc a, step acc a = acc ++ (f a).toList) (l : List α) (acc : List β) :
    l.foldl step acc = acc ++ l.filterMap f := by
  induction l generalizing acc with
  | nil => simp
  | cons a l ih =>
    rw [List.foldl_cons, ih, h, List.filterMap_cons]
    cases f a <;> simp

end ShainManager
