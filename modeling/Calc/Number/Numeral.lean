/-
# Numerals of the language

A numeral is an optional sign, digits with an optional point among or beside
them, and an optional exponent. Digits are the ASCII ones, no blank stands
inside, and at least one digit stands before the exponent. `Numeral.scan` finds
the longest numeral that a text starts with: a point, an `e` or a sign without
the digits it needs is left to what follows.
-/

import Calc.Number.Binary64

namespace Calc

/-- A decimal number with a sign. Zero has both signs. -/
structure Numeral where
  negative : Bool
  magnitude : Decimal
  deriving DecidableEq, Repr

namespace Numeral

/-- The nearest binary number; infinite beyond the largest one. -/
def toFloat (n : Numeral) : Float :=
  Binary64.toFloat n.negative (Binary64.ofDecimal n.magnitude)

/-- The number that a run of digits writes. -/
def ofDigits (digits : List Char) : Nat :=
  Nat.ofDigitChars 10 digits 0

/-- Whether a text starts with a minus sign, and the text after the sign if there
is one. -/
def scanSign : List Char → Bool × List Char
  | '-' :: rest => (true, rest)
  | '+' :: rest => (false, rest)
  | rest => (false, rest)

/-- The digits after a point, and the text after them. Without a point there are
none. -/
def scanFraction : List Char → List Char × List Char
  | '.' :: rest => (rest.takeWhile Char.isDigit, rest.dropWhile Char.isDigit)
  | rest => ([], rest)

/-- The exponent that a text starts with, and the text after it; zero if it
starts with none. -/
def scanExponent (s : List Char) : Int × List Char :=
  match s with
  | mark :: after =>
      let (negative, rest) := scanSign after
      let digits := rest.takeWhile Char.isDigit
      if (mark = 'e' ∨ mark = 'E') ∧ digits ≠ [] then
        (if negative then -(ofDigits digits : Int) else ofDigits digits,
          rest.dropWhile Char.isDigit)
      else (0, s)
  | [] => (0, [])

/-- The longest numeral that a text starts with, and the text after it. -/
def scan (s : List Char) : Option (Numeral × List Char) :=
  let (negative, unsigned) := scanSign s
  let whole := unsigned.takeWhile Char.isDigit
  let (fraction, afterFraction) := scanFraction (unsigned.dropWhile Char.isDigit)
  if whole = [] ∧ fraction = [] then none
  else
    let (exponent, rest) := scanExponent afterFraction
    some (⟨negative, ofDigits (whole ++ fraction), exponent - fraction.length⟩, rest)

private theorem length_takeWhile_add_dropWhile (p : Char → Bool) (s : List Char) :
    (s.takeWhile p).length + (s.dropWhile p).length = s.length := by
  rw [← List.length_append, List.takeWhile_append_dropWhile]

private theorem scanSign_length_le (s : List Char) : (scanSign s).2.length ≤ s.length := by
  unfold scanSign; split <;> simp

private theorem scanExponent_length_le (s : List Char) :
    (scanExponent s).2.length ≤ s.length := by
  unfold scanExponent
  split
  next mark after =>
    simp only
    split
    · exact Nat.le_succ_of_le
        (Nat.le_trans (List.dropWhile_suffix _).length_le (scanSign_length_le after))
    · exact Nat.le_refl _
  next => exact Nat.le_refl _

private theorem scanFraction_length_le (s : List Char) :
    (scanFraction s).1.length + (scanFraction s).2.length ≤ s.length := by
  unfold scanFraction
  split
  next rest => simp [length_takeWhile_add_dropWhile Char.isDigit rest]
  next => simp

/-- A numeral takes at least one character of the text. -/
theorem scan_length_lt {s rest : List Char} {n : Numeral} (h : scan s = some (n, rest)) :
    rest.length < s.length := by
  simp only [scan] at h
  split at h
  · cases h
  · next found =>
    have hs := scanSign_length_le s
    have hw := length_takeWhile_add_dropWhile Char.isDigit (scanSign s).2
    have hf := scanFraction_length_le ((scanSign s).2.dropWhile Char.isDigit)
    have he := scanExponent_length_le (scanFraction ((scanSign s).2.dropWhile Char.isDigit)).2
    simp only [Option.some.injEq, Prod.mk.injEq] at h
    rw [h.2] at he
    rcases Decidable.not_and_iff_or_not.mp found with hne | hne <;>
      have := List.length_pos_iff.mpr hne <;> omega

end Numeral

end Calc
