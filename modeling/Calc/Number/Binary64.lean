/-
# Binary floating point, 64 bits

The sign apart, a finite number of this format is a whole number of units of
2^-1074, and its word of 63 bits grows with the number: the word after the
largest finite one stands for infinity. So the word nearest to a fraction is
found by exact division of natural numbers, rounded to nearest with ties to the
even word, and numbers beyond the largest one round to infinity.
-/

import Calc.Number.Decimal

namespace Calc.Binary64

/-- The word of infinity; every smaller word is finite. -/
def infinity : Nat := 0x7FF0000000000000

/-- The quotient rounded to the nearest natural number, a half going to the even
one. -/
def roundedQuotient (n d : Nat) : Nat :=
  if 2 * (n % d) < d ∨ (2 * (n % d) = d ∧ n / d % 2 = 0) then n / d else n / d + 1

/-- The value of a finite word, counted in units of 2^-1074. -/
def units (word : Nat) : Nat :=
  if word < Nat.pow 2 52 then word
  else (Nat.pow 2 52 + word % Nat.pow 2 52) * Nat.pow 2 (word / Nat.pow 2 52 - 1)

/-- The word nearest to `num / den`. The spacing of the format there is
`2 ^ shift` units: one unit while the quotient has at most 53 binary digits, and
otherwise what leaves 53 of them. Adding `shift` to the exponent field and the
rounded significand to the rest of the word also carries a significand that
rounds up to `2 ^ 53` into the next exponent. -/
def nearest (num den : Nat) : Nat :=
  let shift := (num * Nat.pow 2 1074 / den).log2 - 52
  min (shift * Nat.pow 2 52 + roundedQuotient (num * Nat.pow 2 1074) (den * Nat.pow 2 shift))
    infinity

/-- The word nearest to a decimal number. Numbers of `10^310` and more are beyond
the largest finite word, and numbers below `10^(-330)` are nearest to zero, so
that no power of ten outside this range is ever computed. -/
def ofDecimal (d : Decimal) : Nat :=
  if d.digits = 0 then 0
  else if 310 < d.scale then infinity
  else if d.scale < -330 then 0
  else nearest d.numerator d.denominator

/-- The number with the given sign and word. -/
def toFloat (negative : Bool) (word : Nat) : Float :=
  .ofBits (.ofNat (if negative then Nat.pow 2 63 + word else word))

/-- Whether the sign of a number is set; also of a zero. -/
def isNegative (x : Float) : Bool :=
  Nat.pow 2 63 ≤ x.toBits.toNat

/-- The word of a number, its sign removed. -/
def word (x : Float) : Nat :=
  x.toBits.toNat % Nat.pow 2 63

end Calc.Binary64
