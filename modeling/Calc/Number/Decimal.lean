/-
# Unsigned decimal numbers

A decimal number is a natural number of digits and a power of ten. Many pairs
name the same value; `Decimal.reduce` picks the one whose digits do not end in
zero.
-/

namespace Calc

/-- The number `digits · 10^exponent`. -/
structure Decimal where
  digits : Nat
  exponent : Int
  deriving DecidableEq, Repr

namespace Decimal

/-- The digits as they are written, without leading zeros. -/
def text (d : Decimal) : List Char :=
  Nat.toDigits 10 d.digits

/-- How many of the digits stand before the point. A number that is not zero
lies between `10^(scale - 1)`, included, and `10^scale`, excluded. -/
def scale (d : Decimal) : Int :=
  d.text.length + d.exponent

/-- The number is `numerator / denominator`. -/
def numerator (d : Decimal) : Nat :=
  d.digits * Nat.pow 10 d.exponent.toNat

@[inherit_doc numerator]
def denominator (d : Decimal) : Nat :=
  Nat.pow 10 (-d.exponent).toNat

/-- The same number with its trailing zeros moved into the exponent. -/
def reduce (d : Decimal) : Decimal :=
  if h : d.digits ≠ 0 ∧ d.digits % 10 = 0 then
    reduce ⟨d.digits / 10, d.exponent + 1⟩
  else d
termination_by d.digits
decreasing_by exact Nat.div_lt_self (Nat.pos_of_ne_zero h.1) (by decide)

end Decimal

end Calc
