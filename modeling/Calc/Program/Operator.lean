/-
# Operators

The four operators of the language and their meaning on binary floating point
numbers. Programs that are handed over as trees may name operators that the
language does not know; those are kept by their symbol and have no meaning.
-/

namespace Calc

/-- What stands between two operands. -/
inductive Operator where
  | add
  | subtract
  | multiply
  | divide
  | unknown (symbol : String)
  deriving DecidableEq, Repr

namespace Operator

/-- How an operator is written. -/
def symbol : Operator → String
  | add => "+"
  | subtract => "-"
  | multiply => "*"
  | divide => "/"
  | unknown symbol => symbol

/-- The operator that is written in the given way. -/
def ofSymbol (s : String) : Operator :=
  if s = "+" then add
  else if s = "-" then subtract
  else if s = "*" then multiply
  else if s = "/" then divide
  else unknown s

/-- The operator that joins two terms and is written as the given character. -/
def additive? : Char → Option Operator
  | '+' => some add
  | '-' => some subtract
  | _ => none

/-- The operator that joins two factors and is written as the given character. -/
def multiplicative? : Char → Option Operator
  | '*' => some multiply
  | '/' => some divide
  | _ => none

/-- What an operator computes. Arithmetic is IEEE 754 arithmetic, so that it is
total: a zero divisor gives an infinity, or no number when the dividend is zero
or no number itself. -/
def function? : Operator → Option (Float → Float → Float)
  | add => some (· + ·)
  | subtract => some (· - ·)
  | multiply => some (· * ·)
  | divide => some (· / ·)
  | unknown _ => none

end Operator

end Calc
