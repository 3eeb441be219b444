/-
# Numbers that a person types

A line of input is a number when, its blanks at both ends removed, it is a
numeral, a name of infinity or the name of what is no number, each with an
optional sign. It may be written with the decimal digits of any script, and a
single underscore may stand between two digits. What is no number is replaced by
a default.
-/

import Calc.Number.Numeral
import Calc.Text.Blank
import Calc.Text.DecimalDigit

namespace Calc.Entry

/-- The text without the underscores that stand between two digits. -/
def dropUnderscores : List Char → List Char
  | [] => []
  | c :: '_' :: d :: rest =>
      if c.isDigit && d.isDigit then c :: dropUnderscores (d :: rest)
      else c :: dropUnderscores ('_' :: d :: rest)
  | c :: rest => c :: dropUnderscores rest

/-- The special numbers by name, in small letters. -/
def special? (negative : Bool) (name : List Char) : Option Float :=
  if name = ['i', 'n', 'f'] ∨ name = ['i', 'n', 'f', 'i', 'n', 'i', 't', 'y'] then
    some (Binary64.toFloat negative Binary64.infinity)
  else if name = ['n', 'a', 'n'] then
    some (0.0 / 0.0)
  else none

/-- The number that a whole text writes, if it writes one. -/
def number? (text : List Char) : Option Float :=
  let plain := dropUnderscores ((Text.trim text).map Text.toAsciiDigit)
  match Numeral.scan plain with
  | some (numeral, []) => some numeral.toFloat
  | some _ => none
  | none =>
      let (negative, name) := Numeral.scanSign plain
      special? negative (name.map Char.toLower)

end Calc.Entry

namespace Calc

/-- The number that a line of input stands for. -/
def enteredNumber (line : String) (default : Float) : Float :=
  (Entry.number? line.toList).getD default

end Calc
