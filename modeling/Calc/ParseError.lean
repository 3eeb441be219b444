/-
# Where a text stops being a program

A parse error carries the place of the first character that could not be read, as
an offset and as a line and a column, the text that was left over, and the line
around the place with a mark under it.
-/

import Calc.Text.Place

namespace Calc

/-- A text that is no program. -/
structure ParseError where
  /-- what is wrong, in short -/
  summary : String
  location : Int := 0
  line : Int := 0
  column : Int := 0
  /-- the text that was left over -/
  remaining : String := ""
  context : Option String := none
  deriving DecidableEq, Repr

namespace ParseError

/-- The full text of a parse error: its place and summary, an excerpt of what was
left over, and its context. -/
def message (e : ParseError) : String :=
  let place := "Parse error at line " ++ toString e.line ++ ", column " ++ toString e.column ++ ": "
  let got := if e.remaining = "" then "" else "\n  Got: " ++ Text.excerpt e.remaining.toList 30
  let around :=
    match e.context with
    | none => ""
    | some context => if context = "" then "" else "\n" ++ context
  place ++ e.summary ++ got ++ around

/-- Parentheses are nested too deeply somewhere in the text. That is an error of
the text as a whole and has no place in it. -/
def tooDeep (text : String) : ParseError where
  summary := "Expression nested too deeply"
  remaining := text

/-- The text ends in a rest that is no statement. The place of the error is the
first character of the rest that is no blank. -/
def leftover (text rest : String) : ParseError :=
  let blanks := (rest.toList.takeWhile Text.isBlank).length
  let location : Int := text.length - rest.length + blanks
  let (line, column) := Text.lineAndColumn text.toList location
  { summary := "Statement not recognized as a valid Calc statement"
    location, line, column
    remaining := rest
    context := some (Text.context text.toList line column 0) }

end ParseError

end Calc
