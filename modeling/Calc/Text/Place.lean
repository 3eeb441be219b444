/-
# Places in a text

A place in a text is given by an offset, which counts characters from zero, or by
a line and a column, which count from one. To point out a place, the lines around
it are shown with their numbers, and a mark stands under its column. A text that
is only mentioned is cut to the beginning of its first line.
-/

import Calc.Text.Blank
import Calc.Text.Lines
import Calc.Text.Position

namespace Calc.Text

/-- The line and the column of an offset into a text. The line is counted in the
part of the text before the offset. -/
def lineAndColumn (text : List Char) (location : Int) : Int × Int :=
  let before := text.take (endAt text.length location)
  let current := before.reverse.takeWhile (· != '\n')
  (before.count '\n' + 1, location - (before.length - current.length) + 1)

/-- A number at the right end of four columns. -/
def paddedNumber (n : Nat) : String :=
  let digits := toString n
  "".pushn ' ' (4 - digits.length) ++ digits

/-- A line of a source text with its number in front. -/
def numberedLine (number : Nat) (line : List Char) : String :=
  paddedNumber number ++ ": " ++ String.ofList line

/-- The line that marks a column of the line above it, which has its number in
front. -/
def caretLine (column : Int) : String :=
  "".pushn ' ' 6 ++ "".pushn ' ' (column - 1).toNat ++ "^ Error here"

/-- The lines of a text that are at most `around` lines away from the given one,
with their numbers; the mark of the column follows the given line. -/
def contextLines (text : List Char) (line column around : Int) : List String :=
  (lines text).zipIdx.flatMap fun (content, index) =>
    if line - around - 1 ≤ index ∧ index < line + around then
      numberedLine (index + 1) content :: if index = line - 1 then [caretLine column] else []
    else []

/-- The context of a place, as one text. -/
def context (text : List Char) (line column around : Int) : String :=
  "\n".intercalate (contextLines text line column around)

/-- The first line of a text in quotes; of a line of more than `limit` characters
as many as leave room for three points. -/
def excerpt (text : List Char) (limit : Int) : String :=
  let line := firstLine (trim text)
  let shown :=
    if limit < line.length then line.take (endAt line.length (limit - 3)) ++ ['.', '.', '.']
    else line
  "'" ++ String.ofList shown ++ "'"

end Calc.Text
