/-
# Texts that are programs

A text is a program when nothing but blanks is left over after its statements.
Otherwise the text is refused with the place where it stops being a program.
-/

import Calc.Console
import Calc.ParseError
import Calc.Program.Parser

namespace Calc

/-- What was read from the front of a text, and what was left over. -/
abbrev Reading := Except TooDeep (Program String × String)

/-- The program that a text is, given what was read from its front. -/
def Reading.whole (text : String) : Reading → Except ParseError (Program String)
  | .error .tooDeep => .error (.tooDeep text)
  | .ok (program, rest) =>
      if rest.toList.all Text.isBlank then .ok program else .error (.leftover text rest)

/-- When debugging, report how much was read. Nothing is reported about a text
that is nested too deeply. -/
def Reading.trace (debug : Bool) : Reading → Interaction Unit
  | .error .tooDeep => return ()
  | .ok (program, rest) =>
      Interaction.trace debug ("Parsed " ++ toString program.length ++ " statements, " ++
        toString rest.length ++ " characters left")

/-- The statements of a text that consists of statements only. -/
def Program.complete (text : String) : Except ParseError (Program String) :=
  Reading.whole text (Program.ofText text)

/-- Read a program, reporting about it when debugging. -/
def Program.read (debug : Bool) (text : String) :
    Interaction (Except ParseError (Program String)) := do
  let reading := Program.ofText text
  Reading.trace debug reading
  return Reading.whole text reading

end Calc
