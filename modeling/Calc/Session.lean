/-
# Sessions

In a session, variables outlive the fragment of program text that declared them.
A fragment is read, resolved and carried out as a whole: nothing is carried out
unless all of it could be read and resolved, and when a name in it cannot be
resolved, the variables that it declared are forgotten again. A program run on
its own is a session of one fragment without earlier variables.
-/

import Calc.Execution
import Calc.Program.Complete
import Calc.Resolution

namespace Calc

/-- Why a fragment was not carried out to its end. -/
inductive TurnError where
  | parse (error : ParseError)
  | name (error : NameError)
  | run (error : RunError)
  deriving DecidableEq, Repr

/-- The text of the error. -/
def TurnError.message : TurnError → String
  | parse error => error.message
  | name error => error.message
  | run error => error.message

/-- Variables that outlive fragments, and whether to write what is done. -/
structure Session where
  debug : Bool := false
  table : SymbolTable := ∅

/-- Read, resolve and carry out a fragment. -/
def SymbolTable.runFragment (debug : Bool) (table : SymbolTable) (fragment : String) :
    Interaction (SymbolTable × Option TurnError) := do
  match ← Program.read debug fragment with
  | .error e => return (table, some (.parse e))
  | .ok program =>
      let resolution := program.resolve table
      resolution.trace debug (·.toNode.inline) program
      match resolution.error with
      | some e => return (resolution.table.truncate table.size, some (.name e))
      | none =>
          let (final, fault) ← resolution.resolved.execute debug resolution.table
          return (final, fault.map .run)

/-- Run a program on its own; the table it ends with. -/
def runSource (debug : Bool) (source : String) : Interaction (Except TurnError SymbolTable) := do
  let (table, error) ← (∅ : SymbolTable).runFragment debug source
  match error with
  | some e => return .error e
  | none => return .ok table

namespace Session

/-- Run a fragment on the variables of a session. -/
def run (session : Session) (fragment : String) : Interaction (Session × Option TurnError) := do
  let (table, error) ← session.table.runFragment session.debug fragment
  return ({ session with table }, error)

/-- Forget all variables. -/
def clear (session : Session) : Session :=
  { session with table := ∅ }

/-- The name with the given number among those that start with a text; there is
none when the number is too large. A negative number counts from the end, and
then there has to be such a name. -/
def completion? (session : Session) (start : String) (number : Int) :
    Except SlotError (Option String) :=
  let matching := session.table.names.filter fun name => start.toList.isPrefixOf name.toList
  if matching.length ≤ number then .ok none
  else
    match Text.elementAt matching.length number with
    | none => .error .outOfRange
    | some i => .ok matching[i]?

end Session

end Calc
