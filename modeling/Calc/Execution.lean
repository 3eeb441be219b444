/-
# Carrying out programs

A resolved program is carried out statement by statement. Declarations were
already dealt with when names were resolved; an input statement prompts on
standard error and stores the number on the next line of input; an output
statement prints a value on a line of its own; an assignment stores one. A value
is computed before anything else happens, and a statement that fails leaves the
table as it was.
-/

import Calc.Console
import Calc.Number.Entry
import Calc.Program.Node
import Calc.SymbolTable

namespace Calc

/-- Why a statement cannot be carried out. Neither happens to a program whose
names were resolved. -/
inductive RunError where
  | slot (error : SlotError)
  | unknownOperator (symbol : String)
  deriving DecidableEq, Repr

/-- The text of the error; of an unknown operator, its symbol in quotes. -/
def RunError.message : RunError → String
  | slot error => error.message
  | unknownOperator symbol => Text.quoted symbol

/-- Apply an operator. -/
def Operator.apply (op : Operator) (x y : Float) : Except RunError Float :=
  match op.function? with
  | some f => .ok (f x y)
  | none => .error (.unknownOperator op.symbol)

namespace SymbolTable

/-- The value of a variable of a resolved program. -/
def valueAt (table : SymbolTable) (slot : Int) : Except RunError Float :=
  (table.get slot).mapError .slot

/-- Store the value of a variable of a resolved program. -/
def store (table : SymbolTable) (slot : Int) (value : Float) : Except RunError SymbolTable :=
  (table.set slot value).mapError .slot

end SymbolTable

/-- The value of an expression of a resolved program. -/
def Expr.value {level : Level} (table : SymbolTable) (e : Expr Int level) : Except RunError Float :=
  e.evaluate table.valueAt Operator.apply

/-- What asks for a number. -/
def inputPrompt : String := "? "

/-- Prompt for a number and read it. A line that is no number, and the end of
input, count as zero. -/
def readNumber : Interaction Float :=
  .write (.prompt inputPrompt) (.read fun line => .done (enteredNumber (line.getD "") 0.0))

variable {ρ ε σ : Type}

/-- Carry out a statement, given how an expression is computed and how a value is
stored. -/
def Statement.executeWith (value : SymbolTable → Expr ρ .expression → Except ε Float)
    (store : SymbolTable → ρ → Float → Except ε SymbolTable) (table : SymbolTable) :
    Statement ρ → Interaction (Except ε SymbolTable)
  | .declaration _ => return .ok table
  | .input target => do
      let x ← readNumber
      return store table target x
  | .output e =>
      match value table e with
      | .error fault => return .error fault
      | .ok x => do
          Interaction.print (printedNumber x ++ "\n")
          return .ok table
  | .assignment target e =>
      match value table e with
      | .error fault => return .error fault
      | .ok x => return store table target x

/-- Carry out a statement of a resolved program. -/
def Statement.execute (table : SymbolTable) (statement : Statement Int) :
    Interaction (Except RunError SymbolTable) :=
  statement.executeWith Expr.value SymbolTable.store table

/-- Carry out statements one after another, up to the first failure; the table is
the one after the last statement that succeeded. When debugging, every statement
is shown before it is carried out. -/
def executeAll (debug : Bool) (shown : σ → String)
    (execute : SymbolTable → σ → Interaction (Except ε SymbolTable)) :
    SymbolTable → List σ → Interaction (SymbolTable × Option ε)
  | table, [] => return (table, none)
  | table, statement :: rest => do
      Interaction.trace debug ("Executing: " ++ shown statement)
      match ← execute table statement with
      | .error fault => return (table, some fault)
      | .ok changed => executeAll debug shown execute changed rest

/-- Carry out a resolved program. -/
def Program.execute (debug : Bool) (table : SymbolTable) (program : Program Int) :
    Interaction (SymbolTable × Option RunError) :=
  executeAll debug (·.toNode.inline) Statement.execute table program

end Calc
