/-
# Resolving names

Before a program is carried out, every name in it is replaced by the slot of the
variable it stands for. A declaration makes the variable; every other name needs
one that exists already. Statements are resolved in their order, in an assignment
the target before the expression, and an expression from left to right. The first
name that cannot be resolved ends the resolution, and the variables that were
declared before it stay in the table.
-/

import Calc.Console
import Calc.Program.Node
import Calc.SymbolTable

namespace Calc

variable {ρ ε σ : Type}

/-- Resolve a statement, given how a reference is declared and how it is looked
up in a table. The new table differs from the old one only after a declaration. -/
def Statement.resolveWith (declare : SymbolTable → ρ → Except ε (Nat × SymbolTable))
    (lookup : SymbolTable → ρ → Except ε Nat) (table : SymbolTable) :
    Statement ρ → Except ε (Statement Int × SymbolTable)
  | .declaration target => do
      let (slot, extended) ← declare table target
      return (.declaration slot, extended)
  | .input target => do
      let slot ← lookup table target
      return (.input slot, table)
  | .output value => do
      let resolved ← value.traverse fun r => (lookup table r).map Int.ofNat
      return (.output resolved, table)
  | .assignment target value => do
      let slot ← lookup table target
      let resolved ← value.traverse fun r => (lookup table r).map Int.ofNat
      return (.assignment slot resolved, table)

/-- Resolve a statement of a program text. -/
def Statement.resolve (table : SymbolTable) (statement : Statement String) :
    Except NameError (Statement Int × SymbolTable) :=
  statement.resolveWith SymbolTable.declare SymbolTable.slotOf table

/-- What resolving a program leaves. -/
structure Resolution (ε : Type) where
  /-- the statements before the first one that failed, resolved -/
  resolved : Program Int
  /-- the table after these statements -/
  table : SymbolTable
  /-- why the next statement failed, if there is one -/
  error : Option ε

/-- Resolve statements one after another, up to the first failure. -/
def resolveAll (resolve : SymbolTable → σ → Except ε (Statement Int × SymbolTable)) :
    SymbolTable → List σ → Resolution ε
  | table, [] => ⟨[], table, none⟩
  | table, statement :: rest =>
      match resolve table statement with
      | .error e => ⟨[], table, some e⟩
      | .ok (first, extended) =>
          let others := resolveAll resolve extended rest
          { others with resolved := first :: others.resolved }

/-- Resolve a program text. -/
def Program.resolve (table : SymbolTable) (program : Program String) : Resolution NameError :=
  resolveAll Statement.resolve table program

/-- When debugging, every statement that was resolved is shown with its result. -/
def Resolution.trace (debug : Bool) (shown : σ → String) (statements : List σ)
    (resolution : Resolution ε) : Interaction Unit :=
  (statements.zip resolution.resolved).forM fun (statement, resolved) =>
    Interaction.trace debug ("Resolved " ++ shown statement ++ " -> " ++ resolved.toNode.inline)

end Calc
