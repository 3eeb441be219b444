/-
# Statements

A program is a list of statements, which are of four kinds: a variable is
declared, read from the input, printed as part of an expression, or assigned.
-/

import Calc.Program.Expr

namespace Calc

/-- A statement over references of type `ρ`. -/
inductive Statement (ρ : Type) where
  | declaration (target : ρ)
  | input (target : ρ)
  | output (value : Expr ρ .expression)
  | assignment (target : ρ) (value : Expr ρ .expression)

/-- Statements in the order in which they are carried out. -/
abbrev Program (ρ : Type) := List (Statement ρ)

/-- The same statement over other references. -/
def Statement.map {ρ σ : Type} (f : ρ → σ) : Statement ρ → Statement σ
  | .declaration target => .declaration (f target)
  | .input target => .input (f target)
  | .output value => .output (value.map f)
  | .assignment target value => .assignment (f target) (value.map f)

end Calc
