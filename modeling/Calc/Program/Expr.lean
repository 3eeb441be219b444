/-
# Expressions

An expression is a chain of terms joined by additive operators, a term a chain of
factors joined by multiplicative ones, and a factor a variable, a literal or an
expression in parentheses. The three levels are the indices of one inductive
family. Chains lean to the left: the operand at the right end is joined to the
whole chain before it, which is also how a chain is evaluated.

The type of references is a parameter: a name in a program text, a slot of the
symbol table once names are resolved.
-/

import Calc.Program.Operator

namespace Calc

/-- The three levels of an expression, from the tightest on. -/
inductive Level where
  | factor
  | term
  | expression
  deriving DecidableEq, Repr

/-- Expressions, terms and factors over references of type `ρ`. -/
inductive Expr (ρ : Type) : Level → Type where
  /-- a variable -/
  | ref (r : ρ) : Expr ρ .factor
  /-- a number -/
  | literal (value : Float) : Expr ρ .factor
  /-- an expression in parentheses -/
  | group (inner : Expr ρ .expression) : Expr ρ .factor
  /-- a term of one factor -/
  | factor (f : Expr ρ .factor) : Expr ρ .term
  /-- a term with one more factor at its right end -/
  | product (t : Expr ρ .term) (op : Operator) (f : Expr ρ .factor) : Expr ρ .term
  /-- an expression of one term -/
  | term (t : Expr ρ .term) : Expr ρ .expression
  /-- an expression with one more term at its right end -/
  | sum (e : Expr ρ .expression) (op : Operator) (t : Expr ρ .term) : Expr ρ .expression

namespace Expr

variable {ρ σ ε : Type}

/-- Replace every reference, from left to right; the first one that has no
replacement decides the error. -/
def traverse (f : ρ → Except ε σ) : {level : Level} → Expr ρ level → Except ε (Expr σ level)
  | _, .ref r => do return .ref (← f r)
  | _, .literal value => return .literal value
  | _, .group inner => do return .group (← inner.traverse f)
  | _, .factor g => do return .factor (← g.traverse f)
  | _, .product t op g => do
      let t' ← t.traverse f
      return .product t' op (← g.traverse f)
  | _, .term t => do return .term (← t.traverse f)
  | _, .sum e op t => do
      let e' ← e.traverse f
      return .sum e' op (← t.traverse f)

/-- The same expression over other references. -/
def map (f : ρ → σ) : {level : Level} → Expr ρ level → Expr σ level
  | _, .ref r => .ref (f r)
  | _, .literal value => .literal value
  | _, .group inner => .group (inner.map f)
  | _, .factor g => .factor (g.map f)
  | _, .product t op g => .product (t.map f) op (g.map f)
  | _, .term t => .term (t.map f)
  | _, .sum e op t => .sum (e.map f) op (t.map f)

/-- Compute an expression from the values of its references and the meaning of
its operators. Both operands are computed, the left one first, before their
operator is applied. -/
def evaluate (value : ρ → Except ε Float)
    (apply : Operator → Float → Float → Except ε Float) :
    {level : Level} → Expr ρ level → Except ε Float
  | _, .ref r => value r
  | _, .literal x => return x
  | _, .group inner => inner.evaluate value apply
  | _, .factor f => f.evaluate value apply
  | _, .product t op f => do
      let x ← t.evaluate value apply
      let y ← f.evaluate value apply
      apply op x y
  | _, .term t => t.evaluate value apply
  | _, .sum e op t => do
      let x ← e.evaluate value apply
      let y ← t.evaluate value apply
      apply op x y

/-- How many parentheses are open at once where most are. -/
def depth : {level : Level} → Expr ρ level → Nat
  | _, .ref _ => 0
  | _, .literal _ => 0
  | _, .group inner => inner.depth + 1
  | _, .factor f => f.depth
  | _, .product t _ f => max t.depth f.depth
  | _, .term t => t.depth
  | _, .sum e _ t => max e.depth t.depth

/-- Replacements that cannot fail make a plain map. -/
theorem traverse_ok (f : ρ → σ) {level : Level} (e : Expr ρ level) :
    e.traverse (fun r => (Except.ok (f r) : Except ε σ)) = .ok (e.map f) := by
  induction e <;> simp_all [traverse, map, bind, Except.bind, pure, Except.pure]

end Expr

end Calc
