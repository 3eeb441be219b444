/-
# Interpreting program texts

The meaning of a program without a symbol table: the program text itself is
walked once, statement by statement, over the variables that exist by then. A
variable comes into being where it is declared, and a name is looked up where it
stands. Nothing is resolved beforehand, and no variable has a slot.
-/

import Calc.Execution

namespace Calc

/-- The variables that exist, in the order of their declaration, with their
values. -/
abbrev Store := List (String × Float)

namespace Store

/-- The names of the variables that exist. -/
def names (store : Store) : List String :=
  store.map Prod.fst

/-- The value of the variable of a name. -/
def value? (store : Store) (name : String) : Option Float :=
  match store with
  | [] => none
  | (other, value) :: rest => if other = name then some value else value? rest name

/-- The variables after the one of a name was given another value. -/
def assign (store : Store) (name : String) (value : Float) : Store :=
  match store with
  | [] => []
  | (other, old) :: rest =>
      if other = name then (other, value) :: rest else (other, old) :: assign rest name value

@[simp]
theorem names_assign (store : Store) (name : String) (value : Float) :
    (store.assign name value).names = store.names := by
  induction store with
  | nil => rfl
  | cons entry rest ih =>
      rw [assign]
      split
      case isTrue => rfl
      case isFalse => exact congrArg (entry.1 :: ·) ih

end Store

/-! ## Expressions -/

/-- What an operator makes of two numbers, in the arithmetic of binary floating
point numbers. -/
def Operator.result? : Operator → Float → Float → Option Float
  | add, x, y => some (x + y)
  | subtract, x, y => some (x - y)
  | multiply, x, y => some (x * y)
  | divide, x, y => some (x / y)
  | unknown _, _, _ => none

/-- An operator of the language. -/
def Operator.Known (op : Operator) : Prop :=
  ∀ symbol, op ≠ unknown symbol

namespace Expr

variable {ρ : Type}

/-- All operators are operators of the language. -/
def Arithmetic : {level : Level} → Expr ρ level → Prop
  | _, .ref _ => True
  | _, .literal _ => True
  | _, .group inner => inner.Arithmetic
  | _, .factor f => f.Arithmetic
  | _, .product t op f => t.Arithmetic ∧ op.Known ∧ f.Arithmetic
  | _, .term t => t.Arithmetic
  | _, .sum e op t => e.Arithmetic ∧ op.Known ∧ t.Arithmetic

/-- The value of an expression: names stand for the values of their variables,
and chains are computed from the left. -/
def valueIn (store : Store) : {level : Level} → Expr String level → Option Float
  | _, .ref name => store.value? name
  | _, .literal value => some value
  | _, .group inner => inner.valueIn store
  | _, .factor f => f.valueIn store
  | _, .product t op f => do
      let x ← t.valueIn store
      let y ← f.valueIn store
      op.result? x y
  | _, .term t => t.valueIn store
  | _, .sum e op t => do
      let x ← e.valueIn store
      let y ← t.valueIn store
      op.result? x y

/-! An expression is its first term followed by operators and terms, and a term is
its first factor followed by operators and factors. -/

def firstTerm : Expr ρ .expression → Expr ρ .term
  | .term t => t
  | .sum e _ _ => e.firstTerm

def laterTerms : Expr ρ .expression → List (Operator × Expr ρ .term)
  | .term _ => []
  | .sum e op t => e.laterTerms ++ [(op, t)]

def firstFactor : Expr ρ .term → Expr ρ .factor
  | .factor f => f
  | .product t _ _ => t.firstFactor

def laterFactors : Expr ρ .term → List (Operator × Expr ρ .factor)
  | .factor _ => []
  | .product t op f => t.laterFactors ++ [(op, f)]

/-- Join one more operand to what was computed so far. -/
def joinIn (store : Store) {level : Level} (x : Float) (operand : Operator × Expr String level) :
    Option Float := do
  let y ← operand.2.valueIn store
  operand.1.result? x y

/-- The value of an expression is the left fold of its terms. -/
theorem valueIn_eq_foldlM_terms (store : Store) :
    (e : Expr String .expression) →
      e.valueIn store = (do e.laterTerms.foldlM (joinIn store) (← e.firstTerm.valueIn store))
  | .term t => by
      simp [valueIn, laterTerms, firstTerm]
  | .sum e op t => by
      rw [valueIn, valueIn_eq_foldlM_terms store e, laterTerms, firstTerm]
      simp only [List.foldlM_append, List.foldlM_cons, List.foldlM_nil, bind_pure, bind_assoc,
        joinIn]

/-- The value of a term is the left fold of its factors. -/
theorem valueIn_eq_foldlM_factors (store : Store) :
    (t : Expr String .term) →
      t.valueIn store = (do t.laterFactors.foldlM (joinIn store) (← t.firstFactor.valueIn store))
  | .factor f => by
      simp [valueIn, laterFactors, firstFactor]
  | .product t op f => by
      rw [valueIn, valueIn_eq_foldlM_factors store t, laterFactors, firstFactor]
      simp only [List.foldlM_append, List.foldlM_cons, List.foldlM_nil, bind_pure, bind_assoc,
        joinIn]

end Expr

/-! ## Programs -/

/-- All operators in a statement are operators of the language. -/
def Statement.Arithmetic {ρ : Type} : Statement ρ → Prop
  | .declaration _ => True
  | .input _ => True
  | .output value => value.Arithmetic
  | .assignment _ value => value.Arithmetic

/-- Carry out a statement of a program text. There is no result if a name in an
expression has no variable. -/
def Statement.interpret (store : Store) : Statement String → Interaction (Option Store)
  | .declaration name => return some (store ++ [(name, 0.0)])
  | .input name =>
      .write (.prompt "? ") (.read fun line =>
        .done (some (store.assign name (enteredNumber (line.getD "") 0.0))))
  | .output e =>
      match e.valueIn store with
      | none => return none
      | some x => .write (.output (printedNumber x ++ "\n")) (.done (some store))
  | .assignment name e =>
      match e.valueIn store with
      | none => return none
      | some x => return some (store.assign name x)

/-- Carry out the statements of a program text one after another. -/
def Program.interpret (store : Store) (program : Program String) : Interaction (Option Store) :=
  match program with
  | [] => return some store
  | statement :: rest => do
      match ← statement.interpret store with
      | none => return none
      | some changed => Program.interpret changed rest

end Calc
