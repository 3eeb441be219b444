/-
# Programs handed over as trees

A program can be handed over as a list of shown trees, to be resolved or to be
carried out. Nothing keeps such a tree from holding a node where it does not
belong: a statement or a factor of the other stage, or something without operands
in the place of a chain. A misplaced node does no harm until it is reached, so it
is read as a reference that fails when it is looked up; resolving and carrying out
then follow the same rules as for any other program.
-/

import Calc.Execution
import Calc.Resolution

namespace Calc

/-- Why a program that was handed over cannot be resolved or carried out. -/
inductive ForeignError where
  /-- a node is no statement of the stage -/
  | statement (stage : Stage) (node : Node)
  /-- a node is no factor of the stage -/
  | factor (stage : Stage) (node : Node)
  /-- a node stands in the place of a chain and has no operands -/
  | noOperands (node : Node)
  | name (error : NameError)
  | run (error : RunError)

/-- The text of the error. What is not understood differs with the stage: named
programs are resolved, resolved ones are carried out. -/
def ForeignError.message : ForeignError → String
  | statement .named node => "Unable to analyze statement: " ++ node.inline
  | statement .resolved node => "Unknown statement: " ++ node.inline
  | factor .named node => "Unable to analyze factor: " ++ node.inline
  | factor .resolved node => "Unknown factor: " ++ node.inline
  | noOperands node => "'" ++ node.label ++ "' object has no attribute 'first'"
  | name error => error.message
  | run error => error.message

/-- A reference of a program that was handed over, or the misplaced node in its
place. -/
abbrev Foreign (ρ : Type) := Except ForeignError ρ

variable {ρ : Type} [Reference ρ]

namespace Node

/-- A node where a factor of the other stage stands. -/
def misplacedFactor (node : Node) : Expr (Foreign ρ) .factor :=
  .ref (.error (.factor (Reference.stage ρ) node))

/-- Extend an expression of some level by an operator and an operand. -/
def joinTerm (t : Expr (Foreign ρ) .term) (operand : Operator × Expr (Foreign ρ) .factor) :
    Expr (Foreign ρ) .term :=
  .product t operand.1 operand.2

@[inherit_doc joinTerm]
def joinExpression (e : Expr (Foreign ρ) .expression)
    (operand : Operator × Expr (Foreign ρ) .term) : Expr (Foreign ρ) .expression :=
  .sum e operand.1 operand.2

mutual

/-- A tree as an expression of the given level. Chains of both kinds serve as
terms and as expressions. -/
def toExpr : (level : Level) → Node → Expr (Foreign ρ) level
  | .factor, node@(.identifier subject) =>
      match Reference.ofSubject? subject with
      | some r => .ref (.ok r)
      | none => node.misplacedFactor
  | .factor, node@(.literal stage value) =>
      if stage = Reference.stage ρ then .literal value else node.misplacedFactor
  | .factor, node@(.group stage inner) =>
      if stage = Reference.stage ρ then .group (toExpr .expression inner) else node.misplacedFactor
  | .factor, node => node.misplacedFactor
  | .term, .chain _ _ first rest =>
      (operands .factor rest).foldl joinTerm (.factor (toExpr .factor first))
  | .term, node => .factor (.ref (.error (.noOperands node)))
  | .expression, .chain _ _ first rest =>
      (operands .term rest).foldl joinExpression (.term (toExpr .term first))
  | .expression, node => .term (.factor (.ref (.error (.noOperands node))))
termination_by structural _ node => node

/-- The operators and operands of a chain, the operands as expressions of the
given level. -/
def operands : (level : Level) → List (String × Node) →
    List (Operator × Expr (Foreign ρ) level)
  | _, [] => []
  | level, (op, operand) :: rest =>
      (Operator.ofSymbol op, toExpr level operand) :: operands level rest
termination_by structural _ rest => rest

end

/-- A tree as a statement. -/
def toStatement (node : Node) : Except ForeignError (Statement (Foreign ρ)) :=
  let misplaced := .error (.statement (Reference.stage ρ) node)
  match node with
  | .declaration target =>
      match Reference.ofSubject? (ρ := ρ) target with
      | some r => .ok (.declaration (.ok r))
      | none => misplaced
  | .input target =>
      match Reference.ofSubject? (ρ := ρ) target with
      | some r => .ok (.input (.ok r))
      | none => misplaced
  | .output stage value =>
      if stage = Reference.stage ρ then .ok (.output (toExpr .expression value)) else misplaced
  | .assignment target value =>
      match Reference.ofSubject? (ρ := ρ) target with
      | some r => .ok (.assignment (.ok r) (toExpr .expression value))
      | none => misplaced
  | _ => misplaced

/-- Resolve a tree as a statement. -/
def resolve (table : SymbolTable) (node : Node) :
    Except ForeignError (Statement Int × SymbolTable) := do
  let statement : Statement (Foreign String) ← node.toStatement
  statement.resolveWith
    (fun table r => do
      let name ← r
      (table.declare name).mapError .name)
    (fun table r => do
      let name ← r
      (table.slotOf name).mapError .name)
    table

/-- Carry out a tree as a statement. -/
def execute (table : SymbolTable) (node : Node) :
    Interaction (Except ForeignError SymbolTable) :=
  match (node.toStatement : Except ForeignError (Statement (Foreign Int))) with
  | .error e => return .error e
  | .ok statement =>
      statement.executeWith
        (fun table e => e.evaluate
          (fun r => do
            let slot ← r
            (table.valueAt slot).mapError .run)
          (fun op x y => (op.apply x y).mapError .run))
        (fun table r x => do
          let slot ← r
          (table.store slot x).mapError .run)
        table

end Node

/-- Resolve a program that was handed over. -/
def resolveForeign (table : SymbolTable) (program : List Node) : Resolution ForeignError :=
  resolveAll Node.resolve table program

/-- Carry out a program that was handed over. -/
def executeForeign (debug : Bool) (table : SymbolTable) (program : List Node) :
    Interaction (SymbolTable × Option ForeignError) :=
  executeAll debug Node.inline Node.execute table program

end Calc
