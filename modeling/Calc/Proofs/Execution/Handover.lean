/-
# Programs handed over as their own trees

A program can be handed over as the trees that it is shown as. If all its operators
are operators of the language, these trees are understood as the program itself: no
node is misplaced, no chain is without operands and no operator is unknown. Resolving
the trees and carrying them out is then the same as doing it with the program, and
fails only where that fails.
-/

import Calc.Program.Foreign
import Calc.Proofs.Execution.Interpreter
import Calc.Proofs.Execution.Naturality

namespace Calc

theorem Operator.Known.ofSymbol_symbol {op : Operator} (h : op.Known) :
    Operator.ofSymbol op.symbol = op := by
  cases op with
  | unknown symbol => exact absurd rfl (h symbol)
  | _ => rfl

/-! ## Reading trees back -/

section Trees

variable {ρ : Type} [Reference ρ]

/-- References are understood as what they are shown as. -/
class LawfulReference (ρ : Type) [Reference ρ] : Prop where
  ofSubject?_subject : ∀ r : ρ, Reference.ofSubject? (Reference.subject r) = some r

instance : LawfulReference String := ⟨fun _ => rfl⟩

instance : LawfulReference Int := ⟨fun _ => rfl⟩

variable [LawfulReference ρ]

/-- An expression of some level, extended by the operators and operands that follow it
in its chain. -/
def Expr.extendBy : {level : Level} → Expr (Foreign ρ) level → List (String × Node) →
    Expr (Foreign ρ) level
  | .factor, f, _ => f
  | .term, t, rest => (Node.operands .factor rest).foldl Node.joinTerm t
  | .expression, e, rest => (Node.operands .term rest).foldl Node.joinExpression e

/-- The tree of an expression is understood as the expression. -/
theorem Expr.toExpr_nodeBefore {level : Level} (e : Expr ρ level) (h : e.Arithmetic)
    (rest : List (String × Node)) :
    Node.toExpr level (e.nodeBefore rest) = (e.map Except.ok).extendBy rest := by
  induction e generalizing rest with
  | ref r => rw [nodeBefore, Node.toExpr, LawfulReference.ofSubject?_subject]; rfl
  | literal value => rw [nodeBefore, Node.toExpr, if_pos rfl]; rfl
  | group inner ih => rw [nodeBefore, Node.toExpr, if_pos rfl, ih h]; rfl
  | factor f ih => rw [nodeBefore, Node.toExpr, ih h]; rfl
  | term t ih => rw [nodeBefore, Node.toExpr, ih h]; rfl
  | product t op f iht ihf =>
      rw [nodeBefore, iht h.1, extendBy, Node.operands, ihf h.2.2, h.2.1.ofSymbol_symbol]
      rfl
  | sum e op t ihe iht =>
      rw [nodeBefore, ihe h.1, extendBy, Node.operands, iht h.2.2, h.2.1.ofSymbol_symbol]
      rfl

theorem Expr.toExpr_toNode {level : Level} (e : Expr ρ level) (h : e.Arithmetic) :
    Node.toExpr level e.toNode = e.map Except.ok := by
  rw [toNode, e.toExpr_nodeBefore h]
  cases level <;> rfl

/-- The tree of a statement is understood as the statement. -/
theorem Statement.toStatement_toNode (statement : Statement ρ) (h : statement.Arithmetic) :
    statement.toNode.toStatement = .ok (statement.map Except.ok) := by
  cases statement with
  | declaration target =>
      simp only [toNode, Node.toStatement, LawfulReference.ofSubject?_subject]
      rfl
  | input target =>
      simp only [toNode, Node.toStatement, LawfulReference.ofSubject?_subject]
      rfl
  | output value =>
      simp only [toNode, Node.toStatement, value.toExpr_toNode h]
      rfl
  | assignment target value =>
      simp only [toNode, Node.toStatement, LawfulReference.ofSubject?_subject,
        value.toExpr_toNode h]
      rfl

end Trees

/-! ## Resolving and carrying out -/

/-- A statement handed over as its tree is resolved like the statement. -/
theorem Statement.resolve_toNode (table : SymbolTable) (statement : Statement String)
    (h : statement.Arithmetic) :
    statement.toNode.resolve table = (statement.resolve table).mapError .name := by
  have hsame : statement.toNode.resolve table =
      ((statement.resolve table).map (Prod.map id id)).mapError ForeignError.name := by
    rw [Node.resolve, statement.toStatement_toNode h]
    refine (pure_bind _ _).trans (resolveWith_map Except.ok ForeignError.name id
      (fun name => ?_) (fun name => ?_) statement)
    · rw [except_map_prod_id]
      rfl
    · rfl
  rwa [except_map_prod_id] at hsame

/-- A statement handed over as its tree is carried out like the statement. -/
theorem Statement.execute_toNode (table : SymbolTable) (statement : Statement Int)
    (h : statement.Arithmetic) :
    statement.toNode.execute table = (do
      let outcome ← statement.execute table
      return outcome.mapError .run) := by
  have hsame : statement.toNode.execute table = (do
      let outcome ← statement.execute table
      return (outcome.map id).mapError ForeignError.run) := by
    rw [Node.execute, statement.toStatement_toNode h]
    refine executeWith_map Except.ok ForeignError.run id (fun e => ?_) (fun slot x => ?_) statement
    · rw [Expr.evaluate_map, Expr.value, ← Expr.evaluate_mapError]
      rfl
    · rw [except_map_id]
      rfl
  simpa only [except_map_id] using hsame

/-- A program handed over as its trees is resolved like the program. -/
theorem Program.resolveForeign_toNode (table : SymbolTable) (program : Program String)
    (h : ∀ s ∈ program, s.Arithmetic) :
    resolveForeign table (program.map Statement.toNode) =
      { resolved := (Program.resolve table program).resolved
        table := (Program.resolve table program).table
        error := (Program.resolve table program).error.map .name } := by
  refine resolveAll_map Statement.toNode ForeignError.name id (fun statement hmem table => ?_) table
  rw [except_map_prod_id]
  exact statement.resolve_toNode table (h statement hmem)

/-- A program handed over as its trees is carried out like the program. -/
theorem Program.executeForeign_toNode (debug : Bool) (table : SymbolTable)
    (program : Program Int) (h : ∀ s ∈ program, s.Arithmetic) :
    executeForeign debug table (program.map Statement.toNode) = (do
      let (final, fault) ← Program.execute debug table program
      return (final, fault.map .run)) := by
  refine executeAll_map Statement.toNode ForeignError.run id (fun statement _ => rfl)
    (fun statement hmem table => ?_) table
  simp only [except_map_id]
  exact statement.execute_toNode table (h statement hmem)

end Calc
