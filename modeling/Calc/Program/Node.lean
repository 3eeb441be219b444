/-
# Shown trees

A program is shown, in full on one line or as an indented outline, as a tree of
nodes with labels and fields. A node is either of a program text or of a
resolved program, and nothing keeps nodes of the two stages from being mixed: a
`Node` is whatever tree can be shown, or handed over by another program, while
the trees that the language works on are `Statement` and `Expr`.
-/

import Calc.Number.Layout
import Calc.Program.Statement
import Calc.Text.Quoted

namespace Calc

/-- A variable as a program text names it, or by its slot in the symbol table. -/
inductive Variable where
  | name (name : String)
  | slot (slot : Int)
  deriving DecidableEq, Repr

/-- Whether a node is part of a program text or of a resolved program. -/
inductive Stage where
  | named
  | resolved
  deriving DecidableEq, Repr

/-- The two kinds of chains. -/
inductive ChainKind where
  | term
  | expression
  deriving DecidableEq, Repr

/-- A node of a shown tree. -/
inductive Node where
  | identifier (subject : Variable)
  | literal (stage : Stage) (value : Float)
  | group (stage : Stage) (inner : Node)
  | chain (kind : ChainKind) (stage : Stage) (first : Node) (rest : List (String × Node))
  | declaration (target : Variable)
  | input (target : Variable)
  | output (stage : Stage) (value : Node)
  | assignment (target : Variable) (value : Node)

/-- A variable is part of a program text exactly when it is given by name. -/
def Variable.stage : Variable → Stage
  | .name _ => .named
  | .slot _ => .resolved

/-- The value of a variable's only field. -/
def Variable.text : Variable → String
  | .name n => Text.quoted n
  | .slot i => toString i

/-- The name of a variable's only field. -/
def Variable.field : Variable → String
  | .name _ => "name"
  | .slot _ => "slot"

namespace Node

/-- The stage that a node is marked with. -/
def stage : Node → Stage
  | .identifier subject => subject.stage
  | .literal stage _ => stage
  | .group stage _ => stage
  | .chain _ stage _ _ => stage
  | .declaration target => target.stage
  | .input target => target.stage
  | .output stage _ => stage
  | .assignment target _ => target.stage

/-- The label of a node in a program text. -/
def baseLabel : Node → String
  | .identifier _ => "Identifier"
  | .literal _ _ => "Literal"
  | .group _ _ => "SubExpression"
  | .chain .term _ _ _ => "Term"
  | .chain .expression _ _ _ => "Expression"
  | .declaration _ => "Declaration"
  | .input _ => "Input"
  | .output _ _ => "Output"
  | .assignment _ _ => "Assignment"

/-- The label of a node. -/
def label (node : Node) : String :=
  match node.stage with
  | .named => node.baseLabel
  | .resolved => "Resolved" ++ node.baseLabel

/-- Items in parentheses; a single item is followed by a comma. -/
def tuple : List String → String
  | [] => "()"
  | [item] => "(" ++ item ++ ",)"
  | items => "(" ++ ", ".intercalate items ++ ")"

/-- A node on one line, given its fields. -/
def withFields (node : Node) (fields : String) : String :=
  node.label ++ "(" ++ fields ++ ")"

/-- The field of a node that holds a variable. -/
def variableField (subject : Variable) : String :=
  subject.field ++ "=" ++ subject.text

mutual

/-- A tree on one line, with the names of all fields. -/
def inline : Node → String
  | node@(.identifier subject) => node.withFields (variableField subject)
  | node@(.literal _ value) => node.withFields ("value=" ++ Layout.tree.render value)
  | node@(.group _ inner) => node.withFields ("expression=" ++ inline inner)
  | node@(.chain _ _ first rest) =>
      node.withFields ("first=" ++ inline first ++ ", rest=" ++ tuple (pairs rest))
  | node@(.declaration target) => node.withFields (variableField target)
  | node@(.input target) => node.withFields (variableField target)
  | node@(.output _ value) => node.withFields ("expression=" ++ inline value)
  | node@(.assignment target value) =>
      node.withFields (variableField target ++ ", expression=" ++ inline value)
termination_by structural node => node

/-- The operators and operands of a chain, each pair on one line. -/
def pairs : List (String × Node) → List String
  | [] => []
  | (op, operand) :: rest => tuple [Text.quoted op, inline operand] :: pairs rest
termination_by structural rest => rest

end

/-- The line of a node in an outline: its label, and in parentheses the value
of its first field unless that is a node. -/
def header (node : Node) : String :=
  match node with
  | .identifier subject => node.label ++ "(" ++ subject.text ++ ")"
  | .literal _ value => node.label ++ "(" ++ Layout.tree.render value ++ ")"
  | .declaration target => node.label ++ "(" ++ target.text ++ ")"
  | .input target => node.label ++ "(" ++ target.text ++ ")"
  | .assignment target _ => node.label ++ "(" ++ target.text ++ ")"
  | .group _ _ | .chain _ _ _ _ | .output _ _ => node.label

mutual

/-- The lines below the line of a node in its outline, each with its indentation. -/
def linesBelow (indent : Int) : Node → List (Int × String)
  | .identifier _ | .literal _ _ | .declaration _ | .input _ => []
  | .group _ inner => (indent + 1, inner.header) :: linesBelow (indent + 1) inner
  | .chain _ _ first rest =>
      (indent + 1, first.header) :: linesBelow (indent + 1) first ++ operandLines (indent + 1) rest
  | .output _ value => (indent + 1, value.header) :: linesBelow (indent + 1) value
  | .assignment _ value => (indent + 1, value.header) :: linesBelow (indent + 1) value
termination_by structural node => node

/-- The lines of the operands of a chain, each marked with its operator. -/
def operandLines (indent : Int) : List (String × Node) → List (Int × String)
  | [] => []
  | (op, operand) :: rest =>
      (indent, op ++ " " ++ operand.header) :: linesBelow indent operand ++ operandLines indent rest
termination_by structural rest => rest

end

/-- A line of an outline: two spaces for every step of indentation. -/
def outlineLine (line : Int × String) : String :=
  "".pushn ' ' (2 * line.1.toNat) ++ line.2 ++ "\n"

/-- The outline of a tree, its first line indented and marked as given. -/
def outline (node : Node) (indent : Int) (mark : String) : String :=
  String.join (((indent, mark ++ node.header) :: linesBelow indent node).map outlineLine)

end Node

/-- References that can be shown. -/
class Reference (ρ : Type) where
  /-- the stage of the programs with such references -/
  stage : Stage
  /-- what a reference is shown as -/
  subject : ρ → Variable
  /-- the reference that is shown in a given way -/
  ofSubject? : Variable → Option ρ

instance : Reference String where
  stage := .named
  subject := .name
  ofSubject?
    | .name n => some n
    | .slot _ => none

instance : Reference Int where
  stage := .resolved
  subject := .slot
  ofSubject?
    | .name _ => none
    | .slot i => some i

variable {ρ : Type} [Reference ρ]

/-- The tree that an expression is shown as, followed in its chain by the given
operators and operands. -/
def Expr.nodeBefore : {level : Level} → Expr ρ level → List (String × Node) → Node
  | _, .ref r, _ => .identifier (Reference.subject r)
  | _, .literal value, _ => .literal (Reference.stage ρ) value
  | _, .group inner, _ => .group (Reference.stage ρ) (inner.nodeBefore [])
  | _, .factor f, rest => .chain .term (Reference.stage ρ) (f.nodeBefore []) rest
  | _, .product t op f, rest => t.nodeBefore ((op.symbol, f.nodeBefore []) :: rest)
  | _, .term t, rest => .chain .expression (Reference.stage ρ) (t.nodeBefore []) rest
  | _, .sum e op t, rest => e.nodeBefore ((op.symbol, t.nodeBefore []) :: rest)

/-- The tree that an expression is shown as. -/
def Expr.toNode {level : Level} (e : Expr ρ level) : Node :=
  e.nodeBefore []

/-- The tree that a statement is shown as. -/
def Statement.toNode : Statement ρ → Node
  | .declaration target => .declaration (Reference.subject target)
  | .input target => .input (Reference.subject target)
  | .output value => .output (Reference.stage ρ) value.toNode
  | .assignment target value => .assignment (Reference.subject target) value.toNode

/-- The outline of a program, statement after statement. -/
def Program.outline (program : Program ρ) : String :=
  String.join (program.map fun statement => statement.toNode.outline 0 "")

end Calc
