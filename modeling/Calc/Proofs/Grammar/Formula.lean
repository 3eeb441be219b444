/-
# Formulas

A formula is a tree: every operator has the two formulas that it joins. In a text the
tree has to be recovered from the order of the tokens, from how tightly operators bind,
and from parentheses. Multiplication and division bind more tightly than addition and
subtraction, and operators that bind alike are joined from the left.

A formula may be written with parentheses wherever one likes, and has to be written
with them where the tree could not be recovered otherwise: around an operand that binds
less tightly than its operator, and around a right operand that binds no more tightly.
Expressions, whose chains are flat, are a second way to look at such texts. Whatever
tokens a formula is written with are those of an expression, and this has the value of
the formula under every interpretation of the operators.
-/

import Calc.Proofs.Grammar.Spelling
import Calc.Proofs.Resolution.Occurrences

namespace Calc

/-- A tree of operators over variables and numbers. -/
inductive Formula where
  | ref (name : String)
  | literal (value : Float)
  | node (op : Operator) (left right : Formula)

/-- How tightly an operator binds. -/
def Operator.binding : Operator → Nat
  | multiply => 2
  | divide => 2
  | _ => 1

/-- What an operator is written as. An operator that the language does not know has no
word, so that no text is made of it. -/
def Operator.token : Operator → Token
  | multiply => .multiplicative multiply
  | divide => .multiplicative divide
  | op => .additive op

namespace Formula

/-- How tightly the parts of a formula are held together. -/
def binding : Formula → Nat
  | ref _ => 3
  | literal _ => 3
  | node op _ _ => op.binding

/-- The names in a formula, from left to right. -/
def names : Formula → List String
  | ref name => [name]
  | literal _ => []
  | node _ left right => left.names ++ right.names

/-- The value of a formula. Each operator is applied once, to the values of its two
operands, of which the left one is computed first. -/
def evaluate {ε : Type} (value : String → Except ε Float)
    (apply : Operator → Float → Float → Except ε Float) : Formula → Except ε Float
  | ref name => value name
  | literal x => return x
  | node op left right => do
      let x ← left.evaluate value apply
      let y ← right.evaluate value apply
      apply op x y

end Formula

/-- The tokens in some pairs of parentheses. -/
def enclose (pairs : Nat) (tokens : List Token) : List Token :=
  List.replicate pairs .opening ++ (tokens ++ List.replicate pairs .closing)

/-- The tokens that a formula may be written with, parentheses around all of it left
out. There is at least one pair of parentheses around an operand where the tree would
be another one without it. -/
inductive Formula.WrittenAs : Formula → List Token → Prop
  | ref (name : String) : WrittenAs (.ref name) [.name name]
  | literal (x : Float) : WrittenAs (.literal x) [.number x]
  | node {op : Operator} {left right : Formula} {before behind : List Token}
      {leftPairs rightPairs : Nat} (leftWritten : WrittenAs left before)
      (rightWritten : WrittenAs right behind)
      (leftGrouped : left.binding < op.binding → 0 < leftPairs)
      (rightGrouped : right.binding ≤ op.binding → 0 < rightPairs) :
      WrittenAs (.node op left right)
        (enclose leftPairs before ++ op.token :: enclose rightPairs behind)

/-- A text spells a formula if it is made of the words of such tokens, in any pairs of
parentheses, with gaps in front of any word and blanks behind the last one. -/
def Formula.SpelledBy (formula : Formula) (text : String) : Prop :=
  ∃ pairs tokens body blank, formula.WrittenAs tokens ∧ text.toList = body ++ blank ∧
    Written (enclose pairs tokens) body ∧ ∀ c ∈ blank, Text.isBlank c = true

/-! ## Formulas and expressions -/

/-- An expression stands for a formula if it has its names and its value, however
operators are interpreted. -/
structure Expr.StandsFor {level : Level} (e : Expr String level) (formula : Formula) :
    Prop where
  refs : e.refs = formula.names
  evaluate : ∀ {ε : Type} (value : String → Except ε Float)
    (apply : Operator → Float → Float → Except ε Float),
    e.evaluate value apply = formula.evaluate value apply

/-- How tightly at least the parts of an operand of the given level are held together. -/
def Level.binding : Level → Nat
  | .factor => 3
  | .term => 2
  | .expression => 1

/-- The tokens are those of an expression of the given level that stands for the
formula. -/
def Formula.ReadAs (level : Level) (formula : Formula) (tokens : List Token) : Prop :=
  ∃ e : Expr String level, e.tokens = tokens ∧ e.StandsFor formula

namespace Formula

variable {formula left right : Formula} {tokens before behind : List Token} {op : Operator}

theorem ReadAs.term (h : ReadAs .factor formula tokens) : ReadAs .term formula tokens := by
  obtain ⟨f, htokens, hstands⟩ := h
  exact ⟨.factor f, htokens, hstands.refs, hstands.evaluate⟩

theorem ReadAs.expression (h : ReadAs .term formula tokens) :
    ReadAs .expression formula tokens := by
  obtain ⟨t, htokens, hstands⟩ := h
  exact ⟨.term t, htokens, hstands.refs, hstands.evaluate⟩

/-- A factor is also a term and an expression. -/
theorem ReadAs.of_factor (h : ReadAs .factor formula tokens) (level : Level) :
    ReadAs level formula tokens := by
  cases level with
  | factor => exact h
  | term => exact h.term
  | expression => exact h.term.expression

/-- Parentheses make a factor of an expression. -/
theorem ReadAs.group (h : ReadAs .expression formula tokens) :
    ReadAs .factor formula (enclose 1 tokens) := by
  obtain ⟨e, rfl, hstands⟩ := h
  exact ⟨.group e, rfl, hstands.refs, hstands.evaluate⟩

theorem enclose_succ (pairs : Nat) (tokens : List Token) :
    enclose (pairs + 1) tokens = enclose 1 (enclose pairs tokens) := by
  rw [enclose, List.replicate_succ, List.replicate_succ']
  simp [enclose]

/-- So do more pairs of them. -/
theorem ReadAs.enclosed (h : ReadAs .expression formula tokens) (pairs : Nat) :
    ReadAs .factor formula (enclose (pairs + 1) tokens) := by
  induction pairs with
  | zero => exact h.group
  | succ pairs ih =>
      rw [enclose_succ]
      exact (ih.of_factor .expression).group

/-- An operand has the level that it is wanted at if it is held together tightly enough
or is in parentheses. -/
theorem ReadAs.operand {pairs : Nat}
    (h : ∀ level : Level, level.binding ≤ formula.binding → ReadAs level formula tokens)
    (level : Level) (grouped : formula.binding < level.binding → 0 < pairs)
    (hexpression : 1 ≤ formula.binding) : ReadAs level formula (enclose pairs tokens) := by
  cases pairs with
  | zero =>
      have hlevel : level.binding ≤ formula.binding := by
        by_contra hless
        exact absurd (grouped (by omega)) (Nat.lt_irrefl 0)
      simpa [enclose] using h level hlevel
  | succ pairs => exact ((h .expression hexpression).enclosed pairs).of_factor level

theorem one_le_binding (formula : Formula) : 1 ≤ formula.binding := by
  cases formula with
  | ref name => simp [binding]
  | literal x => simp [binding]
  | node op left right => cases op <;> simp [binding, Operator.binding]

/-- A factor is joined to the term in front of it. -/
theorem ReadAs.product (hop : op.token = .multiplicative op) (hleft : ReadAs .term left before)
    (hright : ReadAs .factor right behind) :
    ReadAs .term (.node op left right) (before ++ op.token :: behind) := by
  obtain ⟨t, rfl, hstands⟩ := hleft
  obtain ⟨f, rfl, hstands'⟩ := hright
  refine ⟨.product t op f, by rw [Expr.tokens, hop], ?_, fun value apply => ?_⟩
  · rw [Expr.refs, hstands.refs, hstands'.refs, names]
  · rw [Expr.evaluate, hstands.evaluate, hstands'.evaluate, evaluate]

/-- A term is joined to the expression in front of it. -/
theorem ReadAs.sum (hop : op.token = .additive op) (hleft : ReadAs .expression left before)
    (hright : ReadAs .term right behind) :
    ReadAs .expression (.node op left right) (before ++ op.token :: behind) := by
  obtain ⟨e, rfl, hstands⟩ := hleft
  obtain ⟨t, rfl, hstands'⟩ := hright
  refine ⟨.sum e op t, by rw [Expr.tokens, hop], ?_, fun value apply => ?_⟩
  · rw [Expr.refs, hstands.refs, hstands'.refs, names]
  · rw [Expr.evaluate, hstands.evaluate, hstands'.evaluate, evaluate]

/-- Whatever a formula is written as can be read at every level that binds no more
tightly. The induction is over the formula: an operator is read at its own level, its
left operand too, and its right operand at the next tighter one. -/
theorem WrittenAs.readAs (h : WrittenAs formula tokens) :
    ∀ level : Level, level.binding ≤ formula.binding → ReadAs level formula tokens := by
  induction h with
  | ref name =>
      have hfactor : ReadAs .factor (.ref name) _ := ⟨.ref name, rfl, rfl, fun _ _ => rfl⟩
      exact fun level _ => hfactor.of_factor level
  | literal x =>
      have hfactor : ReadAs .factor (.literal x) _ := ⟨.literal x, rfl, rfl, fun _ _ => rfl⟩
      exact fun level _ => hfactor.of_factor level
  | @node op left right before behind leftPairs rightPairs _ _ leftGrouped rightGrouped
      ihleft ihright =>
      intro level hlevel
      have hbindings : op.binding = 2 ∧ op.token = .multiplicative op ∨
          op.binding = 1 ∧ op.token = .additive op := by
        cases op <;> simp [Operator.binding, Operator.token]
      rcases hbindings with ⟨hbinding, hop⟩ | ⟨hbinding, hop⟩
      · have hterm : ReadAs .term (.node op left right) _ := ReadAs.product hop
          (ReadAs.operand ihleft .term (hbinding ▸ leftGrouped) left.one_le_binding)
          (ReadAs.operand ihright .factor
            (fun hless => rightGrouped (by rw [hbinding]; exact Nat.le_of_lt_succ hless))
            right.one_le_binding)
        cases level with
        | factor => exact absurd (hlevel.trans_eq hbinding) (by decide)
        | term => exact hterm
        | expression => exact hterm.expression
      · have hexpression : ReadAs .expression (.node op left right) _ := ReadAs.sum hop
          (ReadAs.operand ihleft .expression (hbinding ▸ leftGrouped) left.one_le_binding)
          (ReadAs.operand ihright .term
            (fun hless => rightGrouped (by rw [hbinding]; exact Nat.le_of_lt_succ hless))
            right.one_le_binding)
        cases level with
        | factor => exact absurd (hlevel.trans_eq hbinding) (by decide)
        | term => exact absurd (hlevel.trans_eq hbinding) (by decide)
        | expression => exact hexpression

/-- The tokens of a formula in any pairs of parentheses are those of an expression with
its value. -/
theorem WrittenAs.exists_expression (h : WrittenAs formula tokens) (pairs : Nat) :
    ∃ e : Expr String .expression, e.tokens = enclose pairs tokens ∧ e.StandsFor formula :=
  ReadAs.operand h.readAs .expression
    (fun hless => absurd formula.one_le_binding (Nat.not_le_of_lt hless)) formula.one_le_binding

end Formula

end Calc
