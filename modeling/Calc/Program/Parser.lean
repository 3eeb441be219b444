/-
# Reading programs

A program text is read from left to right without going back over a statement
that was recognised: as many statements as possible are taken from the front,
and what follows the last token of the last one is left over. Separators may
stand before every token. A chain takes an operator only together with the
operand after it. A parenthesis that is not closed, or holds no expression, is no
factor, so that the chain around it ends before the operator in front of it.

Parentheses may be nested up to `maxDepth`. A text that opens more of them at
once is refused as a whole, even where a deeper level would turn out to be
malformed.
-/

import Calc.Number.Numeral
import Calc.Program.Statement
import Calc.Text.Blank

namespace Calc

open Text (skipSeparators skipSeparators_length_le)

/-- How many parentheses may be open at once. The exact limit is no part of the language: it
comes from the room for nested calls. Fixed is only that 300 parentheses can be open and 2500
cannot. So the limit is a round number in between, and nothing else about it is used than
`le_maxDepth` and `maxDepth_lt`. -/
def maxDepth : Nat := 1000

theorem le_maxDepth : 300 ≤ maxDepth := by decide

theorem maxDepth_lt : maxDepth < 2500 := by decide

/-- Too many parentheses are open at once. -/
inductive TooDeep where
  | tooDeep

/-- Something read from the front of a text, and what is left of the text: at
least one character less. -/
structure Parsed (α : Type) (text : List Char) where
  value : α
  rest : List Char
  shorter : rest.length < text.length

/-- Reads something from the front of a text, if the text starts with it. -/
abbrev Parser (α : Type) := (text : List Char) → Except TooDeep (Option (Parsed α text))

namespace Parsed

variable {α β : Type} {text : List Char}

/-- What was read, seen as something else. -/
def map (f : α → β) (p : Parsed α text) : Parsed β text :=
  ⟨f p.value, p.rest, p.shorter⟩

/-- What was read after something else had been. -/
def after (p : Parsed α text) (q : Parsed β p.rest) : Parsed β text :=
  ⟨q.value, q.rest, Nat.lt_trans q.shorter p.shorter⟩

end Parsed

namespace Parser

/-! ## Tokens -/

/-- A character of a certain kind, which may stand behind separators. -/
def character? {α : Type} (kind : Char → Option α) (text : List Char) :
    Option (Parsed α text) :=
  match h : skipSeparators text with
  | [] => none
  | c :: rest =>
      (kind c).map fun value => ⟨value, rest, by
        have le := skipSeparators_length_le text
        rw [h] at le
        exact le⟩

/-- The given character. -/
def mark? (expected : Char) : (text : List Char) → Option (Parsed Unit text) :=
  character? fun c => if c = expected then some () else none

/-- A name: as many ASCII letters as there are, and at least one. -/
def name? (text : List Char) : Option (Parsed String text) :=
  match h : (skipSeparators text).takeWhile Char.isAlpha with
  | [] => none
  | c :: cs =>
      some ⟨String.ofList (c :: cs), (skipSeparators text).dropWhile Char.isAlpha, by
        have parts := congrArg List.length
          (List.takeWhile_append_dropWhile (p := Char.isAlpha) (l := skipSeparators text))
        have le := skipSeparators_length_le text
        rw [List.length_append, h, List.length_cons] at parts
        omega⟩

/-- A number: the longest numeral there. -/
def number? (text : List Char) : Option (Parsed Float text) :=
  match h : Numeral.scan (skipSeparators text) with
  | none => none
  | some (numeral, rest) =>
      some ⟨numeral.toFloat, rest,
        Nat.lt_of_lt_of_le (Numeral.scan_length_lt h) (skipSeparators_length_le text)⟩

/-- The mark of an assignment, whose two characters stand together. -/
def assign? (text : List Char) : Option (Parsed Unit text) :=
  match h : skipSeparators text with
  | ':' :: '=' :: rest => some ⟨(), rest, by
      have le := skipSeparators_length_le text
      rw [h] at le
      exact Nat.lt_of_succ_lt le⟩
  | _ => none

/-! ## Expressions -/

/-- A factor, given how the inside of parentheses is read. A name is tried first,
then a number, then a parenthesis. -/
def factor (inside : Parser (Expr String .expression)) :
    Parser (Expr String .factor) := fun text =>
  match name? text with
  | some name => .ok (some (name.map .ref))
  | none =>
      match number? text with
      | some number => .ok (some (number.map .literal))
      | none =>
          match mark? '(' text with
          | none => .ok none
          | some opening =>
              match inside opening.rest with
              | .error e => .error e
              | .ok none => .ok none
              | .ok (some inner) =>
                  match mark? ')' inner.rest with
                  | none => .ok none
                  | some closing =>
                      let group := closing.map fun _ => Expr.group inner.value
                      .ok (some ((opening.after inner).after group))

/-- Extend a chain by as many operators and operands as follow it. -/
def chain {α β : Type} {text : List Char} (operator? : Char → Option Operator)
    (operand : Parser β) (join : α → Operator → β → α) (start : Parsed α text) :
    Except TooDeep (Parsed α text) :=
  match character? operator? start.rest with
  | none => .ok start
  | some op =>
      match operand op.rest with
      | .error e => .error e
      | .ok none => .ok start
      | .ok (some right) =>
          chain operator? operand join
            (start.after (op.after (right.map fun b => join start.value op.value b)))
termination_by start.rest.length
decreasing_by exact Nat.lt_trans right.shorter op.shorter

/-- A term, given how a factor is read. -/
def term (factor : Parser (Expr String .factor)) : Parser (Expr String .term) := fun text =>
  match factor text with
  | .error e => .error e
  | .ok none => .ok none
  | .ok (some first) =>
      (chain Operator.multiplicative? factor .product (first.map .factor)).map some

/-- An expression, given how a term is read. -/
def expressionOf (term : Parser (Expr String .term)) :
    Parser (Expr String .expression) := fun text =>
  match term text with
  | .error e => .error e
  | .ok none => .ok none
  | .ok (some first) =>
      (chain Operator.additive? term .sum (first.map .term)).map some

/-- An expression in which at most the given number of parentheses are open at
once. -/
def expression : Nat → Parser (Expr String .expression)
  | 0 => expressionOf (term (factor fun _ => .error .tooDeep))
  | depth + 1 => expressionOf (term (factor (expression depth)))

/-! ## Statements -/

/-- The text of a name behind the given mark. -/
def markedName? (mark : Char) (text : List Char) : Option (Parsed String text) :=
  match mark? mark text with
  | none => none
  | some opening => (name? opening.rest).map opening.after

/-- One statement, in whose expressions at most the given number of parentheses
are open at once. The mark or the name that it starts with tells its kind. -/
def statement (depth : Nat) : Parser (Statement String) := fun text =>
  match markedName? '@' text with
  | some name => .ok (some (name.map .declaration))
  | none =>
  match markedName? '>' text with
  | some name => .ok (some (name.map .input))
  | none =>
  match mark? '<' text with
  | some opening =>
      match expression depth opening.rest with
      | .error e => .error e
      | .ok none => .ok none
      | .ok (some value) => .ok (some (opening.after (value.map .output)))
  | none =>
  match name? text with
  | none => .ok none
  | some target =>
  match assign? target.rest with
  | none => .ok none
  | some assign =>
  match expression depth assign.rest with
  | .error e => .error e
  | .ok none => .ok none
  | .ok (some value) =>
      let assignment := value.map (Statement.assignment target.value)
      .ok (some (target.after (assign.after assignment)))

/-- As many statements as a text starts with, and what is left of the text. -/
def statements (depth : Nat) (text : List Char) :
    Except TooDeep (Program String × List Char) :=
  match statement depth text with
  | .error e => .error e
  | .ok none => .ok ([], text)
  | .ok (some first) =>
      match statements depth first.rest with
      | .error e => .error e
      | .ok (others, rest) => .ok (first.value :: others, rest)
termination_by text.length
decreasing_by exact first.shorter

end Parser

/-- The statements that a text starts with, and the text that is left over. -/
def Program.ofText (text : String) : Except TooDeep (Program String × String) :=
  match Parser.statements maxDepth text.toList with
  | .error e => .error e
  | .ok (program, rest) => .ok (program, String.ofList rest)

end Calc
