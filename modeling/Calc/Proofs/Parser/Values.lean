/-
# Where a statement looks for its value

Two kinds of statements hold an expression. What stands in front of it tells the kind, and
how such a statement is read then depends on the expression alone: it is read to where the
expression ends, and it is nested too deeply if the expression is.
-/

import Calc.Proofs.Grammar.Follow
import Calc.Proofs.Parser.Tokens

namespace Calc

open Text

namespace Parser

/-- The reader takes the value from the front of the text and leaves the rest. -/
def Returns {α : Type} (reader : Parser α) (text : List Char) (value : α)
    (rest : List Char) : Prop :=
  ∃ shorter, reader text = .ok (some ⟨value, rest, shorter⟩)

/-! ## Marks -/

/-- A mark is not read where the first word starts with another character. -/
theorem mark?_eq_none_of_written {mark : Char} {token : Token} {tokens : List Token}
    {body : List Char} (hwritten : Written (token :: tokens) body)
    (hother : ∀ {c tail}, token.Word (c :: tail) → c ≠ mark) (rest : List Char) :
    mark? mark (body ++ rest) = none := by
  obtain ⟨gap, word, later, rfl, separators, spelled, -⟩ := hwritten.uncons
  obtain ⟨c, tail, rfl, hsep⟩ := spelled.head
  refine mark?_eq_none ?_
  rw [List.append_assoc, skipSeparators_gap_append separators (by simpa using hsep)]
  simpa using hother spelled

theorem markedName?_eq_none {mark : Char} {text : List Char} (h : mark? mark text = none) :
    markedName? mark text = none := by
  unfold markedName?
  rw [h]

/-- Different marks do not stand at the same place. -/
theorem mark?_eq_none_of_mark? {mark other : Char} {text : List Char} {opening : Parsed Unit text}
    (h : mark? mark text = some opening) (hsep : isSeparator mark = false) (hne : mark ≠ other) :
    mark? other text = none := by
  rcases mark?_sound h with ⟨gap, hgap, htext⟩
  apply mark?_eq_none
  rw [htext, skipSeparators_gap_append hgap (by simpa using hsep)]
  simpa using hne

/-- Nor does a mark where a name stands. -/
theorem mark?_eq_none_of_name? {mark : Char} {text : List Char} {target : Parsed String text}
    (h : name? text = some target) (hmark : mark.isAlpha = false) : mark? mark text = none := by
  rcases name?_reads h with ⟨body, htext, hwritten, -⟩
  generalize target.value = name at hwritten
  rw [htext]
  apply mark?_eq_none_of_written hwritten
  intro c tail hword
  generalize hletters : c :: tail = letters at hword
  cases hword with
  | name given alphabetic =>
      exact ne_of_isAlpha (alphabetic c (by simp [← hletters])) hmark

/-! ## Expressions of statements -/

/-- The reader of the statement that a text starts with looks for an expression at the
place, and makes the statement of it. -/
inductive ValueAt (text : List Char) :
    (Expr String .expression → Statement String) → List Char → Prop
  | output {opening : Parsed Unit text} (mark : mark? '<' text = some opening) :
      ValueAt text .output opening.rest
  | assignment {target : Parsed String text} {assign : Parsed Unit target.rest}
      (name : name? text = some target) (mark : assign? target.rest = some assign) :
      ValueAt text (.assignment target.value) assign.rest

section Statement

variable {make : Expr String .expression → Statement String} {depth : Nat}
  {text position rest : List Char} {e : TooDeep}

theorem ValueAt.suffix (h : ValueAt text make position) : position <:+ text := by
  cases h with
  | output hmark => exact character?_suffix hmark
  | assignment hname hassign =>
      exact (assign?_reads hassign).suffix.trans (name?_reads hname).suffix

/-- A statement is read as its expression is, and ends where this ends. -/
theorem ValueAt.statement_eq (h : ValueAt text make position) :
    ∃ shorter : position.length < text.length, ∀ depth, statement depth text =
      (expression depth position).map (Option.map fun found =>
        ⟨make found.value, found.rest, Nat.lt_trans found.shorter shorter⟩) := by
  cases h with
  | @output opening hmark =>
      have hdeclare : mark? '@' text = none := mark?_eq_none_of_mark? hmark rfl (by decide)
      have hread : mark? '>' text = none := mark?_eq_none_of_mark? hmark rfl (by decide)
      refine ⟨opening.shorter, ?_⟩
      intro depth
      rw [statement, markedName?_eq_none hdeclare, markedName?_eq_none hread, hmark]
      dsimp only
      rcases expression depth opening.rest with e | (_ | value) <;> rfl
  | @assignment target assign hname hassign =>
      have hmark {mark : Char} (h : mark.isAlpha = false) : mark? mark text = none :=
        mark?_eq_none_of_name? hname h
      refine ⟨Nat.lt_trans assign.shorter target.shorter, ?_⟩
      intro depth
      rw [statement, markedName?_eq_none (hmark rfl), markedName?_eq_none (hmark rfl),
        hmark rfl, hname]
      simp only [hassign]
      rcases expression depth assign.rest with e | (_ | value) <;> rfl

theorem ValueAt.returns {value : Expr String .expression} (h : ValueAt text make position)
    (hvalue : Returns (expression depth) position value rest) :
    Returns (statement depth) text (make value) rest := by
  rcases h.statement_eq with ⟨shorter, hstatement⟩
  rcases hvalue with ⟨shorter', hvalue⟩
  refine ⟨Nat.lt_trans shorter' shorter, ?_⟩
  rw [hstatement, hvalue]
  rfl

/-- A text that does not come to an expression is read under every limit alike. -/
theorem statement_cases (text : List Char) :
    (∃ result, ∀ depth, statement depth text = .ok result) ∨
      ∃ make position, ValueAt text make position := by
  cases hdeclare : markedName? '@' text with
  | some name => exact .inl ⟨_, fun depth => by rw [statement, hdeclare]⟩
  | none =>
  cases hread : markedName? '>' text with
  | some name => exact .inl ⟨_, fun depth => by rw [statement, hdeclare, hread]⟩
  | none =>
  cases hprint : mark? '<' text with
  | some opening => exact .inr ⟨_, _, .output hprint⟩
  | none =>
  cases hname : name? text with
  | none => exact .inl ⟨none, fun depth => by rw [statement, hdeclare, hread, hprint, hname]⟩
  | some target =>
  cases hassign : assign? target.rest with
  | some assign => exact .inr ⟨_, _, .assignment hname hassign⟩
  | none =>
      refine .inl ⟨none, fun depth => ?_⟩
      rw [statement, hdeclare, hread, hprint, hname]
      simp only [hassign]

/-- A statement is too deep only if the expression in it is. -/
theorem statement_eq_error_iff :
    statement depth text = .error e ↔
      ∃ make position, ValueAt text make position ∧ expression depth position = .error e := by
  constructor
  · intro h
    rcases statement_cases text with ⟨result, hresult⟩ | ⟨make, position, hposition⟩
    · rw [hresult] at h
      cases h
    · refine ⟨make, position, hposition, ?_⟩
      rcases hposition.statement_eq with ⟨shorter, hstatement⟩
      rw [hstatement] at h
      cases hvalue : expression depth position with
      | error e' => rfl
      | ok found =>
          rw [hvalue] at h
          cases h
  · rintro ⟨make, position, hposition, herror⟩
    rcases hposition.statement_eq with ⟨shorter, hstatement⟩
    rw [hstatement, herror]
    rfl

end Statement

/-- The words in front of the expression of a statement lead to it. -/
theorem valueAt_output {body : List Char} (h : Written [.print] body) (rest : List Char) :
    ValueAt (body ++ rest) .output rest := by
  rcases h.uncons with ⟨gap, _, _, rfl, separators, ⟨⟩, ⟨⟩⟩
  rcases @mark?_complete '<' gap rest separators rfl with ⟨shorter, hmark⟩
  have htext : gap ++ (['<'] ++ []) ++ rest = gap ++ '<' :: rest := by simp
  rw [htext]
  exact .output hmark

theorem valueAt_assignment {target : String} {body : List Char}
    (h : Written [.name target, .assign] body) (rest : List Char) :
    ValueAt (body ++ rest) (.assignment target) rest := by
  rcases h.uncons with ⟨gap, letters, _, rfl, separators, ⟨given, alphabetic⟩, hassign⟩
  rcases hassign.uncons with ⟨gap', _, _, rfl, separators', ⟨⟩, ⟨⟩⟩
  have hstop : StopsRun Char.isAlpha (gap' ++ ':' :: '=' :: rest) :=
    Token.endsBefore_of_stopsRun (stopsRun_gap_append separators' (by simp; rfl))
      (.name (String.ofList letters))
  rcases name?_complete separators given alphabetic hstop with ⟨shorter, hname⟩
  rcases @assign?_complete gap' rest separators' with ⟨shorter', hmark⟩
  have htext : gap ++ (letters ++ (gap' ++ ([':', '='] ++ []))) ++ rest =
      gap ++ (letters ++ (gap' ++ ':' :: '=' :: rest)) := by
    simp
  rw [htext]
  exact .assignment hname hmark

end Parser

end Calc
