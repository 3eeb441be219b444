/-
# The last factor of a statement

A statement that computes something ends in a factor, and the words in front of it lead the
reader to the place where it looks for this factor, whatever stands there. So the end of a
statement can be told from what is read there: too many parentheses make the statement too
deep, and a factor that is longer than the written one only makes the statement longer.
-/

import Calc.Proofs.Parser.Operands

namespace Calc

open Text

namespace Parser

/-- A chain ends in an operand, and the words in front of it lead the reader to it. -/
def LastOperand : {level : Level} → Expr String level → Prop
  | .factor, _ => True
  | .term, t => ∃ (front : List Token) (f : Expr String .factor),
      t.tokens = front ++ f.tokens ∧ f.depth ≤ t.depth ∧
      ∀ {depth : Nat} {body : List Char}, t.depth ≤ depth → Written front body →
        ∀ rest, OperandAt Operator.multiplicative? (factor (grouped depth)) (body ++ rest) rest
  | .expression, e => ∃ (front : List Token) (t : Expr String .term),
      e.tokens = front ++ t.tokens ∧ t.depth ≤ e.depth ∧
      ∀ {depth : Nat} {body : List Char}, e.depth ≤ depth → Written front body →
        ∀ rest, OperandAt Operator.additive? (term (factor (grouped depth))) (body ++ rest) rest

/-- The words of a chain and of the operator behind it, cut where its last operand starts. -/
theorem exists_cut_last {front last : List Token} {operator : Token} {text : List Char}
    (h : Written (front ++ last ++ [operator]) text) :
    ∃ before body gap word, text = before ++ (body ++ (gap ++ word)) ∧ Written front before ∧
      Written last body ∧ IsGap gap ∧ operator.Word word := by
  rw [List.append_assoc] at h
  rcases h.cut with ⟨before, behind, rfl, hbefore, hbehind, -⟩
  rcases hbehind.cut with ⟨body, operator, rfl, hbody, hoperator, -⟩
  rcases hoperator.uncons with ⟨gap, word, _, rfl, separators, spelled, ⟨⟩⟩
  exact ⟨before, body, gap, word, by simp, hbefore, hbody, separators, spelled⟩

theorem lastOperand_factor (f : Expr String .factor) : LastOperand (.factor f) := by
  refine ⟨[], f, rfl, le_refl _, ?_⟩
  intro depth body _ hwritten rest
  rw [written_nil_iff.mp hwritten]
  exact .first

theorem lastOperand_product {t : Expr String .term} {op : Operator} {f : Expr String .factor}
    (ih : LastOperand t) : LastOperand (.product t op f) := by
  rcases ih with ⟨front, g, htokens, hg, hlast⟩
  refine ⟨t.tokens ++ [.multiplicative op], f, by simp [Expr.tokens], le_max_right _ _, ?_⟩
  intro depth body hdepth hwritten rest
  have ht : t.depth ≤ depth := (le_max_left _ _).trans hdepth
  rw [htokens] at hwritten
  rcases exists_cut_last hwritten with
    ⟨before, body, gap, word, rfl, hbefore, hbody, separators, spelled⟩
  rcases spelled.multiplicative with ⟨c, rfl, hsep, hword, hop⟩
  have hread : Returns (factor (grouped depth)) (body ++ (gap ++ c :: rest)) g
      (gap ++ c :: rest) :=
    readBack g (hg.trans ht) hbody (endBefore_operator separators hword _)
  have hnext := (hlast ht hbefore _).next hread separators hsep hop
  simpa using hnext

theorem lastOperand_term (t : Expr String .term) : LastOperand (.term t) := by
  refine ⟨[], t, rfl, le_refl _, ?_⟩
  intro depth body _ hwritten rest
  rw [written_nil_iff.mp hwritten]
  exact .first

theorem lastOperand_sum {e : Expr String .expression} {op : Operator} {t : Expr String .term}
    (ih : LastOperand e) : LastOperand (.sum e op t) := by
  rcases ih with ⟨front, u, htokens, hu, hlast⟩
  refine ⟨e.tokens ++ [.additive op], t, by simp [Expr.tokens], le_max_right _ _, ?_⟩
  intro depth body hdepth hwritten rest
  have he : e.depth ≤ depth := (le_max_left _ _).trans hdepth
  rw [htokens] at hwritten
  rcases exists_cut_last hwritten with
    ⟨before, body, gap, word, rfl, hbefore, hbody, separators, spelled⟩
  rcases spelled.additive with ⟨c, rfl, hsep, hword, hadditive, hmultiplicative⟩
  have hread : Returns (term (factor (grouped depth))) (body ++ (gap ++ c :: rest)) u
      (gap ++ c :: rest) := by
    apply ReadBack.returns_term (readBack u) (hu.trans he) hbody
      (endBefore_operator separators hword _)
    rw [skipSeparators_gap_append separators (by simpa using hsep)]
    simpa using hmultiplicative
  have hnext := (hlast he hbefore _).next hread separators hsep hadditive
  simpa using hnext

theorem lastOperand {level : Level} (e : Expr String level) : LastOperand e := by
  induction e with
  | factor f => exact lastOperand_factor f
  | product t op f iht => exact lastOperand_product iht
  | term t => exact lastOperand_term t
  | sum e op t ihe => exact lastOperand_sum ihe
  | _ => trivial

/-! ## Factors of statements -/

/-- The reader of the statement that a text starts with looks for a factor at the place. -/
inductive FactorAt (depth : Nat) (text position : List Char) : Prop
  | intro {make : Expr String .expression → Statement String} {value term : List Char}
      (hvalue : ValueAt text make value)
      (hterm : OperandAt Operator.additive? (Parser.term (factor (grouped depth))) value term)
      (hfactor : OperandAt Operator.multiplicative? (factor (grouped depth)) term position) :
      FactorAt depth text position

section FactorAt

variable {depth : Nat} {text position rest : List Char}

/-- A factor that is too deep makes its statement too deep. -/
theorem FactorAt.statement_eq_error {e : TooDeep} (h : FactorAt depth text position)
    (herror : factor (grouped depth) position = .error e) : statement depth text = .error e := by
  cases h with
  | @intro make value term hvalue hterm hfactor =>
      have hreadTerm : Parser.term (factor (grouped depth)) term = .error e := by
        rw [term_eq_linked]
        exact hfactor.linked_eq_error herror
      have hreadValue : expression depth value = .error e := by
        rw [expression_eq, expressionOf_eq_linked]
        exact hterm.linked_eq_error hreadTerm
      exact statement_eq_error_iff.mpr ⟨make, value, hvalue, hreadValue⟩

/-- A statement that is read goes at least up to the end of the factor. -/
theorem FactorAt.statement_suffix {f : Expr String .factor}
    {result : Option (Parsed (Statement String) text)} (h : FactorAt depth text position)
    (hread : Returns (factor (grouped depth)) position f rest)
    (hresult : statement depth text = .ok result) :
    ∃ found, result = some found ∧ found.rest <:+ rest := by
  cases h with
  | @intro make value term hvalue hterm hfactor =>
      have hfactorSound := factor_sound (grouped_sound depth)
      rcases hvalue.statement_eq with ⟨shorter, hstatement⟩
      rw [hstatement, expression_eq, expressionOf_eq_linked] at hresult
      rcases exists_of_map_eq_ok hresult with ⟨foundValue, hreadValue, rfl⟩
      rcases hterm.exists_read hreadValue with ⟨foundTerm, hreadTerm⟩
      have hlinked := hreadTerm
      rw [term_eq_linked] at hlinked
      rcases hfactor.linked_suffix (fun h => (hfactorSound h).1.suffix) hread hlinked with
        ⟨t, rfl, htSuffix⟩
      rcases hterm.linked_suffix (fun h => (term_sound hfactorSound h).1.suffix)
        ⟨t.shorter, hreadTerm⟩ hreadValue with ⟨v, rfl, hvSuffix⟩
      exact ⟨_, rfl, hvSuffix.trans htSuffix⟩

end FactorAt

/-- A statement ends in a factor, and the words in front of it lead the reader to it. -/
def EndsInFactor (statement : Statement String) : Prop :=
  ∃ (front : List Token) (f : Expr String .factor),
    statement.tokens = front ++ f.tokens ∧ f.depth ≤ statement.depth ∧ StartsStatement front ∧
    ∀ {depth : Nat} {body : List Char}, statement.depth ≤ depth → Written front body →
      ∀ rest, FactorAt depth (body ++ rest) rest

/-- It is the last factor of the last term of its expression. -/
theorem endsInFactor_of_value {statement : Statement String} {front : List Token}
    {make : Expr String .expression → Statement String} {e : Expr String .expression}
    (htokens : statement.tokens = front ++ e.tokens) (hdepth : statement.depth = e.depth)
    (hstarts : ∀ later, StartsStatement (front ++ later))
    (hvalue : ∀ {body}, Written front body → ∀ rest, ValueAt (body ++ rest) make rest) :
    EndsInFactor statement := by
  rcases lastOperand e with ⟨terms, t, hterms, ht, hterm⟩
  rcases lastOperand t with ⟨factors, f, hfactors, hf, hfactor⟩
  refine ⟨front ++ terms ++ factors, f, ?_, ?_, ?_, ?_⟩
  · rw [htokens, hterms, hfactors, List.append_assoc, List.append_assoc]
  · rw [hdepth]
    exact hf.trans ht
  · rw [List.append_assoc]
    exact hstarts _
  · intro depth text hle hwritten rest
    rw [hdepth] at hle
    rcases hwritten.cut with ⟨text, factorBody, rfl, hwritten, hfactorBody, -⟩
    rcases hwritten.cut with ⟨body, termBody, rfl, hbody, htermBody, -⟩
    rw [List.append_assoc, List.append_assoc]
    exact .intro (hvalue hbody _) (hterm hle htermBody _) (hfactor (ht.trans hle) hfactorBody rest)

theorem endsInFactor_output (value : Expr String .expression) : EndsInFactor (.output value) :=
  @endsInFactor_of_value _ [.print] .output value rfl rfl .output valueAt_output

theorem endsInFactor_assignment (target : String) (value : Expr String .expression) :
    EndsInFactor (.assignment target value) :=
  @endsInFactor_of_value _ [.name target, .assign] (.assignment target) value rfl rfl
    (.assignment target) valueAt_assignment

/-- All statements do, but for those that are a mark and a name. -/
theorem endsInName_or_endsInFactor (statement : Statement String) :
    (∃ mark target, statement.tokens = [mark, .name target]) ∨ EndsInFactor statement := by
  cases statement with
  | declaration target => exact .inl ⟨.declare, target, rfl⟩
  | input target => exact .inl ⟨.read, target, rfl⟩
  | output value => exact .inr (endsInFactor_output value)
  | assignment target value => exact .inr (endsInFactor_assignment target value)

end Parser

end Calc
