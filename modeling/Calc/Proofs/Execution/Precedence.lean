/-
# Formulas are computed as the trees that they are

The output of a formula is read into flat chains, its names are resolved, and its chains
are folded from the left. What comes out is what the tree stands for: each operator is
applied once, to the values of its operands in the tree. This holds under every
interpretation of the operators, so that no sum or product is computed in another order
than it is written in.
-/

import Calc.Proofs.Execution.Refinement
import Calc.Proofs.Grammar.Formula
import Calc.Proofs.Grammar.OpenParentheses
import Calc.Proofs.Parser.Joining
import Calc.Proofs.Parser.Operators

namespace Calc

/-! ## Reading -/

/-- A statement that prints a formula is read from any text of the formula. -/
theorem Formula.SpelledBy.complete_output {formula : Formula} {text : String}
    (h : formula.SpelledBy text) (hopen : Text.OpenAtMost 300 text.toList) :
    ∃ e : Expr String .expression, Program.complete ("< " ++ text) = .ok [.output e] ∧
      e.StandsFor formula := by
  obtain ⟨pairs, tokens, body, blank, hwrittenAs, htext, hwritten, hblank⟩ := h
  obtain ⟨e, htokens, hstands⟩ := hwrittenAs.exists_expression pairs
  rw [← htokens] at hwritten
  refine ⟨e, ?_, hstands⟩
  have hdepth : e.depth ≤ 300 := by
    rw [htext] at hopen
    exact (hwritten.opens e).le_of_openAtMost hopen.of_append
  apply Program.complete_of_spelledBy
  · rintro statement hmem
    obtain rfl := List.mem_singleton.mp hmem
    exact hdepth.trans le_maxDepth
  · refine ⟨'<' :: ' ' :: body, blank, by simp [htext], ?_, hblank⟩
    have hgap : Text.IsGap [' '] := by simp [Text.IsGap, Text.isSeparator]
    obtain ⟨token, others, hcons⟩ := List.exists_cons_of_ne_nil e.tokens_ne_nil
    have hbody : Written e.tokens (' ' :: body) := by
      rw [hcons] at hwritten ⊢
      exact hwritten.gap_append hgap
    have hstatement : Written (Statement.output e).tokens ('<' :: ' ' :: body) :=
      .cons Text.isGap_nil .print hbody fun hname => hname.elim
    simpa [Program.tokens] using hstatement

/-! ## Resolving -/

section Resolving

variable {table : SymbolTable}

/-- An expression over declared variables can be resolved. -/
theorem Expr.exists_resolves (hcoherent : table.Coherent) {level : Level} (e : Expr String level)
    (hdeclared : ∀ name ∈ e.refs, name ∈ table.names) : ∃ e', e.Resolves table e' := by
  have hnone :
      (e.refs.map Occurrence.naming).findSome? (Occurrence.failure? table.names) = none := by
    rw [List.findSome?_eq_none_iff, List.forall_mem_map]
    exact fun name hname => Occurrence.failure?_eq_none_iff.mpr (not_not.mpr (hdeclared name hname))
  rw [← e.errorOf_traverse_slotOf hcoherent] at hnone
  cases htraverse : e.traverse fun name => (table.slotOf name).map Int.ofNat with
  | error error =>
      rw [htraverse] at hnone
      cases hnone
  | ok e' => exact ⟨e', Expr.traverse_slotOf_eq_ok_iff.mp htraverse⟩

/-- Printing such an expression resolves to printing an expression with slots, and
nothing is declared. -/
theorem Expr.Resolves.resolve_output {e : Expr String .expression} {e' : Expr Int .expression}
    (h : e.Resolves table e') :
    Program.resolve table [.output e] = ⟨[.output e'], table, none⟩ :=
  Program.resolve_eq_iff.mpr (.cons (.output h) .nil)

/-! ## Computing -/

/-- Slots have the values of the names that they stand for. -/
theorem Expr.Resolves.evaluate_eq (hcoherent : table.Coherent) {values : String → Float}
    (hvalues : ∀ entry ∈ table.entries.toList, values entry.1 = entry.2)
    (apply : Operator → Float → Float → Except RunError Float) {level : Level}
    {e : Expr String level} {e' : Expr Int level} (h : e.Resolves table e') :
    e'.evaluate table.valueAt apply = e.evaluate (fun name => .ok (values name)) apply := by
  induction h with
  | @ref name slot found =>
      have hname : table.names[slot]? = some name :=
        (hcoherent.slots_eq_some_iff name slot).mp found
      obtain ⟨value, hentry⟩ := SymbolTable.getElem?_names_eq_some_iff.mp hname
      rw [← Array.getElem?_toList] at hentry
      have hvalue : values name = value := hvalues _ (List.mem_of_getElem? hentry)
      rw [evaluate, evaluate, SymbolTable.valueAt, SymbolTable.get_ofNat hentry, hvalue]
      rfl
  | literal => rfl
  | group _ ih => rw [evaluate, evaluate, ih]
  | factor _ ih => rw [evaluate, evaluate, ih]
  | term _ ih => rw [evaluate, evaluate, ih]
  | product _ _ ihleft ihright => rw [evaluate, evaluate, ihleft, ihright]
  | sum _ _ ihleft ihright => rw [evaluate, evaluate, ihleft, ihright]

/-- Operators of the language compute a number from any two numbers. -/
theorem Expr.Arithmetic.exists_value {level : Level} {e : Expr String level} (h : e.Arithmetic)
    (values : String → Float) :
    ∃ x, e.evaluate (fun name => .ok (values name)) Operator.apply = .ok x := by
  induction e with
  | ref name => exact ⟨_, rfl⟩
  | literal x => exact ⟨x, rfl⟩
  | group inner ih => exact ih h
  | factor f ih => exact ih h
  | term t ih => exact ih h
  | product t op f iht ihf =>
      obtain ⟨x, hx⟩ := iht h.1
      obtain ⟨y, hy⟩ := ihf h.2.2
      obtain ⟨z, hz, -⟩ := h.2.1.apply x y
      exact ⟨z, by rw [evaluate, hx, hy]; exact hz⟩
  | sum e op t ihe iht =>
      obtain ⟨x, hx⟩ := ihe h.1
      obtain ⟨y, hy⟩ := iht h.2.2
      obtain ⟨z, hz, -⟩ := h.2.1.apply x y
      exact ⟨z, by rw [evaluate, hx, hy]; exact hz⟩

end Resolving

/-- A formula over declared variables is computed as the tree that it is, from any text
that spells it and in which at most 300 parentheses are open at once. Behind the mark
of an output, the text is read as one statement, whose names are resolved without a
change to the table, and whose value is the one of the tree under every interpretation
of the operators; under their own interpretation there is a value. -/
theorem Formula.computed_as_tree {table : SymbolTable} (hcoherent : table.Coherent)
    {values : String → Float}
    (hvalues : ∀ entry ∈ table.entries.toList, values entry.1 = entry.2)
    {formula : Formula} (hdeclared : ∀ name ∈ formula.names, name ∈ table.names)
    {text : String} (hspelled : formula.SpelledBy text)
    (hopen : Text.OpenAtMost 300 text.toList) :
    ∃ (e : Expr String .expression) (e' : Expr Int .expression),
      Program.complete ("< " ++ text) = .ok [.output e] ∧
      Program.resolve table [.output e] = ⟨[.output e'], table, none⟩ ∧
      (∀ apply : Operator → Float → Float → Except RunError Float,
        e'.evaluate table.valueAt apply =
          formula.evaluate (fun name => .ok (values name)) apply) ∧
      ∃ x, e'.value table = .ok x ∧
        formula.evaluate (fun name => .ok (values name)) Operator.apply = .ok x := by
  obtain ⟨e, hcomplete, hstands⟩ := hspelled.complete_output hopen
  rw [← hstands.refs] at hdeclared
  obtain ⟨e', hresolves⟩ := e.exists_resolves hcoherent hdeclared
  have hevaluate (apply : Operator → Float → Float → Except RunError Float) :
      e'.evaluate table.valueAt apply =
        formula.evaluate (fun name => .ok (values name)) apply := by
    rw [hresolves.evaluate_eq hcoherent hvalues, hstands.evaluate]
  have hknown : (Statement.output e).Arithmetic :=
    Program.arithmetic_of_complete hcomplete _ List.mem_cons_self
  obtain ⟨x, hx⟩ := Expr.Arithmetic.exists_value hknown values
  rw [hstands.evaluate] at hx
  exact ⟨e, e', hcomplete, hresolves.resolve_output, hevaluate, x, (hevaluate _).trans hx, hx⟩

/-- Eight, divided by the double of a variable, minus a negative number. -/
def Formula.signedQuotient : Formula :=
  .node .subtract
    (.node .divide (.literal (Numeral.toFloat ⟨false, ⟨8, 0⟩⟩))
      (.node .multiply (.ref "b") (.literal (Numeral.toFloat ⟨false, ⟨2, 0⟩⟩))))
    (.literal (Numeral.toFloat ⟨true, ⟨1, 0⟩⟩))

/-- The parentheses are needed, and the second of two minus signs is the sign. -/
theorem Formula.signedQuotient_computed :
    ∃ (e : Expr String .expression) (e' : Expr Int .expression) (x : Float),
      Program.complete "< 8/(b *2)--1" = .ok [.output e] ∧
      e'.value (((∅ : SymbolTable).push "b").modify 0 3.0) = .ok x ∧
      x = 8.0 / (3.0 * 2.0) - -1.0 := by
  have hcoherent : (((∅ : SymbolTable).push "b").modify 0 3.0).Coherent :=
    (SymbolTable.coherent_empty.push (by decide)).modify 0 3.0
  have height : (Token.number (Numeral.toFloat ⟨false, ⟨8, 0⟩⟩)).Word ['8'] :=
    .number (@Numeral.Word.intro [] ['8'] ['8'] [] [] false 0 .absent
      (.whole ⟨List.cons_ne_nil _ _, by simp⟩) .absent)
  have htwo : (Token.number (Numeral.toFloat ⟨false, ⟨2, 0⟩⟩)).Word ['2'] :=
    .number (@Numeral.Word.intro [] ['2'] ['2'] [] [] false 0 .absent
      (.whole ⟨List.cons_ne_nil _ _, by simp⟩) .absent)
  have hone : (Token.number (Numeral.toFloat ⟨true, ⟨1, 0⟩⟩)).Word ['-', '1'] :=
    .number (@Numeral.Word.intro ['-'] ['1'] ['1'] [] [] true 0 .minus
      (.whole ⟨List.cons_ne_nil _ _, by simp⟩) .absent)
  have hname : (Token.name "b").Word ['b'] :=
    @Token.Word.name ['b'] (List.cons_ne_nil _ _) (by simp)
  have hspace : Text.IsGap [' '] := by simp [Text.IsGap, Text.isSeparator]
  have hproduct := @WrittenAs.node .multiply _ _ _ _ 0 0 (.ref "b")
    (.literal (Numeral.toFloat ⟨false, ⟨2, 0⟩⟩)) (by decide) (by decide)
  have hquotient := @WrittenAs.node .divide _ _ _ _ 0 1
    (.literal (Numeral.toFloat ⟨false, ⟨8, 0⟩⟩)) hproduct (by decide) (by decide)
  have hdifference := @WrittenAs.node .subtract _ _ _ _ 0 0 hquotient
    (.literal (Numeral.toFloat ⟨true, ⟨1, 0⟩⟩)) (by decide) (by decide)
  have hspelled : signedQuotient.SpelledBy "8/(b *2)--1" := by
    refine ⟨0, _, ['8', '/', '(', 'b', ' ', '*', '2', ')', '-', '-', '1'], [], hdifference, rfl,
      ?_, by simp⟩
    exact .cons Text.isGap_nil height (.cons Text.isGap_nil .over (.cons Text.isGap_nil .opening
      (.cons Text.isGap_nil hname (.cons hspace .times (.cons Text.isGap_nil htwo
        (.cons Text.isGap_nil .closing (.cons Text.isGap_nil .minus
          (.cons Text.isGap_nil hone .nil False.elim) False.elim) False.elim) False.elim)
        False.elim) fun _ hstart => (startsWithName_cons.mp hstart).elim)
        False.elim) False.elim) False.elim
  have hopen : Text.OpenAtMost 300 "8/(b *2)--1".toList := by
    intro front hfront
    have hle : front.count '(' ≤ 1 := hfront.sublist.count_le '('
    omega
  obtain ⟨e, e', hcomplete, -, -, x, hx, hvalue⟩ :=
    @Formula.computed_as_tree _ hcoherent (fun _ => 3.0) (List.forall_mem_singleton.mpr rfl)
      signedQuotient (List.forall_mem_singleton.mpr List.mem_cons_self) _ hspelled hopen
  refine ⟨e, e', x, hcomplete, hx, ?_⟩
  have height' : Numeral.toFloat ⟨false, ⟨8, 0⟩⟩ = 8.0 := by decide +kernel
  have htwo' : Numeral.toFloat ⟨false, ⟨2, 0⟩⟩ = 2.0 := by decide +kernel
  have hone' : Numeral.toFloat ⟨true, ⟨1, 0⟩⟩ = -1.0 := by decide +kernel
  rw [← height', ← htwo', ← hone']
  exact (Except.ok.inj hvalue).symm

end Calc
