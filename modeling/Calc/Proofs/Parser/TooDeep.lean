/-
# Texts that are nested too deeply

Parentheses that are opened one after another where a factor is expected are all open at
once. If they are more than the limit allows, nothing that stands in front of them or
behind them can save the text: the chains and statements around them do not end before
them, and the statements before are not kept. A text in which fewer are ever open at once
is read, however long it is.
-/

import Calc.Proofs.Parser.Acceptance
import Calc.Proofs.Parser.LastFactor
import Calc.Proofs.Parser.Nesting
import Mathlib.Data.List.Basic

namespace Calc

open Text

/-! ## Where a number may stand -/

/-- A word behind a gap, at the end of a text, is the whole end behind the gap. -/
theorem word_eq_of_append {front word pre : List Char} {gap c : Char} (hne : word ≠ [])
    (hword : ∀ d ∈ word, isSeparator d = false) (hgap : isSeparator gap = true)
    (h : front ++ word = pre ++ [gap, c]) : word = [c] ∧ front = pre ++ [gap] := by
  rcases List.eq_nil_or_concat' word with rfl | ⟨first, last, rfl⟩
  · exact absurd rfl hne
  · have hsplit : (front ++ first) ++ [last] = (pre ++ [gap]) ++ [c] := by simpa using h
    rcases List.append_inj' hsplit rfl with ⟨hfront, hlast⟩
    rcases List.eq_nil_or_concat' first with rfl | ⟨first, d, rfl⟩
    · exact ⟨hlast, by simpa using hfront⟩
    · rw [← List.append_assoc] at hfront
      cases (List.append_inj' hfront rfl).2
      rw [hword gap (by simp)] at hgap
      cases hgap

/-- The word of a one is a number. -/
theorem Token.Word.eq_number {token : Token} (h : token.Word ['1']) :
    ∃ value, token = .number value := by
  generalize hone : ['1'] = word at h
  cases h with
  | name given alphabetic =>
      subst hone
      exact absurd (alphabetic '1' (by simp)) (by decide)
  | number numeral => exact ⟨_, rfl⟩
  | _ => cases hone

/-- A one at the end of a text is a number of its own if a gap stands in front of it. -/
theorem Written.exists_last_number {tokens : List Token} {pre : List Char}
    (h : Written tokens (pre ++ [' ', '1'])) :
    ∃ front value before gap, tokens = front ++ [.number value] ∧ pre = before ++ gap ∧
      IsGap gap ∧ Written front before := by
  rcases List.eq_nil_or_concat' tokens with rfl | ⟨front, token, rfl⟩
  · simp at h
  · rcases h.cut with ⟨before, behind, htext, hbefore, hbehind, -⟩
    rcases hbehind.uncons with ⟨gap, word, _, rfl, separators, spelled, ⟨⟩⟩
    rcases spelled.head with ⟨c, rest, hword, -⟩
    have hend : (before ++ gap) ++ word = pre ++ [' ', '1'] := by simpa using htext.symm
    rcases word_eq_of_append (by simp [hword]) spelled.not_isSeparator rfl hend with ⟨rfl, hpre⟩
    rcases spelled.eq_number with ⟨value, rfl⟩
    rcases List.eq_nil_or_concat' gap with rfl | ⟨gap, d, rfl⟩
    · -- The space in front of the number is part of the gap, since no word ends with it.
      have hlast := hbefore.not_isSeparator_getLast ' '
      rw [List.append_nil] at hpre
      rw [hpre] at hlast
      exact absurd (hlast (by simp)) (by decide)
    · rw [← List.append_assoc] at hpre
      rcases List.append_inj' hpre rfl with ⟨hpre, -⟩
      exact ⟨front, value, before, gap, rfl, hpre.symm, fun e he => separators e (by simp [he]),
        hbefore⟩

open Calc.Parser

/-- A program that ends in a number ends in a statement that looks for a factor where the
number stands. -/
theorem Program.exists_factorAt {program : Program String} {front : List Token} {value : Float}
    (h : program.tokens = front ++ [.number value]) :
    ∃ init s lead, program = init ++ [s] ∧ front = Program.tokens init ++ lead ∧
      StartsStatement lead ∧ ∀ {depth body}, s.depth ≤ depth → Written lead body →
        ∀ rest, FactorAt depth (body ++ rest) rest := by
  rcases List.eq_nil_or_concat' program with rfl | ⟨init, s, rfl⟩
  · simp [tokens] at h
  · have hsplit : Program.tokens init ++ s.tokens = front ++ [.number value] := by
      simpa [tokens] using h
    rcases endsInName_or_endsInFactor s with
      ⟨mark, target, htokens⟩ | ⟨lead, f, htokens, -, hstarts, hposition⟩
    · rw [htokens, List.append_cons] at hsplit
      cases (List.append_inj' hsplit rfl).2
    · rw [htokens, ← List.append_assoc] at hsplit
      refine ⟨init, s, lead, rfl, ?_, hstarts, hposition⟩
      cases f with
      | ref name => cases (List.append_inj' hsplit rfl).2
      | literal x => exact (List.append_inj' hsplit rfl).1.symm
      | group inner =>
          rw [Expr.tokens, ← List.cons_append, ← List.append_assoc] at hsplit
          cases (List.append_inj' hsplit rfl).2

/-- Where a number may stand, a factor that is too deep makes the whole text too deep. -/
theorem Parser.statements_eq_error_of_factor {depth : Nat} {pre rest : List Char}
    {program : Program String} (h : statements depth (pre ++ [' ', '1']) = .ok (program, []))
    (hrest : ∀ gap, IsGap gap → factor (grouped depth) (gap ++ rest) = .error .tooDeep) :
    statements depth (pre ++ rest) = .error .tooDeep := by
  rcases statements_sound h with ⟨⟨body, htext, hwritten, -⟩, hdepth⟩
  rw [List.append_nil] at htext
  rw [← htext] at hwritten
  rcases hwritten.exists_last_number with ⟨front, value, before, gap, htokens, rfl, hgap, hfront⟩
  rcases Program.exists_factorAt htokens with ⟨init, s, lead, rfl, rfl, hstarts, hposition⟩
  rcases hfront.cut with ⟨before, behind, rfl, hbefore, hbehind, meet⟩
  rcases List.forall_mem_append.mp hdepth with ⟨hinit, hs⟩
  have hstatement : statement depth (behind ++ (gap ++ rest)) = .error .tooDeep :=
    (hposition (hs s (by simp)) hbehind _).statement_eq_error (hrest gap hgap)
  rcases hstarts.follows hbehind meet (gap ++ rest) with ⟨hend, hop⟩
  rw [List.append_assoc, List.append_assoc, statements_complete hinit hbefore hend hop, statements,
    hstatement]
  rfl

/-! ## Many parentheses -/

/-- Parentheses that are opened one after another, with the given gaps in front of them. -/
def openings (gaps : List (List Char)) : List Char :=
  gaps.flatMap fun gap => gap ++ ['(']

/-- All of them are open at once. -/
theorem opens_openings {gaps : List (List Char)} (hgaps : ∀ gap ∈ gaps, IsGap gap)
    (hne : gaps ≠ []) (tail : List Char) :
    Opens .factor (openings gaps ++ tail) gaps.length := by
  induction gaps with
  | nil => exact absurd rfl hne
  | cons gap gaps ih =>
      rw [List.forall_mem_cons] at hgaps
      rcases @mark?_complete '(' gap (openings gaps ++ tail) hgaps.1 rfl with ⟨shorter, hmark⟩
      have htext : openings (gap :: gaps) ++ tail = gap ++ '(' :: (openings gaps ++ tail) := by
        simp [openings]
      rw [htext]
      by_cases hlast : gaps = []
      · subst hlast
        exact .opening hmark
      · have hfactor := ih hgaps.2 hlast
        exact .inside hmark (@Opens.term 0 _ _ _ .first (@Opens.factor 0 _ _ _ .first hfactor))

/-- A gap in front of them is one more gap of the first. -/
theorem factor_openings_eq_error {depth : Nat} {gap : List Char} {gaps : List (List Char)}
    (hgap : IsGap gap) (hgaps : ∀ gap ∈ gaps, IsGap gap) (hdepth : depth < gaps.length)
    (tail : List Char) :
    factor (grouped depth) (gap ++ (openings gaps ++ tail)) = .error .tooDeep := by
  cases gaps with
  | nil => cases hdepth
  | cons first gaps =>
      rw [List.forall_mem_cons] at hgaps
      have hall : ∀ g ∈ (gap ++ first) :: gaps, IsGap g := by
        rw [List.forall_mem_cons]
        exact ⟨hgap.append hgaps.1, hgaps.2⟩
      have hopens := opens_openings hall (List.cons_ne_nil _ _) tail
      have htext : openings ((gap ++ first) :: gaps) ++ tail =
          gap ++ (openings (first :: gaps) ++ tail) := by
        simp [openings]
      rw [htext] at hopens
      exact @ofLevel_eq_error_of_opens .factor _ _ depth hopens hdepth

/-! ## The limit -/

namespace Program

/-- A text that is nested too deeply is refused as a whole. -/
theorem complete_of_tooDeep {text : String} (h : ofText text = .error .tooDeep) :
    complete text = .error
      { summary := "Expression nested too deeply", location := 0, line := 0, column := 0
        remaining := text, context := none } := by
  rw [complete, h]
  rfl

/-- Nesting that is too deep is an error of the whole text. Where a number may stand, at
least 2500 opened parentheses with any gaps between them have the text refused, whatever
stands in front and behind, and the error has no place in the text and quotes all of it. A
text is read if never more than 300 parentheses are open at once while it is read. -/
theorem refuses_deep_reads_shallow :
    (∀ (pre tail : String) (program : Program String) (gaps : List (List Char)),
      ofText (pre ++ " 1") = .ok (program, "") → (∀ gap ∈ gaps, IsGap gap) →
      2500 ≤ gaps.length →
      let text := pre ++ String.ofList (openings gaps) ++ tail
      ofText text = .error .tooDeep ∧
      complete text = .error
        { summary := "Expression nested too deeply", location := 0, line := 0, column := 0
          remaining := text, context := none }) ∧
    ∀ text : String, (∀ count, Opens text.toList count → count ≤ 300) →
      ∃ result, ofText text = .ok result := by
  constructor
  · intro pre tail program gaps hpre hgaps hlength text
    rw [ofText_eq_ok_iff, String.toList_append] at hpre
    have hfactor : ∀ gap, IsGap gap →
        factor (grouped maxDepth) (gap ++ (openings gaps ++ tail.toList)) = .error .tooDeep := by
      intro gap hgap
      exact factor_openings_eq_error hgap hgaps (Nat.lt_of_lt_of_le maxDepth_lt hlength) _
    have hstatements := statements_eq_error_of_factor hpre hfactor
    have htext : text.toList = pre.toList ++ (openings gaps ++ tail.toList) := by
      simp [text, String.toList_append]
    have hread : ofText text = .error .tooDeep := by
      rw [ofText, htext, hstatements]
    exact ⟨hread, complete_of_tooDeep hread⟩
  · intro text hshallow
    cases hread : ofText text with
    | ok result => exact ⟨result, rfl⟩
    | error e =>
        have hopens := hshallow _ (ofText_eq_error_iff.mp hread)
        exact absurd (le_maxDepth.trans_lt hopens) (lt_irrefl 300)

/-- Behind an operator that follows a whole expression, and in a text with an open end. -/
theorem refuses_deep_reads_shallow_sum :
    ofText ("@a <a+" ++ String.ofList (openings (List.replicate 2500 [])) ++ "1)") =
      .error .tooDeep ∧
    ∃ result, ofText "<((1)+(2))*(3" = .ok result := by
  have hcheck : ((ofText "@a <a+ 1").toOption.any fun found => found.2 = "") = true := by
    decide +kernel
  constructor
  · cases hread : ofText "@a <a+ 1" with
    | error e =>
        rw [hread] at hcheck
        cases hcheck
    | ok found =>
        rcases found with ⟨program, remainder⟩
        simp only [hread, Except.toOption, Option.any_some, decide_eq_true_eq] at hcheck
        rw [hcheck] at hread
        have hgaps : ∀ gap ∈ List.replicate 2500 [], IsGap gap := by
          intro gap hgap
          rw [List.eq_of_mem_replicate hgap]
          exact isGap_nil
        exact (refuses_deep_reads_shallow.1 "@a <a+" "1)" program (List.replicate 2500 []) hread
          hgaps (by rw [List.length_replicate])).1
  · apply refuses_deep_reads_shallow.2
    intro count hopens
    exact hopens.le_count.trans (by decide)

end Program

end Calc
