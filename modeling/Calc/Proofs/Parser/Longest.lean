/-
# The longest prefix that is a program

The reader never goes back over a statement, and yet it takes as much of a text as can be
taken. A statement in front of another one is read as it is written. The last statement of
a prefix may go on behind the prefix, because a name, a number or a chain does, but it
never stops before the end of the prefix. So what the reader leaves over is exact: no
program starts there, and what stands in front of it is read as the same program.
-/

import Calc.Proofs.Parser.Acceptance
import Calc.Proofs.Parser.LastFactor

namespace Calc

open Text

namespace Parser

variable {depth : Nat} {body : List Char}

/-! ## Nothing stops short -/

theorem name?_takes {name : String} (h : Written [.name name] body) (rest : List Char) :
    ∃ found, name? (body ++ rest) = some found ∧ found.rest <:+ rest := by
  rcases h.uncons with ⟨gap, letters, _, rfl, separators, ⟨given, alphabetic⟩, ⟨⟩⟩
  have hletters : ∀ c ∈ letters ++ rest.takeWhile Char.isAlpha, c.isAlpha = true := by
    rw [List.forall_mem_append]
    exact ⟨alphabetic, fun c hc => List.mem_takeWhile_imp hc⟩
  rcases name?_complete separators (by simp [given]) hletters (stopsRun_dropWhile _ rest) with
    ⟨shorter, hname⟩
  have htext : gap ++ (letters ++ []) ++ rest =
      gap ++ ((letters ++ rest.takeWhile Char.isAlpha) ++ rest.dropWhile Char.isAlpha) := by
    simp
  rw [htext]
  exact ⟨_, hname, List.dropWhile_suffix _⟩

theorem number?_takes {gap word : List Char} {n : Numeral} (hgap : IsGap gap)
    (hword : Numeral.Word word n) (rest : List Char) :
    ∃ found, number? (gap ++ (word ++ rest)) = some found ∧ found.rest <:+ rest := by
  rcases Numeral.scan_takes hword rest with ⟨⟨m, left⟩, hscan, hsuffix⟩
  rw [← skipSeparators_numeral hgap hword] at hscan
  rcases number?_of_scan hscan with ⟨shorter, hnumber⟩
  exact ⟨_, hnumber, hsuffix⟩

/-- A factor is there, whatever follows it. Only parentheses have an end of their own. -/
theorem factor_takes {f : Expr String .factor} (hdepth : f.depth ≤ depth)
    (hwritten : Written f.tokens body) (rest : List Char) :
    ∃ value left, Returns (factor (grouped depth)) (body ++ rest) value left ∧ left <:+ rest := by
  cases f with
  | ref name =>
      rcases name?_takes hwritten rest with ⟨found, hname, hsuffix⟩
      refine ⟨.ref found.value, found.rest, ⟨found.shorter, ?_⟩, hsuffix⟩
      unfold factor
      rw [hname]
      rfl
  | literal value =>
      rcases hwritten.uncons with ⟨gap, word, _, rfl, separators, spelled, ⟨⟩⟩
      cases spelled with | @number word n numeral =>
      rcases number?_takes separators numeral rest with ⟨found, hnumber, hsuffix⟩
      rw [List.append_nil, List.append_assoc]
      refine ⟨.literal found.value, found.rest, ⟨found.shorter, ?_⟩, hsuffix⟩
      unfold factor
      rw [name?_eq_none_of_numeral separators numeral, hnumber]
      rfl
  | group inner =>
      have hend : EndBefore (Expr.group inner).tokens rest := by
        intro token htoken
        rw [Expr.tokens, List.getLast?_cons, List.getLast?_append] at htoken
        cases htoken
        trivial
      exact ⟨_, rest, readBack (.group inner) hdepth hwritten hend, List.suffix_refl rest⟩

theorem markedName?_takes {mark : Char} {token : Token} {target : String}
    (hmark : isSeparator mark = false) (hword : ∀ {word}, token.Word word → word = [mark])
    (hwritten : Written [token, .name target] body) (rest : List Char) :
    ∃ found, markedName? mark (body ++ rest) = some found ∧ found.rest <:+ rest := by
  rcases markedName?_of_name? hmark hword hwritten with ⟨name, hname, hmarked⟩
  rcases name?_takes hname rest with ⟨found, hname, hsuffix⟩
  rcases hmarked hname with ⟨shorter, hmarked⟩
  exact ⟨_, hmarked, hsuffix⟩

/-- A statement is there, whatever follows it, unless it becomes too deep. -/
theorem statement_takes {s : Statement String} (hdepth : s.depth ≤ depth)
    (hwritten : Written s.tokens body) {rest : List Char}
    {result : Option (Parsed (Statement String) (body ++ rest))}
    (h : statement depth (body ++ rest) = .ok result) :
    ∃ found, result = some found ∧ found.rest <:+ rest := by
  have hvalue (hends : EndsInFactor s) : ∃ found, result = some found ∧ found.rest <:+ rest := by
    rcases hends with ⟨front, f, htokens, hf, -, hfactor⟩
    rw [htokens] at hwritten
    rcases hwritten.cut with ⟨before, behind, hbody, hbefore, hbehind, -⟩
    rcases factor_takes (hf.trans hdepth) hbehind rest with ⟨value, left, hread, hsuffix⟩
    have hposition : FactorAt depth (body ++ rest) (behind ++ rest) := by
      rw [hbody, List.append_assoc]
      exact hfactor hdepth hbefore _
    rcases hposition.statement_suffix hread h with ⟨found, hfound, hleft⟩
    exact ⟨found, hfound, hleft.trans hsuffix⟩
  cases s with
  | declaration target =>
      rcases @markedName?_takes _ '@' .declare target rfl (fun hword => by cases hword; rfl)
        hwritten rest with ⟨found, hmarked, hsuffix⟩
      rw [statement, hmarked] at h
      cases h
      exact ⟨_, rfl, hsuffix⟩
  | input target =>
      have hdeclare : mark? '@' (body ++ rest) = none :=
        mark?_eq_none_of_written hwritten (fun hword => by cases hword; decide) rest
      rcases @markedName?_takes _ '>' .read target rfl (fun hword => by cases hword; rfl)
        hwritten rest with ⟨found, hmarked, hsuffix⟩
      rw [statement, markedName?_eq_none hdeclare, hmarked] at h
      cases h
      exact ⟨_, rfl, hsuffix⟩
  | output value => exact hvalue (endsInFactor_output value)
  | assignment target value => exact hvalue (endsInFactor_assignment target value)

/-! ## Programs -/

section Statements

variable {text left : List Char} {program : Program String}

/-- Reading statements is reading the first one and then the others. -/
theorem statements_eq_ok_cons {first : Parsed (Statement String) text}
    (hfirst : statement depth text = .ok (some first))
    (h : statements depth text = .ok (program, left)) :
    ∃ others, program = first.value :: others ∧
      statements depth first.rest = .ok (others, left) := by
  rw [statements, hfirst] at h
  cases hothers : statements depth first.rest with
  | error e =>
      simp only [hothers] at h
      cases h
  | ok found =>
      simp only [hothers] at h
      cases h
      exact ⟨found.1, rfl, rfl⟩

/-- No statement starts in what is left over. -/
theorem statement_left (h : statements depth text = .ok (program, left)) :
    statement depth left = .ok none := by
  fun_induction statements depth text generalizing program left with
  | case1 text e hstatement => cases h
  | case2 text hstatement =>
      cases h
      exact hstatement
  | case3 text first hfirst e hothers => cases h
  | case4 text first hfirst others rest hothers ih =>
      cases h
      exact ih hothers

/-- A program is there, whatever follows it, unless it becomes too deep. The last statement
is the only one that what follows can change. -/
theorem statements_takes {body rest : List Char} {written : Program String}
    (hdepth : ∀ s ∈ written, s.depth ≤ depth) (hwritten : Written written.tokens body)
    (h : statements depth (body ++ rest) = .ok (program, left)) : left <:+ rest := by
  induction written generalizing body program with
  | nil =>
      rw [written_nil_iff.mp hwritten] at h
      exact (statements_sound h).1.suffix
  | cons s others ih =>
      rcases List.forall_mem_cons.mp hdepth with ⟨hs, hothers⟩
      cases others with
      | nil =>
          have hlast : Written s.tokens body := by simpa [Program.tokens] using hwritten
          cases hstatement : statement depth (body ++ rest) with
          | error e =>
              rw [statements, hstatement] at h
              cases h
          | ok result =>
              rcases statement_takes hs hlast hstatement with ⟨found, rfl, hsuffix⟩
              rcases statements_eq_ok_cons hstatement h with ⟨_, -, hleft⟩
              exact (statements_sound hleft).1.suffix.trans hsuffix
      | cons next others =>
          rcases hwritten.cut with ⟨before, behind, rfl, hbefore, hbehind, meet⟩
          rcases Statement.follows hbehind meet rest with ⟨hend, hop⟩
          rcases statement_complete hs hbefore hend hop with ⟨shorter, hstatement⟩
          rw [List.append_assoc] at h
          rcases statements_eq_ok_cons hstatement h with ⟨_, -, hleft⟩
          exact ih hothers hbehind hleft

end Statements

end Parser

namespace Program

/-- A program without tokens has no statements. -/
theorem tokens_eq_nil_iff {program : Program String} : tokens program = [] ↔ program = [] := by
  cases program with
  | nil => simp [tokens]
  | cons first program => cases first <;> simp [tokens, Statement.tokens]

/-- What is read from a text is its longest prefix that is a program. What is left over is
exact: in front of it stands the same program, which ends with a token, and nothing can be
read from it. Every other prefix that is a program, up to its last character, is no longer. -/
theorem ofText_longest {text remainder : String} {program : Program String}
    (h : ofText text = .ok (program, remainder)) :
    ∃ consumed : String, text = consumed ++ remainder ∧
      (consumed = "" ↔ program = []) ∧
      (∀ c ∈ consumed.toList.getLast?, isSeparator c = false) ∧
      ofText consumed = .ok (program, "") ∧
      ofText remainder = .ok ([], remainder) ∧
      ∀ (longer : String) (other : Program String), longer.toList <+: text.toList →
        ofText longer = .ok (other, "") → longer.length ≤ consumed.length := by
  rw [ofText_eq_ok_iff] at h
  rcases Parser.statements_sound h with ⟨⟨body, htext, hwritten, -⟩, hdepth⟩
  refine ⟨String.ofList body, ?_, ?_, ?_, ?_, ?_, ?_⟩
  · rw [← String.toList_inj, htext, String.toList_append, String.toList_ofList]
  · rw [← String.toList_inj, String.toList_ofList, ← tokens_eq_nil_iff]
    constructor
    · rintro rfl
      cases htokens : tokens program with
      | nil => rfl
      | cons token others =>
          rw [htokens] at hwritten
          exact absurd rfl hwritten.ne_nil
    · intro htokens
      rw [htokens] at hwritten
      exact written_nil_iff.mp hwritten
  · rw [String.toList_ofList]
    exact hwritten.not_isSeparator_getLast
  · rw [ofText_eq_ok_iff, String.toList_ofList]
    have hread := @Parser.statements_of_written _ _ _ [] hdepth hwritten (by simp)
    simpa using hread
  · rw [ofText_eq_ok_iff, Parser.statements, Parser.statement_left h]
  · intro longer other hprefix hlonger
    rw [ofText_eq_ok_iff] at hlonger
    rcases Parser.statements_sound hlonger with ⟨⟨front, hfront, hfrontWritten, -⟩, hfrontDepth⟩
    rcases hprefix with ⟨tail, htail⟩
    have hread := h
    rw [← htail, hfront, String.toList_empty, List.append_nil] at hread
    rcases Parser.statements_takes hfrontDepth hfrontWritten hread with ⟨middle, hmiddle⟩
    -- The same text is cut in two ways, and less is left over behind the longer part.
    have hlength := congrArg List.length (htail.trans htext)
    rw [← hmiddle] at hlength
    simp only [List.length_append, String.length_toList] at hlength
    rw [String.length_ofList]
    omega

/-- A number in front of a name that is not assigned to: the name and what follows it are
left over, and the number ends the program. -/
theorem ofText_longest_number :
    ∃ program, program ≠ [] ∧ ofText "@ab< 2e+ x" = .ok (program, "e+ x") ∧
      ofText "@ab< 2" = .ok (program, "") ∧ ofText "e+ x" = .ok ([], "e+ x") := by
  have hcheck : ((ofText "@ab< 2e+ x").toOption.any fun found =>
      found.1.length = 2 ∧ found.2 = "e+ x") = true := by
    decide +kernel
  cases hread : ofText "@ab< 2e+ x" with
  | error e =>
      rw [hread] at hcheck
      cases hcheck
  | ok found =>
      rcases found with ⟨program, remainder⟩
      simp only [hread, Except.toOption, Option.any_some, decide_eq_true_eq] at hcheck
      rcases hcheck with ⟨hlength, rfl⟩
      rcases ofText_longest hread with ⟨consumed, htext, -, -, hconsumed, hremainder, -⟩
      have heq : consumed = "@ab< 2" := by
        rw [← String.toList_inj, String.toList_append] at htext
        rw [← String.toList_inj]
        exact (List.append_cancel_right htext).symm
      rw [heq] at hconsumed
      refine ⟨program, ?_, rfl, hconsumed, hremainder⟩
      rintro rfl
      cases hlength

end Program

end Calc
