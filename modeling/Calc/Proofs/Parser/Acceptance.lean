/-
# Which texts are programs

A text is read as a program exactly when it spells the program. Being spelled by a
text is a property of the grammar alone, so this says what the reader does without
mentioning how it works. Two consequences are about the grammar itself: no text
spells two programs, and how much space stands between the words of a program, as
long as names stay apart, does not change what it is.

The bound on nested parentheses enters in one direction only. Whatever is read is
nested less deeply than the bound, so nothing has to be assumed there.
-/

import Calc.Program.Complete
import Calc.Proofs.Parser.Completeness

namespace Calc

open Text

namespace Parser

/-- No statement starts in a text of blanks. -/
theorem statement_of_blank {blank : List Char} (h : ∀ c ∈ blank, isBlank c = true) (depth : Nat) :
    statement depth blank = .ok none := by
  have hskip : ∀ c ∈ (skipSeparators blank).head?, isBlank c = true := by
    intro c hc
    exact h c ((List.dropWhile_suffix _).mem (List.mem_of_head? hc))
  have hmark : ∀ {mark : Char}, isBlank mark = false → mark? mark blank = none := by
    intro mark hmark
    refine mark?_eq_none fun c hc => ?_
    rintro rfl
    rw [hskip c hc] at hmark
    cases hmark
  have hname : name? blank = none := by
    refine name?_eq_none fun c hc => ?_
    have hword := isWordChar_of_isBlank (hskip c hc)
    simp only [isWordChar, Bool.or_eq_false_iff] at hword
    exact hword.1.1
  unfold statement
  rw [markedName?_eq_none (hmark rfl), markedName?_eq_none (hmark rfl), hmark rfl, hname]

/-- Blanks end every token and every chain. -/
theorem follows_blank {blank : List Char} (h : ∀ c ∈ blank, isBlank c = true)
    (tokens : List Token) : EndBefore tokens blank ∧ NoOperator blank := by
  refine ⟨endBefore_of_stopsRun (fun c hc => ?_) tokens, fun c hc => ?_⟩
  · exact isWordChar_of_isBlank (h c (List.mem_of_head? hc))
  · exact operator?_of_isBlank (h c ((List.dropWhile_suffix _).mem (List.mem_of_head? hc)))

/-- The words of a program with blanks behind them are read as this program, and
the blanks are left over. -/
theorem statements_of_written {program : Program String} {depth : Nat} {body blank : List Char}
    (hdepth : ∀ s ∈ program, s.depth ≤ depth) (hwritten : Written program.tokens body)
    (hblank : ∀ c ∈ blank, isBlank c = true) :
    statements depth (body ++ blank) = .ok (program, blank) := by
  obtain ⟨hend, hop⟩ := follows_blank hblank program.tokens
  rw [statements_complete hdepth hwritten hend hop, statements, statement_of_blank hblank]
  simp [Except.map]

end Parser

namespace Program

theorem ofText_eq_ok_iff {text remainder : String} {program : Program String} :
    ofText text = .ok (program, remainder) ↔
      Parser.statements maxDepth text.toList = .ok (program, remainder.toList) := by
  unfold ofText
  cases Parser.statements maxDepth text.toList with
  | error e => simp
  | ok found => simp [Prod.ext_iff, ← String.toList_inj]

theorem complete_eq_ok_iff_statements {text : String} {program : Program String} :
    complete text = .ok program ↔
      ∃ blank, Parser.statements maxDepth text.toList = .ok (program, blank) ∧
        ∀ c ∈ blank, isBlank c = true := by
  unfold complete ofText
  cases Parser.statements maxDepth text.toList with
  | error e => simp [Reading.whole]
  | ok found =>
      obtain ⟨others, rest⟩ := found
      simp only [Reading.whole, String.toList_ofList, List.all_eq_true]
      split
      case isTrue hblank =>
        constructor
        · rintro ⟨⟩
          exact ⟨rest, rfl, hblank⟩
        · rintro ⟨blank, ⟨⟩, -⟩
          rfl
      case isFalse hblank =>
        constructor
        · rintro ⟨⟩
        · rintro ⟨blank, ⟨⟩, hblank'⟩
          exact (hblank hblank').elim

/-- Only what a text spells is read from it. -/
theorem spelledBy_of_complete {text : String} {program : Program String}
    (h : complete text = .ok program) :
    program.SpelledBy text ∧ ∀ s ∈ program, s.depth ≤ maxDepth := by
  obtain ⟨blank, hstatements, hblank⟩ := complete_eq_ok_iff_statements.mp h
  obtain ⟨⟨body, htext, hwritten, -⟩, hdepth⟩ := Parser.statements_sound hstatements
  exact ⟨⟨body, blank, htext, hwritten, hblank⟩, hdepth⟩

/-- A text that spells a program is read as the program, if this is not nested too
deeply. -/
theorem complete_of_spelledBy {text : String} {program : Program String}
    (hdepth : ∀ s ∈ program, s.depth ≤ maxDepth) (h : program.SpelledBy text) :
    complete text = .ok program := by
  obtain ⟨body, blank, htext, hwritten, hblank⟩ := h
  refine complete_eq_ok_iff_statements.mpr ⟨blank, ?_, hblank⟩
  rw [htext, Parser.statements_of_written hdepth hwritten hblank]

/-- Every program has a bound on its nesting. -/
theorem exists_depth_le (program : Program String) : ∃ depth, ∀ s ∈ program, s.depth ≤ depth := by
  induction program with
  | nil => exact ⟨0, by simp⟩
  | cons first program ih =>
      obtain ⟨depth, hdepth⟩ := ih
      refine ⟨max first.depth depth, List.forall_mem_cons.mpr ⟨le_max_left _ _, fun s hs => ?_⟩⟩
      exact (hdepth s hs).trans (le_max_right _ _)

/-- No text spells two programs, however deeply they are nested: both are what is
read under a bound that is large enough for them. -/
theorem SpelledBy.unique {text : String} {first second : Program String}
    (hfirst : first.SpelledBy text) (hsecond : second.SpelledBy text) : first = second := by
  obtain ⟨body, blank, htext, hwritten, hblank⟩ := hfirst
  obtain ⟨body', blank', htext', hwritten', hblank'⟩ := hsecond
  obtain ⟨depth, hbound⟩ := exists_depth_le (first ++ second)
  obtain ⟨hdepth, hdepth'⟩ := List.forall_mem_append.mp hbound
  have hread := Parser.statements_of_written hdepth hwritten hblank
  have hread' := Parser.statements_of_written hdepth' hwritten' hblank'
  rw [← htext] at hread
  rw [← htext', hread] at hread'
  exact (Prod.mk.inj (Except.ok.inj hread')).1

/-- Reading a whole text accepts exactly the texts of the grammar and returns
exactly the program that they spell. What is returned is spelled by the text, at
any depth; what is spelled and has at most 300 parentheses open at once is
returned. So no text spells two programs, and two texts that spell the same
program, whatever gaps and words they have, are read alike. -/
theorem complete_iff_spelledBy (text : String) (program : Program String) :
    (complete text = .ok program → program.SpelledBy text) ∧
    ((∀ s ∈ program, s.depth ≤ 300) → program.SpelledBy text → complete text = .ok program) ∧
    (∀ other : Program String, program.SpelledBy text → other.SpelledBy text →
      other = program) ∧
    (∀ (other : String) (result : Program String), program.SpelledBy text →
      program.SpelledBy other → (complete text = .ok result ↔ complete other = .ok result)) := by
  refine ⟨fun h => (spelledBy_of_complete h).1, fun hdepth h => ?_,
    fun other h hother => hother.unique h, fun other result h hother => ?_⟩
  · exact complete_of_spelledBy (fun s hs => (hdepth s hs).trans le_maxDepth) h
  · have hread : ∀ {source target : String}, program.SpelledBy source →
        program.SpelledBy target → complete source = .ok result → complete target = .ok result := by
      intro source target hsource htarget hresult
      obtain ⟨hspelled, hdepth⟩ := spelledBy_of_complete hresult
      obtain rfl := hspelled.unique hsource
      exact complete_of_spelledBy hdepth htarget
    exact ⟨hread h hother, hread hother h⟩

/-- A number directly in front of a name that starts with an `e`: the letter is not
taken for the mark of an exponent. -/
theorem complete_number_before_name :
    complete "@e<1e:=-2" = .ok [.declaration "e",
      .output (.term (.factor (.literal (Numeral.toFloat ⟨false, ⟨1, 0⟩⟩)))),
      .assignment "e" (.term (.factor (.literal (Numeral.toFloat ⟨true, ⟨2, 0⟩⟩))))] := by
  have hname : (Token.name "e").Word ['e'] :=
    @Token.Word.name ['e'] (List.cons_ne_nil _ _) (by simp)
  have hone : Numeral.Word ['1'] ⟨false, ⟨1, 0⟩⟩ :=
    @Numeral.Word.intro [] ['1'] ['1'] [] [] false 0 .absent
      (.whole ⟨List.cons_ne_nil _ _, by simp⟩) .absent
  have htwo : Numeral.Word ['-', '2'] ⟨true, ⟨2, 0⟩⟩ :=
    @Numeral.Word.intro ['-'] ['2'] ['2'] [] [] true 0 .minus
      (.whole ⟨List.cons_ne_nil _ _, by simp⟩) .absent
  have hdeclaration : Written [.declare, .name "e"] ['@', 'e'] :=
    .cons isGap_nil .declare (.cons isGap_nil hname .nil fun _ h => by simp [StartsWithName] at h)
      fun h => h.elim
  have houtput : Written [.print, .number (Numeral.toFloat ⟨false, ⟨1, 0⟩⟩)] ['<', '1'] :=
    .cons isGap_nil .print (.cons isGap_nil (.number hone) .nil fun h => h.elim) fun h => h.elim
  have hassignment : Written [.name "e", .assign, .number (Numeral.toFloat ⟨true, ⟨2, 0⟩⟩)]
      ['e', ':', '=', '-', '2'] :=
    .cons isGap_nil hname (.cons isGap_nil .assign (.cons isGap_nil (.number htwo) .nil
      fun h => h.elim) fun h => h.elim) fun _ h => (startsWithName_cons.mp h).elim
  refine (complete_iff_spelledBy _ _).2.1 (by decide)
    ⟨['@', 'e', '<', '1', 'e', ':', '=', '-', '2'], [], rfl, ?_, by simp⟩
  refine hdeclaration.append (houtput.append hassignment ?_) ?_
  · rintro ⟨token, ⟨⟩, hname⟩
    exact hname.elim
  · rintro - ⟨token, ⟨⟩, hname⟩
    exact hname.elim

end Program

end Calc
