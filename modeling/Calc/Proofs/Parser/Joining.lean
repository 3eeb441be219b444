/-
# Programs written one behind the other

A fragment fills its text with a program if nothing but separators stands behind
the last word. Such texts can be joined by lines: what they make together is filled
with all statements of all fragments, since a line feed ends every name, and the
separators left over by one fragment become the gap in front of the next one.
-/

import Calc.Proofs.Parser.Acceptance
import Mathlib.Data.List.Forall2

namespace Calc

open Text

/-- Separators in front of a text belong to the gap in front of its first word. -/
theorem Written.gap_append {token : Token} {tokens : List Token} {gap text : List Char}
    (h : Written (token :: tokens) text) (hgap : IsGap gap) :
    Written (token :: tokens) (gap ++ text) := by
  cases h with
  | cons separators spelled others apart =>
      rw [← List.append_assoc]
      exact .cons (hgap.append separators) spelled others apart

theorem startsWithGap_gap_append {gap : List Char} (hgap : IsGap gap) (hne : gap ≠ [])
    (text : List Char) : StartsWithGap (gap ++ text) := by
  obtain ⟨c, rest, rfl⟩ := List.exists_cons_of_ne_nil hne
  exact ⟨c, rfl, hgap c List.mem_cons_self⟩

namespace Program

/-- The text is made of the words of the program, and separators behind them. -/
def Fills (program : Program String) (text : List Char) : Prop :=
  ∃ body gap, text = body ++ gap ∧ Written program.tokens body ∧ IsGap gap

variable {first second : Program String} {text later gap : List Char}

/-- A fragment is joined behind another one with separators between them. What the
first one leaves over and the separators make the gap in front of the second one. -/
theorem Fills.append (hfirst : first.Fills text) (hsecond : second.Fills later)
    (hgap : IsGap gap) (hne : gap ≠ []) : Fills (first ++ second) (text ++ (gap ++ later)) := by
  obtain ⟨body, left, rfl, hbody, hleft⟩ := hfirst
  obtain ⟨body', left', rfl, hbody', hleft'⟩ := hsecond
  have hbetween : IsGap (left ++ gap) := hleft.append hgap
  have hne : left ++ gap ≠ [] := List.append_ne_nil_of_right_ne_nil left hne
  have htokens : Program.tokens (first ++ second) = first.tokens ++ second.tokens :=
    List.flatMap_append
  rw [Fills, htokens]
  cases hempty : second.tokens with
  | nil =>
      rw [hempty, written_nil_iff] at hbody'
      subst hbody'
      refine ⟨body, (left ++ gap) ++ left', by simp, ?_, hbetween.append hleft'⟩
      rw [List.append_nil]
      exact hbody
  | cons token tokens =>
      rw [hempty] at hbody'
      refine ⟨body ++ ((left ++ gap) ++ body'), left', by simp, ?_, hleft'⟩
      refine hbody.append (hbody'.gap_append hbetween) fun _ _ => ?_
      exact startsWithGap_gap_append hbetween hne _

/-- A text that is filled with a program is read as the program, and separators are
left over. -/
theorem Fills.ofText {fragment : String} (h : first.Fills fragment.toList)
    (hdepth : ∀ s ∈ first, s.depth ≤ maxDepth) :
    ∃ rest, Program.ofText fragment = .ok (first, rest) ∧ IsGap rest.toList := by
  obtain ⟨body, gap, htext, hwritten, hgap⟩ := h
  have hblank : ∀ c ∈ gap, isBlank c = true := fun c hc => isBlank_of_isSeparator (hgap c hc)
  refine ⟨String.ofList gap, ?_, by rwa [String.toList_ofList]⟩
  rw [Program.ofText, htext, Parser.statements_of_written hdepth hwritten hblank]

/-- A text that is filled with a program is read as this program. -/
theorem Fills.complete {fragment : String} (h : first.Fills fragment.toList)
    (hdepth : ∀ s ∈ first, s.depth ≤ maxDepth) : Program.complete fragment = .ok first := by
  obtain ⟨body, gap, htext, hwritten, hgap⟩ := h
  refine complete_of_spelledBy hdepth ⟨body, gap, htext, hwritten, fun c hc => ?_⟩
  exact isBlank_of_isSeparator (hgap c hc)

/-- A declaration of a name of letters, with separators behind it. -/
theorem fills_declaration {letters : List Char} (given : letters ≠ [])
    (alphabetic : ∀ c ∈ letters, c.isAlpha = true) (hgap : IsGap gap) :
    Fills [.declaration (String.ofList letters)] ('@' :: (letters ++ gap)) := by
  refine ⟨'@' :: letters, gap, rfl, ?_, hgap⟩
  have hname : Written [.name (String.ofList letters)] ([] ++ (letters ++ [])) :=
    .cons isGap_nil (.name given alphabetic) .nil fun _ h => by simp [StartsWithName] at h
  rw [List.nil_append, List.append_nil] at hname
  exact .cons isGap_nil .declare hname fun h => h.elim

end Program

end Calc
