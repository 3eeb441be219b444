/-
# Cutting a text into lines

The lines of a text, joined by line feeds, are the text, and none of them holds a line
feed. The lines of an input are the same, but for an empty line at the end: each of them
is followed by a line feed, except that the last one may do without if it is not empty.
-/

import Calc.Text.Lines
import Mathlib.Data.List.Basic

namespace Calc.Text

theorem lines_cons (c : Char) (s : List Char) :
    ∃ line others, lines s = line :: others ∧
      lines (c :: s) = if c = '\n' then [] :: line :: others else (c :: line) :: others := by
  obtain ⟨line, others, hlines⟩ := List.exists_cons_of_ne_nil (lines_ne_nil s)
  refine ⟨line, others, hlines, ?_⟩
  rw [lines, hlines]

/-- No line holds a line feed. -/
theorem not_mem_of_mem_lines {s line : List Char} (h : line ∈ lines s) : '\n' ∉ line := by
  induction s generalizing line with
  | nil =>
      obtain rfl : line = [] := List.mem_singleton.mp h
      exact List.not_mem_nil
  | cons c s ih =>
      obtain ⟨first, others, hlines, hcons⟩ := lines_cons c s
      rw [hlines] at ih
      rw [hcons] at h
      split at h
      case isTrue =>
        rcases List.mem_cons.mp h with rfl | h
        · exact List.not_mem_nil
        · exact ih h
      case isFalse hc =>
        rcases List.mem_cons.mp h with rfl | h
        · exact List.not_mem_cons_of_ne_of_not_mem (Ne.symm hc) (ih List.mem_cons_self)
        · exact ih (List.mem_cons_of_mem _ h)

/-- All lines but the last one are followed by a line feed. -/
theorem flatMap_dropLast_lines (s : List Char) :
    ∃ last, (lines s).getLast? = some last ∧
      (lines s).dropLast.flatMap (· ++ ['\n']) ++ last = s := by
  induction s with
  | nil => exact ⟨[], rfl, rfl⟩
  | cons c s ih =>
      obtain ⟨first, others, hlines, hcons⟩ := lines_cons c s
      obtain ⟨last, hlast, hjoined⟩ := ih
      rw [hlines] at hlast hjoined
      rw [hcons]
      split
      case isTrue hc =>
        refine ⟨last, ?_, ?_⟩
        · rw [List.getLast?_cons_cons, hlast]
        · rw [hc, List.dropLast_cons_cons, List.flatMap_cons, List.nil_append, List.append_assoc,
            hjoined]
          rfl
      case isFalse =>
        cases others with
        | nil =>
            obtain rfl : first = last := Option.some.inj hlast
            exact ⟨c :: first, rfl, congrArg (c :: ·) hjoined⟩
        | cons second others =>
            refine ⟨last, ?_, ?_⟩
            · rw [List.getLast?_cons_cons] at hlast ⊢
              exact hlast
            · rw [List.dropLast_cons_cons, List.flatMap_cons] at hjoined ⊢
              rw [← hjoined]
              rfl

/-- The lines of an input, each with a line feed behind it, are the input, if a line feed
that is missing behind the last line is added. -/
theorem flatMap_inputLines (s : List Char) :
    (inputLines s).flatMap (· ++ ['\n']) = s ∨
      ∃ last, last ≠ [] ∧ (inputLines s).getLast? = some last ∧
        (inputLines s).flatMap (· ++ ['\n']) = s ++ ['\n'] := by
  obtain ⟨last, hlast, hjoined⟩ := flatMap_dropLast_lines s
  rw [inputLines, hlast]
  by_cases hempty : last = []
  · left
    rw [hempty] at hjoined ⊢
    simpa using hjoined
  · right
    have hne : ¬ some last = some [] := fun h => hempty (Option.some.inj h)
    rw [if_neg hne]
    refine ⟨last, hempty, hlast, ?_⟩
    have hall : lines s = (lines s).dropLast ++ [last] :=
      (List.dropLast_append_getLast? last hlast).symm
    rw [hall, List.flatMap_append, List.flatMap_singleton, ← List.append_assoc, hjoined]

theorem not_mem_of_mem_inputLines {s line : List Char} (h : line ∈ inputLines s) :
    '\n' ∉ line := by
  apply not_mem_of_mem_lines (s := s)
  rw [inputLines] at h
  split at h
  case isTrue => exact List.dropLast_subset _ h
  case isFalse => exact h

/-- The lines that can be read from an input. -/
def linesOf (text : String) : List String :=
  (inputLines text.toList).map String.ofList

theorem not_mem_of_mem_linesOf {text line : String} (h : line ∈ linesOf text) :
    '\n' ∉ line.toList := by
  obtain ⟨characters, hmem, rfl⟩ := List.mem_map.mp h
  rw [String.toList_ofList]
  exact not_mem_of_mem_inputLines hmem

/-- The lines that can be read from an input are the input. -/
theorem join_linesOf (text : String) :
    String.join ((linesOf text).map (· ++ "\n")) = text ∨
      ∃ last, last ≠ "" ∧ (linesOf text).getLast? = some last ∧
        String.join ((linesOf text).map (· ++ "\n")) = text ++ "\n" := by
  have hjoin : (String.join ((linesOf text).map (· ++ "\n"))).toList =
      (inputLines text.toList).flatMap (· ++ ['\n']) := by
    simp [linesOf, String.toList_join, List.flatMap_map]
  rcases flatMap_inputLines text.toList with h | ⟨last, hne, hlast, h⟩
  · left
    apply String.toList_injective
    rw [hjoin, h]
  · right
    refine ⟨String.ofList last, ?_, ?_, ?_⟩
    · rwa [Ne, ← String.toList_eq_nil_iff, String.toList_ofList]
    · rw [linesOf, List.getLast?_map, hlast]
      rfl
    · apply String.toList_injective
      rw [hjoin, h, String.toList_append]
      rfl

end Calc.Text
