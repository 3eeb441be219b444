/-
# The mark of a column

A place is pointed out by the lines around it, each with its number in front, and a mark
below the line that it is in. Which lines are shown, and where the mark is put among them,
is right for every text and every place. The mark itself is moved to the right by as much
room as a number of up to four digits takes. It stands below its column as long as the line
has such a number, and too far to the left, by one for every further digit, from the ten
thousandth line on.
-/

import Calc.Proofs.Text.Places

namespace Calc.Text

/-! ## Numbers in front of lines -/

theorem toList_pushn (s : String) (c : Char) (n : Nat) :
    (s.pushn c n).toList = s.toList ++ List.replicate n c := by
  induction n with
  | zero => exact (List.append_nil _).symm
  | succ n ih =>
      rw [List.replicate_succ', ← List.append_assoc, ← ih]
      exact String.toList_push c

/-- What stands in front of the line with the given number: the number, at the right end of
four columns if it has no more digits, a colon and a blank. -/
def numberLabel (number : Nat) : String :=
  "".pushn ' ' (4 - (toString number).length) ++ toString number ++ ": "

theorem numberedLine_eq (number : Nat) (content : List Char) :
    numberedLine number content = numberLabel number ++ String.ofList content := rfl

theorem toList_numberLabel (number : Nat) :
    (numberLabel number).toList =
      List.replicate (4 - (toString number).length) ' ' ++
        (Nat.toDigits 10 number ++ [':', ' ']) := by
  have hdigits : (toString number).toList = Nat.toDigits 10 number := String.toList_ofList
  rw [numberLabel, String.toList_append, String.toList_append, toList_pushn, hdigits,
    List.append_assoc]
  rfl

theorem length_toString (number : Nat) :
    (toString number).length = (Nat.toDigits 10 number).length := by
  rw [← String.length_toList]
  exact congrArg List.length String.toList_ofList

/-- A label has room for four digits, and more where they are needed. -/
theorem length_numberLabel (number : Nat) :
    (numberLabel number).length = max 4 (toString number).length + 2 := by
  rw [← String.length_toList, toList_numberLabel]
  simp only [List.length_append, List.length_replicate, length_toString, List.length_cons,
    List.length_nil]
  omega

/-- A label holds no line feed. -/
theorem not_mem_numberLabel (number : Nat) : '\n' ∉ (numberLabel number).toList := by
  have hdigits : '\n' ∉ Nat.toDigits 10 number := fun h =>
    absurd (Nat.isDigit_of_mem_toDigits (by decide) (by decide) h) (by decide)
  simp [toList_numberLabel, hdigits]

theorem toList_caretLine (column : Nat) :
    (caretLine column).toList =
      List.replicate (6 + (column - 1)) ' ' ++ "^ Error here".toList := by
  have hblanks : ((column : Int) - 1).toNat = column - 1 := by omega
  rw [caretLine, hblanks, String.toList_append, String.toList_append, toList_pushn, toList_pushn,
    List.replicate_add]
  rfl

/-- The mark has room for a label of four digits in front of it. -/
theorem idxOf_caretLine (column : Nat) :
    (caretLine column).toList.idxOf '^' = 6 + (column - 1) := by
  rw [toList_caretLine, List.idxOf_append_of_notMem (by simp), List.length_replicate]
  rfl

/-! ## Lines around a place -/

/-- The line of a text with the given number, as it is shown. -/
def sourceLine (text : List Char) (number : Nat) : String :=
  numberedLine number ((lines text).getD (number - 1) [])

theorem sourceLine_eq {text content : List Char} {number : Nat}
    (h : (lines text)[number - 1]? = some content) :
    sourceLine text number = numberLabel number ++ String.ofList content := by
  rw [sourceLine, List.getD_eq_getElem?_getD, h, Option.getD_some, numberedLine_eq]

/-- What is shown of the line with the given number. -/
def shownAt (text : List Char) (line column around number : Nat) : List String :=
  if line - around ≤ number ∧ number ≤ line + around then
    sourceLine text number :: if number = line then [caretLine column] else []
  else []

/-- The numbers below an end are cut at a number in between. -/
theorem range'_eq_append {first middle past : Nat} (h : first ≤ middle) (h' : middle ≤ past) :
    List.range' first (past - first) =
      List.range' first (middle - first) ++ List.range' middle (past - middle) := by
  have hsum : past - first = (middle - first) + (past - middle) := by omega
  rw [hsum, ← List.range'_append_1, Nat.add_sub_cancel' h]

/-- The lines are gone through by their numbers. -/
theorem contextLines_eq_flatMap (text : List Char) (line column around : Nat) :
    contextLines text line column around =
      (List.range' 1 (lines text).length).flatMap (shownAt text line column around) := by
  have hnumbers : (lines text).zipIdx =
      (List.range' 1 (lines text).length).map fun number =>
        ((lines text).getD (number - 1) [], number - 1) := by
    apply List.ext_getElem (by simp)
    intro i hi _
    have hlt : i < (lines text).length := by simpa using hi
    simp [hlt]
  rw [contextLines, hnumbers, List.flatMap_map]
  apply List.flatMap_congr
  intro number hnumber
  have hpos : 1 ≤ number := (List.mem_range'_1.mp hnumber).1
  have hwindow : ((line : Int) - around - 1 ≤ ((number - 1 : Nat) : Int) ∧
      ((number - 1 : Nat) : Int) < line + around) ↔
      line - around ≤ number ∧ number ≤ line + around := by
    omega
  have hline : ((number - 1 : Nat) : Int) = line - 1 ↔ number = line := by omega
  simp only [shownAt, sourceLine, hwindow, hline, Nat.sub_add_cancel hpos]

section Window

variable {text : List Char} {line column around : Nat}

/-- Outside the window nothing is shown. -/
theorem flatMap_shownAt_outside {numbers : List Nat}
    (h : ∀ number ∈ numbers, number < line - around ∨ line + around < number) :
    numbers.flatMap (shownAt text line column around) = [] := by
  rw [List.flatMap_eq_nil_iff]
  intro number hnumber
  exact if_neg fun hwindow => by have := h number hnumber; omega

/-- Inside the window the lines are shown as they are, but for the one that is marked. -/
theorem flatMap_shownAt_inside {numbers : List Nat}
    (h : ∀ number ∈ numbers,
      line - around ≤ number ∧ number ≤ line + around ∧ number ≠ line) :
    numbers.flatMap (shownAt text line column around) = numbers.map (sourceLine text) := by
  have hshown : ∀ number ∈ numbers,
      shownAt text line column around number = [sourceLine text number] := by
    intro number hnumber
    obtain ⟨hfirst, hlast, hne⟩ := h number hnumber
    rw [shownAt, if_pos ⟨hfirst, hlast⟩, if_neg hne]
  rw [List.flatMap_congr hshown, List.map_eq_flatMap]

/-- The marked line is shown with its mark directly below it. -/
theorem shownAt_self : shownAt text line column around line =
    [sourceLine text line, caretLine column] := by
  rw [shownAt, if_pos ⟨Nat.sub_le _ _, Nat.le_add_right _ _⟩, if_pos rfl]

/-- The lines around a place are those with the numbers around its own, as far as the text
has them, and the mark is below the line of the place. -/
theorem contextLines_eq (hline : 1 ≤ line) (hle : line ≤ (lines text).length) :
    contextLines text line column around =
      (List.range' (max 1 (line - around)) (line - max 1 (line - around))).map
          (sourceLine text) ++
        sourceLine text line :: caretLine column ::
          (List.range' (line + 1) (min (lines text).length (line + around) - line)).map
            (sourceLine text) := by
  rw [contextLines_eq_flatMap]
  generalize hfirst : max 1 (line - around) = first
  generalize hlast : min (lines text).length (line + around) = last
  generalize hcount : (lines text).length = count at hle hlast
  -- The numbers are cut at the two ends of the window and around the line.
  have hnumbers : List.range' 1 count =
      List.range' 1 (first - 1) ++ (List.range' first (line - first) ++
        (line :: (List.range' (line + 1) (last - line) ++
          List.range' (last + 1) (count - last)))) := by
    have hlower := range'_eq_append (show 1 ≤ first by omega) (show first ≤ count + 1 by omega)
    have hmiddle := range'_eq_append (show first ≤ line by omega) (show line ≤ count + 1 by omega)
    have hupper := range'_eq_append (show line + 1 ≤ last + 1 by omega)
      (show last + 1 ≤ count + 1 by omega)
    have hself : count + 1 - line = (count + 1 - (line + 1)) + 1 := by omega
    rw [hmiddle, hself, List.range'_succ, hupper, Nat.add_sub_cancel, Nat.add_sub_add_right,
      Nat.add_sub_add_right] at hlower
    exact hlower
  have hbefore : (List.range' 1 (first - 1)).flatMap (shownAt text line column around) = [] :=
    flatMap_shownAt_outside fun number h => by rw [List.mem_range'_1] at h; omega
  have hbehind : (List.range' (last + 1) (count - last)).flatMap
      (shownAt text line column around) = [] :=
    flatMap_shownAt_outside fun number h => by rw [List.mem_range'_1] at h; omega
  have habove : (List.range' first (line - first)).flatMap (shownAt text line column around) =
      (List.range' first (line - first)).map (sourceLine text) :=
    flatMap_shownAt_inside fun number h => by rw [List.mem_range'_1] at h; omega
  have hbelow : (List.range' (line + 1) (last - line)).flatMap
      (shownAt text line column around) =
      (List.range' (line + 1) (last - line)).map (sourceLine text) :=
    flatMap_shownAt_inside fun number h => by rw [List.mem_range'_1] at h; omega
  rw [hnumbers, List.flatMap_append, List.flatMap_append, List.flatMap_cons, List.flatMap_append,
    hbefore, habove, shownAt_self, hbelow, hbehind, List.nil_append, List.append_nil]
  rfl

/-- Without lines around it, the line of the place is shown alone. -/
theorem contextLines_zero (hline : 1 ≤ line) (hle : line ≤ (lines text).length) :
    contextLines text line column 0 = [sourceLine text line, caretLine column] := by
  have hself : max 1 line = line := max_eq_right hline
  have hlast : min (lines text).length line - line = 0 := by omega
  have hwindow := @contextLines_eq text line column 0 hline hle
  rw [Nat.sub_zero, hself, Nat.sub_self, Nat.add_zero line, hlast] at hwindow
  exact hwindow

/-- No line that is shown holds a line feed. -/
theorem not_mem_of_mem_contextLines {shown : String}
    (h : shown ∈ contextLines text line column around) : '\n' ∉ shown.toList := by
  have hsource (number : Nat) : '\n' ∉ (sourceLine text number).toList := by
    have hcontent : '\n' ∉ (lines text).getD (number - 1) [] := by
      rw [List.getD_eq_getElem?_getD]
      cases hline : (lines text)[number - 1]? with
      | none => exact List.not_mem_nil
      | some content => exact not_mem_of_mem_lines (List.mem_of_getElem? hline)
    rw [sourceLine, numberedLine_eq, String.toList_append, String.toList_ofList,
      List.mem_append, not_or]
    exact ⟨not_mem_numberLabel number, hcontent⟩
  have hmark : '\n' ∉ (caretLine column).toList := by
    rw [toList_caretLine]
    simp
  rw [contextLines_eq_flatMap, List.mem_flatMap] at h
  rcases h with ⟨number, -, hshown⟩
  rw [shownAt] at hshown
  split at hshown
  case isFalse => cases hshown
  case isTrue =>
    rcases List.mem_cons.mp hshown with rfl | hshown
    · exact hsource number
    · split at hshown
      case isFalse => cases hshown
      case isTrue => exact List.mem_singleton.mp hshown ▸ hmark

/-- The text that is shown has exactly these lines. -/
theorem lines_context (hline : 1 ≤ line) (hle : line ≤ (lines text).length) :
    lines (context text line column around).toList =
      (contextLines text line column around).map String.toList := by
  rw [context, String.toList_intercalate]
  apply lines_intercalate
  · rw [contextLines_eq hline hle]
    simp
  · intro shown hshown
    rcases List.mem_map.mp hshown with ⟨shown, hmem, rfl⟩
    exact not_mem_of_mem_contextLines hmem

end Window

/-- The line of a place is the first one that is shown when there are none around it. -/
theorem firstLine_context {text content : List Char} {offset line column : Nat} {c : Char}
    (h : StandsAt text offset line column content c) :
    firstLine (context text line column 0).toList =
      List.replicate (4 - (toString line).length) ' ' ++
        (Nat.toDigits 10 line ++ ':' :: ' ' :: content) := by
  have hlines := @lines_context text line column 0 h.one_le_line h.line_le
  have hshown : contextLines text line column ((0 : Nat) : Int) = _ :=
    contextLines_zero h.one_le_line h.line_le
  rw [hshown, sourceLine_eq h.content_eq] at hlines
  have hfirst := head?_lines (context text line column ((0 : Nat) : Int)).toList
  rw [hlines] at hfirst
  have hlabel : (numberLabel line ++ String.ofList content).toList =
      List.replicate (4 - (toString line).length) ' ' ++
        (Nat.toDigits 10 line ++ ':' :: ' ' :: content) := by
    rw [String.toList_append, @String.toList_ofList content, toList_numberLabel, List.append_assoc,
      List.append_assoc, List.cons_append, List.cons_append, List.nil_append]
  exact (Option.some.inj hfirst).symm.trans hlabel

/-! ## The mark -/

/-- The mark is too far to the left by as many characters as the number of the line has
digits beyond four. -/
theorem idxOf_caretLine_add (line column : Nat) :
    (caretLine column).toList.idxOf '^' + ((toString line).length - 4) =
      (numberLabel line).length + (column - 1) := by
  rw [idxOf_caretLine, length_numberLabel]
  omega

theorem length_toString_le_four_iff (number : Nat) :
    (toString number).length ≤ 4 ↔ number < 10000 := by
  rw [length_toString, Nat.length_toDigits_le_iff (by decide) (by decide)]

/-- What is shown around a place: the lines of the text with the numbers around that of the
place, each of them once, in full and behind its number, and one mark, below the line of the
place. In this line the character at the column stands behind the label and the characters
in front of it; the mark is as far to the right, up to the digits of the number beyond four,
and so it stands below the column up to line 9999. -/
theorem context_shows_window (text : String) {line column : Nat} {content : List Char}
    (around : Nat) (hline : 1 ≤ line) (hcontent : (lines text.toList)[line - 1]? = some content)
    (hcolumn : 1 ≤ column) (hle : column ≤ content.length) :
    let first := max 1 (line - around)
    let last := min (lines text.toList).length (line + around)
    lines (context text.toList line column around).toList =
        ((List.range' first (line - first)).map (sourceLine text.toList) ++
          sourceLine text.toList line :: caretLine column ::
            (List.range' (line + 1) (last - line)).map (sourceLine text.toList)).map
          String.toList ∧
      (∀ number, first ≤ number → number ≤ last →
        ∃ content, (lines text.toList)[number - 1]? = some content ∧
          sourceLine text.toList number = numberLabel number ++ String.ofList content) ∧
      (∃ c, content[column - 1]? = some c ∧
        (sourceLine text.toList line).toList[(numberLabel line).length + (column - 1)]? =
          some c) ∧
      (caretLine column).toList.idxOf '^' + ((toString line).length - 4) =
        (numberLabel line).length + (column - 1) ∧
      ((caretLine column).toList.idxOf '^' = (numberLabel line).length + (column - 1) ↔
        line < 10000) := by
  intro first last
  have hlast : line ≤ (lines text.toList).length := by
    have hlt := (List.getElem?_eq_some_iff.mp hcontent).1
    omega
  have hshift := idxOf_caretLine_add line column
  refine ⟨?_, ?_, ?_, hshift, ?_⟩
  · rw [lines_context hline hlast, contextLines_eq hline hlast]
  · intro number hfirst hnumber
    have hlt : number - 1 < (lines text.toList).length := by omega
    exact ⟨_, List.getElem?_eq_getElem hlt, sourceLine_eq (List.getElem?_eq_getElem hlt)⟩
  · have hlt : column - 1 < content.length := by omega
    refine ⟨_, List.getElem?_eq_getElem hlt, ?_⟩
    rw [sourceLine_eq hcontent, String.toList_append, String.toList_ofList, ← String.length_toList,
      List.getElem?_append_right (Nat.le_add_right _ _), Nat.add_sub_cancel_left]
    exact List.getElem?_eq_getElem hlt
  · rw [← length_toString_le_four_iff]
    omega

/-- The second of three lines, with one line above and one below it. -/
theorem context_shows_window_of_three :
    lines (context "ab\ncd\nef".toList 2 2 1).toList =
        ["   1: ab", "   2: cd", "       ^ Error here", "   3: ef"].map String.toList ∧
      (caretLine 2).toList.idxOf '^' = (numberLabel 2).length + 1 := by
  rcases @context_shows_window "ab\ncd\nef" 2 2 ['c', 'd'] 1 (by decide) (by decide) (by decide)
    (by decide) with ⟨hlines, -, -, -, hmark⟩
  exact ⟨hlines, hmark.mpr (by decide)⟩

/-- Behind line feeds alone, the lines are empty. -/
theorem lines_replicate_append (n : Nat) (s : List Char) :
    lines (List.replicate n '\n' ++ s) = List.replicate n [] ++ lines s := by
  induction n with
  | zero => rfl
  | succ n ih =>
      obtain ⟨line, others, hlines, hcons⟩ := lines_cons '\n' (List.replicate n '\n' ++ s)
      rw [List.replicate_succ, List.cons_append, hcons, if_pos rfl, ← hlines, ih]
      rfl

/-- In the ten thousandth line, the only character stands at offset seven of what is shown,
and the mark of its column at offset six of the line below. -/
theorem context_marks_beside_column :
    let text := String.ofList (List.replicate 9999 '\n' ++ ['x'])
    (lines text.toList)[10000 - 1]? = some ['x'] ∧
      lines (context text.toList 10000 1 0).toList =
        ["10000: x", "      ^ Error here"].map String.toList ∧
      "10000: x".toList.idxOf 'x' = 7 ∧ "      ^ Error here".toList.idxOf '^' = 6 := by
  intro text
  have hlines : lines text.toList = List.replicate 9999 [] ++ [['x']] := by
    rw [String.toList_ofList]
    exact lines_replicate_append 9999 ['x']
  have hcontent : (lines text.toList)[10000 - 1]? = some ['x'] := by
    rw [hlines, List.getElem?_append_right (by rw [List.length_replicate]), List.length_replicate]
    rfl
  have hle : 10000 ≤ (lines text.toList).length := by
    rw [hlines, List.length_append, List.length_replicate]
    rfl
  have hshown : contextLines text.toList 10000 1 0 = ["10000: x", "      ^ Error here"] := by
    have hzero := @contextLines_zero text.toList 10000 1 (by decide) hle
    rw [sourceLine_eq hcontent] at hzero
    exact hzero
  have hcontext := @lines_context text.toList 10000 1 0 (by decide) hle
  exact ⟨hcontent, hcontext.trans (congrArg (List.map String.toList) hshown), rfl, rfl⟩

end Calc.Text
