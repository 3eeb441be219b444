/-
# One character, two places

A character of a text is found by its offset, and it is found by its line and its column.
Both count the same characters: up to an offset stand the lines above, each with its line
feed, and the part of the line that is in front of the column. So the line and the column
that are computed from an offset name the character at the offset, whatever stands around
it, as long as it is no line feed itself.
-/

import Calc.Proofs.Text.InputLines
import Calc.Proofs.Text.Runs
import Calc.Text.Place

namespace Calc.Text

/-! ## Lines -/

/-- Cutting a text into its lines is splitting it at its line feeds. -/
theorem lines_eq_splitOn (s : List Char) : lines s = s.splitOn '\n' := by
  induction s with
  | nil => rfl
  | cons c s ih =>
      obtain ⟨line, others, hlines, hcons⟩ := lines_cons c s
      have hsplit : s.splitOnP (· == '\n') = line :: others := ih.symm.trans hlines
      rw [hcons, List.splitOn, List.splitOnP_cons_eq_if_modifyHead, hsplit]
      simp only [beq_iff_eq, List.modifyHead_cons]

/-- Lines without line feeds are read back when line feeds are put between them. -/
theorem lines_intercalate {content : List (List Char)} (hne : content ≠ [])
    (h : ∀ line ∈ content, '\n' ∉ line) : lines (['\n'].intercalate content) = content := by
  rw [lines_eq_splitOn]
  exact List.splitOn_intercalate '\n' h hne

/-- Lines with a line feed behind each of them are read back, and behind the last line feed
there is an empty line. -/
theorem lines_flatMap_lineFeed {content : List (List Char)} (h : ∀ line ∈ content, '\n' ∉ line) :
    lines (content.flatMap (· ++ ['\n'])) = content ++ [[]] := by
  have hbetween : content.flatMap (· ++ ['\n']) = ['\n'].intercalate (content ++ [[]]) := by
    induction content with
    | nil => rfl
    | cons line content ih =>
        have hne : content ++ [[]] ≠ [] :=
          List.append_ne_nil_of_right_ne_nil _ (List.cons_ne_nil _ _)
        rw [List.flatMap_cons, List.cons_append, List.intercalate_cons_of_ne_nil hne,
          ih (List.forall_mem_cons.mp h).2]
  rw [hbetween]
  apply lines_intercalate (List.append_ne_nil_of_right_ne_nil _ (List.cons_ne_nil _ _))
  exact List.forall_mem_append.mpr ⟨h, List.forall_mem_singleton.mpr List.not_mem_nil⟩

/-- There is one line more than there are line feeds. -/
theorem length_lines (s : List Char) : (lines s).length = s.count '\n' + 1 := by
  induction s with
  | nil => rfl
  | cons c s ih =>
      obtain ⟨line, others, hlines, hcons⟩ := lines_cons c s
      rw [hlines] at ih
      rw [hcons]
      split
      case isTrue hc => simp [hc, ← ih]
      case isFalse hc => simp [hc, ← ih]

/-- The first line ends where the first of the lines does. -/
theorem head?_lines (s : List Char) : (lines s).head? = some (firstLine s) := by
  induction s with
  | nil => rfl
  | cons c s ih =>
      obtain ⟨line, others, hlines, hcons⟩ := lines_cons c s
      rw [hlines, List.head?_cons, Option.some_inj, firstLine] at ih
      rw [hcons, firstLine, List.takeWhile_cons, ← ih]
      by_cases hc : c = '\n' <;> simp [hc]

/-- Where two texts are joined, the last line of the one and the first line of the other
become one line. -/
theorem lines_append (s t : List Char) :
    ∃ above last first below, lines s = above ++ [last] ∧ lines t = first :: below ∧
      lines (s ++ t) = above ++ (last ++ first) :: below := by
  induction s with
  | nil =>
      obtain ⟨first, below, hlines⟩ := List.exists_cons_of_ne_nil (lines_ne_nil t)
      exact ⟨[], [], first, below, rfl, hlines, hlines⟩
  | cons c s ih =>
      obtain ⟨above, last, first, below, hs, ht, hst⟩ := ih
      obtain ⟨line, others, hlines, hcons⟩ := lines_cons c s
      obtain ⟨line', others', hlines', hcons'⟩ := lines_cons c (s ++ t)
      rw [List.cons_append, hcons, hcons']
      by_cases hc : c = '\n'
      · refine ⟨[] :: above, last, first, below, ?_, ht, ?_⟩
        · rw [if_pos hc, ← hlines, hs, List.cons_append]
        · rw [if_pos hc, ← hlines', hst, List.cons_append]
      · rw [if_neg hc, if_neg hc]
        cases above with
        | nil =>
            obtain ⟨rfl, rfl⟩ := List.cons.inj (hlines.symm.trans hs)
            obtain ⟨rfl, rfl⟩ := List.cons.inj (hlines'.symm.trans hst)
            exact ⟨[], c :: _, first, _, rfl, ht, rfl⟩
        | cons top above =>
            obtain ⟨rfl, rfl⟩ := List.cons.inj (hlines.symm.trans hs)
            obtain ⟨rfl, rfl⟩ := List.cons.inj (hlines'.symm.trans hst)
            exact ⟨(c :: _) :: above, last, first, below, rfl, ht, rfl⟩

/-- Lines with a line feed behind each of them are as long as all of them and one
character more for each. -/
theorem length_flatMap_lineFeed (content : List (List Char)) :
    (content.flatMap (· ++ ['\n'])).length = content.flatten.length + content.length := by
  induction content with
  | nil => rfl
  | cons line content ih =>
      simp only [List.flatMap_cons, List.flatten_cons, List.length_append, List.length_cons,
        List.length_nil, ih]
      omega

/-- A text is its lines above the last one, each with a line feed, and its last line. -/
theorem eq_flatMap_append_of_lines {s last : List Char} {above : List (List Char)}
    (h : lines s = above ++ [last]) : s = above.flatMap (· ++ ['\n']) ++ last := by
  obtain ⟨last', hlast, hjoined⟩ := flatMap_dropLast_lines s
  rw [h, List.getLast?_concat, Option.some_inj] at hlast
  rw [h, List.dropLast_concat, ← hlast] at hjoined
  exact hjoined.symm

/-- Read from its end, a text starts with its last line. -/
theorem takeWhile_reverse_of_lines {s last : List Char} {above : List (List Char)}
    (h : lines s = above ++ [last]) : s.reverse.takeWhile (· != '\n') = last.reverse := by
  have hlast : '\n' ∉ last := not_mem_of_mem_lines (by rw [h]; exact List.mem_concat_self)
  have hstop : StopsRun (· != '\n') (above.flatMap (· ++ ['\n'])).reverse := by
    rcases above.eq_nil_or_concat with rfl | ⟨others, line, rfl⟩
    · exact stopsRun_nil _
    · rw [List.concat_eq_append, List.flatMap_append, List.flatMap_singleton,
        ← List.append_assoc, List.reverse_concat, stopsRun_cons]
      exact bne_self_eq_false' (a := '\n')
  rw [eq_flatMap_append_of_lines h, List.reverse_append]
  refine takeWhile_run_append (fun c hc => ?_) hstop
  exact bne_iff_ne.mpr fun hfeed => hlast (hfeed ▸ List.mem_reverse.mp hc)

/-! ## Places -/

/-- The character at an offset of a text, and where it stands: in a line of the text, at a
column of the line. Lines and columns count from one. -/
structure StandsAt (text : List Char) (offset line column : Nat) (content : List Char)
    (c : Char) : Prop where
  /-- it is the character at the offset -/
  at_offset : text[offset]? = some c
  one_le_line : 1 ≤ line
  line_le : line ≤ (lines text).length
  /-- the line with this number, in full -/
  content_eq : (lines text)[line - 1]? = some content
  one_le_column : 1 ≤ column
  column_le : column ≤ content.length
  /-- it is the character at the column -/
  at_column : content[column - 1]? = some c
  /-- in front of it stand the lines above, a line feed behind each, and part of the line -/
  offset_eq : offset = ((lines text).take (line - 1)).flatten.length + (line - 1) + (column - 1)

/-- The line and the column of an offset are those of the character there. -/
theorem exists_standsAt {text : List Char} {offset : Nat} {c : Char}
    (h : text[offset]? = some c) (hc : c ≠ '\n') :
    ∃ (line column : Nat) (content : List Char),
      lineAndColumn text offset = ((line : Int), (column : Int)) ∧
        StandsAt text offset line column content c := by
  obtain ⟨hlt, hget⟩ := List.getElem?_eq_some_iff.mp h
  generalize hbefore : text.take offset = before
  generalize hbehind : text.drop (offset + 1) = behind
  have htext : text = before ++ c :: behind := by
    rw [← hbefore, ← hbehind, ← hget, List.getElem_cons_drop, List.take_append_drop]
  have hlength : before.length = offset := by
    rw [← hbefore, List.length_take, Nat.min_eq_left hlt.le]
  obtain ⟨above, last, first, below, hlines, hrest, hall⟩ := lines_append before (c :: behind)
  rw [← htext] at hall
  obtain ⟨front, others, -, hcons⟩ := lines_cons c behind
  rw [if_neg hc, hrest] at hcons
  obtain ⟨rfl, -⟩ := List.cons.inj hcons
  have hoffset : offset = above.flatten.length + above.length + last.length := by
    rw [← length_flatMap_lineFeed, ← List.length_append, ← eq_flatMap_append_of_lines hlines,
      hlength]
  have hcount : before.count '\n' = above.length := by
    have hlength := length_lines before
    rw [hlines, List.length_append, List.length_singleton] at hlength
    omega
  refine ⟨above.length + 1, last.length + 1, last ++ c :: front, ?_, ?_⟩
  · have hend : endAt text.length offset = offset := by
      rw [endAt, if_neg (by omega), Int.toNat_natCast, Nat.min_eq_left hlt.le]
    simp only [lineAndColumn, hend, hbefore, takeWhile_reverse_of_lines hlines, hcount,
      List.length_reverse, hlength, Prod.mk.injEq]
    omega
  · constructor
    case at_offset => exact h
    case one_le_line => omega
    case line_le => simp [hall]
    case content_eq => simp [hall]
    case one_le_column => omega
    case column_le => simp
    case at_column => simp
    case offset_eq => simpa [hall] using hoffset

end Calc.Text
