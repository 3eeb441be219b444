/-
# Where reading stops

A text that stops being a program is refused with a place and with what is left over. What
is left over starts behind the last token that was read; the place is that of its first
character that is no blank, and everything that the error says is said about this one
character.

Reading itself skips separators only, which are four of the blanks. So no statement starts
behind the separators that the rest starts with, and that is the place of the error if there
are no other blanks in front of it. Behind another blank a statement may well start.
-/

import Calc.Proofs.Parser.Joining
import Calc.Proofs.Parser.Longest
import Calc.Proofs.Text.Context

namespace Calc

open Text

namespace Parsed

variable {α : Type} {text other : List Char}

/-- What was read and what is left, without the text that they are from. -/
def taken (p : Parsed α text) : α × List Char :=
  (p.value, p.rest)

/-- Two readers that take the same fail both, or return the same value and rest. -/
theorem cases_of_taken {x : Option (Parsed α text)} {y : Option (Parsed α other)}
    (h : x.map taken = y.map taken) :
    (x = none ∧ y = none) ∨ ∃ value rest shorter shorter',
      x = some ⟨value, rest, shorter⟩ ∧ y = some ⟨value, rest, shorter'⟩ := by
  cases x with
  | none => exact .inl ⟨rfl, Option.map_eq_none_iff.mp h.symm⟩
  | some p =>
      cases y with
      | none => cases h
      | some q =>
          rcases p with ⟨value, rest, shorter⟩
          rcases q with ⟨value', rest', shorter'⟩
          rcases Prod.mk.inj (Option.some.inj h) with ⟨rfl, rfl⟩
          exact .inr ⟨value, rest, shorter, shorter', rfl, rfl⟩

end Parsed

namespace Parser

/-! ## Separators in front of a statement -/

section Gap

variable {gap : List Char}

theorem skipSeparators_append (hgap : IsGap gap) (text : List Char) :
    skipSeparators (gap ++ text) = skipSeparators text :=
  List.dropWhile_append_of_pos hgap

theorem character?_gap_append {α : Type} (kind : Char → Option α) (hgap : IsGap gap)
    (text : List Char) :
    (character? kind (gap ++ text)).map Parsed.taken = (character? kind text).map Parsed.taken := by
  have hskip := skipSeparators_append hgap text
  unfold character?
  split
  case h_1 heq =>
    split
    case h_1 => rfl
    case h_2 heq' => cases heq.symm.trans (hskip.trans heq')
  case h_2 c rest heq =>
    split
    case h_1 heq' => cases heq.symm.trans (hskip.trans heq')
    case h_2 c' rest' heq' =>
      rcases List.cons.inj (heq.symm.trans (hskip.trans heq')) with ⟨rfl, rfl⟩
      cases kind c <;> rfl

theorem name?_gap_append (hgap : IsGap gap) (text : List Char) :
    (name? (gap ++ text)).map Parsed.taken = (name? text).map Parsed.taken := by
  have hskip := skipSeparators_append hgap text
  unfold name?
  split
  case h_1 heq =>
    rw [hskip] at heq
    split
    case h_1 => rfl
    case h_2 heq' => cases heq.symm.trans heq'
  case h_2 c letters heq =>
    rw [hskip] at heq
    split
    case h_1 heq' => cases heq.symm.trans heq'
    case h_2 c' letters' heq' =>
      rcases List.cons.inj (heq.symm.trans heq') with ⟨rfl, rfl⟩
      exact congrArg
        (fun rest => some (String.ofList (c :: letters), rest.dropWhile Char.isAlpha)) hskip

theorem markedName?_gap_append (mark : Char) (hgap : IsGap gap) (text : List Char) :
    (markedName? mark (gap ++ text)).map Parsed.taken =
      (markedName? mark text).map Parsed.taken := by
  unfold markedName?
  rcases Parsed.cases_of_taken (character?_gap_append _ hgap text) with
    ⟨hleft, hright⟩ | ⟨value, rest, shorter, shorter', hleft, hright⟩
  · rw [mark?, hleft, hright]
    rfl
  · rw [mark?, hleft, hright]
    dsimp only
    cases name? rest <;> rfl

/-- A statement is the same behind more separators. -/
theorem statement_gap_append (depth : Nat) (hgap : IsGap gap) (text : List Char) :
    (statement depth (gap ++ text)).map (Option.map Parsed.taken) =
      (statement depth text).map (Option.map Parsed.taken) := by
  unfold statement
  rcases Parsed.cases_of_taken (markedName?_gap_append '@' hgap text) with
    ⟨hleft, hright⟩ | ⟨name, rest, shorter, shorter', hleft, hright⟩
  case inr => rw [hleft, hright]; rfl
  rw [hleft, hright]
  rcases Parsed.cases_of_taken (markedName?_gap_append '>' hgap text) with
    ⟨hleft, hright⟩ | ⟨name, rest, shorter, shorter', hleft, hright⟩
  case inr => rw [hleft, hright]; rfl
  rw [hleft, hright]
  rcases Parsed.cases_of_taken (character?_gap_append _ hgap text) with
    ⟨hleft, hright⟩ | ⟨opening, rest, shorter, shorter', hleft, hright⟩
  case inr =>
    rw [mark?, hleft, hright]
    dsimp only
    rcases expression depth rest with e | (_ | value) <;> rfl
  rw [mark?, hleft, hright]
  rcases Parsed.cases_of_taken (name?_gap_append hgap text) with
    ⟨hleft, hright⟩ | ⟨target, rest, shorter, shorter', hleft, hright⟩
  case inl => rw [hleft, hright]; rfl
  rw [hleft, hright]
  dsimp only
  cases assign? rest with
  | none => rfl
  | some assign =>
      dsimp only
      rcases expression depth assign.rest with e | (_ | value) <;> rfl

/-- No statement starts behind separators behind which none starts. -/
theorem statement_of_gap_append {depth : Nat} {text : List Char} (hgap : IsGap gap)
    (h : statement depth (gap ++ text) = .ok none) : statement depth text = .ok none := by
  have htaken := statement_gap_append depth hgap text
  rw [h] at htaken
  rcases hread : statement depth text with e | (_ | found)
  · rw [hread] at htaken
    cases htaken
  · rfl
  · rw [hread] at htaken
    cases htaken

end Gap

end Parser

/-! ## The text of the error -/

/-- A text is mentioned by the first line of it without the blanks around it; a line of more
than thirty characters is cut to twenty-seven and three points. -/
theorem Text.excerpt_thirty (s : List Char) :
    excerpt s 30 = "'" ++ String.ofList
      (if (firstLine (trim s)).length ≤ 30 then firstLine (trim s)
        else (firstLine (trim s)).take 27 ++ ['.', '.', '.']) ++ "'" := by
  simp only [excerpt]
  generalize firstLine (trim s) = line
  by_cases h : line.length ≤ 30
  · have hshort : ¬ (30 : Int) < line.length := by omega
    rw [if_pos h, if_neg hshort]
  · have hlong : (30 : Int) < line.length := by omega
    have hend : endAt line.length (30 - 3) = 27 := by
      rw [endAt, if_neg (by decide)]
      exact Nat.min_eq_left (by omega)
    rw [if_neg h, if_pos hlong, hend]

/-- The text of an error that has a place: the place and what is wrong, the beginning of what
is left over, and the lines around the place. -/
theorem ParseError.message_eq {e : ParseError} {context : String} (hremaining : e.remaining ≠ "")
    (hcontext : e.context = some context) (hne : context ≠ "") :
    e.message = "Parse error at line " ++ toString e.line ++ ", column " ++ toString e.column ++
      ": " ++ e.summary ++ ("\n  Got: " ++ excerpt e.remaining.toList 30) ++ ("\n" ++ context) := by
  unfold message
  rw [hcontext]
  dsimp only
  rw [if_neg hremaining, if_neg hne]

/-! ## The place of the error -/

namespace Program

/-- What is left over where reading stops: blanks, and behind them the character whose place
is reported. -/
structure StopsAt (text : String) (program : Program String) (e : ParseError)
    (consumed blanks : List Char) (c : Char) (behind : List Char) : Prop where
  read : ofText text = .ok (program, e.remaining)
  error_eq : e = .leftover text e.remaining
  text_eq : text.toList = consumed ++ (blanks ++ c :: behind)
  remaining_eq : e.remaining.toList = blanks ++ c :: behind
  blank : ∀ b ∈ blanks, isBlank b = true
  not_blank : isBlank c = false

/-- A text is refused as one that stops being a program only for what is left over of it. -/
theorem exists_stopsAt {text : String} {e : ParseError} (h : complete text = .error e)
    (hsummary : e.summary = "Statement not recognized as a valid Calc statement") :
    ∃ program consumed blanks c behind, StopsAt text program e consumed blanks c behind := by
  rw [complete] at h
  rcases hread : ofText text with ⟨⟩ | ⟨program, rest⟩
  · rw [hread] at h
    cases h
    change "Expression nested too deeply" = _ at hsummary
    exact absurd hsummary (by decide)
  · rw [hread, Reading.whole] at h
    split at h
    case isTrue => cases h
    case isFalse hrest =>
      cases h
      have hne : rest.toList.dropWhile isBlank ≠ [] := by
        rw [Ne, List.dropWhile_eq_nil_iff, ← List.all_eq_true]
        exact hrest
      rcases List.exists_cons_of_ne_nil hne with ⟨c, behind, hbehind⟩
      have hstop := stopsRun_dropWhile isBlank rest.toList
      rw [hbehind, stopsRun_cons] at hstop
      have hrest : rest.toList = rest.toList.takeWhile isBlank ++ c :: behind := by
        rw [← hbehind, List.takeWhile_append_dropWhile]
      rcases Parser.statements_sound (ofText_eq_ok_iff.mp hread) with ⟨⟨consumed, htext, -⟩, -⟩
      refine ⟨program, consumed, rest.toList.takeWhile isBlank, c, behind, hread, rfl, ?_, hrest,
        fun b hb => List.mem_takeWhile_imp hb, hstop⟩
      rw [← hrest]
      exact htext

/-- A text of which more than blanks is left over is refused. -/
theorem complete_of_leftover {text rest : String}
    (h : (ofText text).toOption.map Prod.snd = some rest)
    (hrest : rest.toList.all isBlank = false) : complete text = .error (.leftover text rest) := by
  rcases hread : ofText text with e | ⟨program, left⟩
  · rw [hread] at h
    cases h
  · rw [hread] at h
    cases h
    rw [complete, hread, Reading.whole, if_neg (Bool.not_eq_true _ ▸ hrest)]

section StopsAt

variable {text : String} {program : Program String} {e : ParseError}
  {consumed blanks behind : List Char} {c : Char}

theorem StopsAt.takeWhile_isBlank (h : StopsAt text program e consumed blanks c behind) :
    e.remaining.toList.takeWhile isBlank = blanks := by
  rw [h.remaining_eq]
  exact takeWhile_run_append h.blank (by simpa using h.not_blank)

theorem StopsAt.not_separator (h : StopsAt text program e consumed blanks c behind) :
    isSeparator c = false := by
  rw [Bool.eq_false_iff]
  intro hseparator
  exact absurd (isBlank_of_isSeparator hseparator) (Bool.eq_false_iff.mp h.not_blank)

/-- The separators that the rest starts with are in front of the place. -/
theorem StopsAt.takeWhile_isSeparator (h : StopsAt text program e consumed blanks c behind) :
    e.remaining.toList.takeWhile isSeparator = blanks.takeWhile isSeparator := by
  have hstop : (c :: behind).takeWhile isSeparator = [] := by
    rw [List.takeWhile_cons, h.not_separator]
    rfl
  rw [h.remaining_eq, List.takeWhile_append, hstop, List.append_nil]
  split
  case isTrue hall => exact ((List.takeWhile_prefix isSeparator).eq_of_length hall).symm
  case isFalse => rfl

/-- The place of the error is the one of the first character that is no blank. -/
theorem StopsAt.location_eq (h : StopsAt text program e consumed blanks c behind) :
    e.location = (consumed.length + blanks.length : Nat) := by
  have hlength : text.length = consumed.length + e.remaining.length := by
    rw [← String.length_toList, ← String.length_toList, h.text_eq, h.remaining_eq,
      List.length_append]
  rw [h.error_eq, ParseError.leftover]
  simp only [h.takeWhile_isBlank, hlength]
  omega

/-- The character at the place is the one that is no blank. -/
theorem StopsAt.getElem?_eq (h : StopsAt text program e consumed blanks c behind) :
    text.toList[consumed.length + blanks.length]? = some c := by
  rw [h.text_eq, ← List.append_assoc, ← List.length_append, List.getElem?_append_right le_rfl,
    Nat.sub_self, List.getElem?_cons_zero]

/-- What is quoted starts with this character. -/
theorem StopsAt.trim_remaining (h : StopsAt text program e consumed blanks c behind) :
    trim e.remaining.toList =
      trimEnd (text.toList.drop (consumed.length + blanks.length)) := by
  have hstart : trimStart e.remaining.toList = c :: behind := by
    rw [h.remaining_eq]
    exact dropWhile_run_append h.blank (by simpa using h.not_blank)
  have hdrop : text.toList.drop (consumed.length + blanks.length) = c :: behind := by
    rw [h.text_eq, ← List.append_assoc, ← List.length_append, List.drop_left]
  rw [trim, hstart, hdrop]

/-- The line and the column of the error are computed from its offset, and the context from
them. -/
theorem StopsAt.place_eq (h : StopsAt text program e consumed blanks c behind)
    {line column : Int} (hplace : lineAndColumn text.toList e.location = (line, column)) :
    e.line = line ∧ e.column = column ∧
      e.context = some (Text.context text.toList line column 0) := by
  rw [h.error_eq] at hplace ⊢
  rw [ParseError.leftover] at hplace ⊢
  simp only [hplace, and_self]

end StopsAt

/-- Everything that a refused text is told about its place is said about one character. It
is the first one of what is left over that is no blank. The offset leads to it, and so do the
line and the column; its line is the one that is shown, behind its number; and it is the
first character of the beginning of what is left over, as far as that is quoted. -/
theorem complete_error_describes_one_character {text : String} {e : ParseError}
    (h : complete text = .error e)
    (hsummary : e.summary = "Statement not recognized as a valid Calc statement") :
    ∃ (program : Program String) (offset line column : Nat) (content : List Char) (c : Char)
      (context : String),
      (e.location = offset ∧ e.line = line ∧ e.column = column ∧ e.context = some context) ∧
      ofText text = .ok (program, e.remaining) ∧
      (∃ consumed blanks : List Char, text.toList = consumed ++ e.remaining.toList ∧
        text.toList.take offset = consumed ++ blanks ∧ ∀ b ∈ blanks, isBlank b = true) ∧
      isBlank c = false ∧
      StandsAt text.toList offset line column content c ∧
      firstLine context.toList =
        List.replicate (4 - (toString line).length) ' ' ++
          (Nat.toDigits 10 line ++ ':' :: ' ' :: content) ∧
      (let got := firstLine (trimEnd (text.toList.drop offset))
       e.message = "Parse error at line " ++ toString e.line ++ ", column " ++
        toString e.column ++ ": " ++ e.summary ++ "\n  Got: '" ++
        String.ofList (if got.length ≤ 30 then got else got.take 27 ++ ['.', '.', '.']) ++
        "'\n" ++ context) := by
  rcases exists_stopsAt h hsummary with ⟨program, consumed, blanks, c, behind, hstops⟩
  have hfeed : c ≠ '\n' := by
    rintro rfl
    exact absurd hstops.not_blank (by decide)
  rcases exists_standsAt hstops.getElem?_eq hfeed with ⟨line, column, content, hplace, hstands⟩
  rw [← hstops.location_eq] at hplace
  rcases hstops.place_eq hplace with ⟨hline, hcolumn, hcontext⟩
  have hfirst := firstLine_context hstands
  have hremaining : e.remaining ≠ "" := by
    intro hempty
    have hnil := hstops.remaining_eq
    rw [hempty] at hnil
    cases blanks <;> cases hnil
  have hshown : Text.context text.toList line column 0 ≠ "" := by
    intro hempty
    rw [hempty] at hfirst
    exact List.append_ne_nil_of_right_ne_nil _
      (List.append_ne_nil_of_right_ne_nil _ (List.cons_ne_nil _ _)) hfirst.symm
  refine ⟨program, _, line, column, content, c, _, ⟨hstops.location_eq, hline, hcolumn, hcontext⟩,
    hstops.read, ⟨consumed, blanks, ?_, ?_, hstops.blank⟩, hstops.not_blank, hstands, hfirst, ?_⟩
  · rw [hstops.remaining_eq]
    exact hstops.text_eq
  · rw [hstops.text_eq, ← List.append_assoc, ← List.length_append, List.take_left]
  · have hopen : "\n  Got: '" = "\n  Got: " ++ "'" := rfl
    have hclose : "'\n" = "'" ++ "\n" := rfl
    rw [ParseError.message_eq hremaining hcontext hshown, excerpt_thirty, hstops.trim_remaining,
      hopen, hclose]
    simp only [String.append_assoc]

/-- Two declarations and a third line that is no statement. Behind the second declaration
stands a blank that is no separator. -/
def questionBehindSpace : String :=
  "@a\n@b \u2003\n ?? who calls this a statement, and why ??  "

/-- The place is the one of the first question mark, in the third line. -/
theorem complete_error_describes_question :
    ∃ e content c, complete questionBehindSpace = .error e ∧
      (e.location = 9 ∧ e.line = 3 ∧ e.column = 2) ∧
      StandsAt questionBehindSpace.toList 9 3 2 content c ∧ isBlank c = false := by
  generalize herror : ParseError.leftover questionBehindSpace
    " \u2003\n ?? who calls this a statement, and why ??  " = e
  have hread : complete questionBehindSpace = .error e :=
    herror ▸ complete_of_leftover (by decide +kernel) (by decide +kernel)
  have hplace : e.location = 9 ∧ e.line = 3 ∧ e.column = 2 := by
    rw [← herror]
    decide +kernel
  have hsummary : e.summary = "Statement not recognized as a valid Calc statement" := by
    rw [← herror]
    rfl
  rcases complete_error_describes_one_character hread hsummary with
    ⟨-, offset, line, column, content, c, -, ⟨hoffset, hline, hcolumn, -⟩, -, -, hblank,
      hstands, -⟩
  rw [hoffset, hline, hcolumn] at hplace
  norm_cast at hplace
  rcases hplace with ⟨rfl, rfl, rfl⟩
  exact ⟨e, content, c, hread, ⟨hoffset, hline, hcolumn⟩, hstands, hblank⟩

/-! ## What starts at the place -/

/-- Reading stops behind the separators that follow the last token that was read. No
statement starts there. The place of the error is no other one exactly if only separators
stand in front of it: if another blank does, then reading stopped at this blank. -/
theorem complete_error_stops_behind_separators {text : String} {e : ParseError}
    (h : complete text = .error e)
    (hsummary : e.summary = "Statement not recognized as a valid Calc statement") :
    ∃ stop : Nat, (stop : Int) ≤ e.location ∧
      (∃ consumed gap : List Char, text.toList = consumed ++ e.remaining.toList ∧
        text.toList.take stop = consumed ++ gap ∧ IsGap gap) ∧
      (∃ c, text.toList[stop]? = some c ∧ isSeparator c = false) ∧
      ofText (String.ofList (text.toList.drop stop)) =
        .ok ([], String.ofList (text.toList.drop stop)) ∧
      ((stop : Int) = e.location ↔ IsGap (e.remaining.toList.takeWhile isBlank)) := by
  rcases exists_stopsAt h hsummary with ⟨program, consumed, blanks, c, behind, hstops⟩
  have hgap := hstops.takeWhile_isSeparator
  have hrest : e.remaining.toList =
      blanks.takeWhile isSeparator ++ e.remaining.toList.dropWhile isSeparator := by
    rw [← hgap, List.takeWhile_append_dropWhile]
  have htext : text.toList = consumed ++ blanks.takeWhile isSeparator ++
      e.remaining.toList.dropWhile isSeparator := by
    rw [List.append_assoc, ← hrest, hstops.remaining_eq]
    exact hstops.text_eq
  have hisGap : IsGap (blanks.takeWhile isSeparator) := fun b hb => List.mem_takeWhile_imp hb
  have hlocation := hstops.location_eq
  refine ⟨(consumed ++ blanks.takeWhile isSeparator).length, ?_,
    ⟨consumed, blanks.takeWhile isSeparator, ?_, ?_, hisGap⟩, ?_, ?_, ?_⟩
  · have hle := (List.takeWhile_prefix isSeparator (l := blanks)).length_le
    rw [hlocation, List.length_append]
    omega
  · rw [hstops.remaining_eq]
    exact hstops.text_eq
  · rw [htext, List.take_left]
  · have hne : e.remaining.toList.dropWhile isSeparator ≠ [] := by
      intro hnil
      have hc : isSeparator c = true :=
        List.dropWhile_eq_nil_iff.mp hnil c (by simp [hstops.remaining_eq])
      exact absurd hc (Bool.eq_false_iff.mp hstops.not_separator)
    rcases List.exists_cons_of_ne_nil hne with ⟨d, left, hleft⟩
    have hstop := stopsRun_dropWhile isSeparator e.remaining.toList
    rw [hleft, stopsRun_cons] at hstop
    refine ⟨d, ?_, hstop⟩
    rw [htext, List.getElem?_append_right le_rfl, Nat.sub_self, hleft, List.getElem?_cons_zero]
  · have hnone := Parser.statement_left (ofText_eq_ok_iff.mp hstops.read)
    rw [hrest] at hnone
    have hleft := Parser.statement_of_gap_append hisGap hnone
    rw [htext, List.drop_left, ofText_eq_ok_iff, String.toList_ofList, Parser.statements, hleft]
  · rw [hlocation, List.length_append, hstops.takeWhile_isBlank, IsGap,
      ← List.takeWhile_eq_self_iff]
    constructor
    · intro hlength
      exact (List.takeWhile_prefix isSeparator).eq_of_length (by omega)
    · intro hself
      rw [hself]

/-- With only separators in front of it, the place is where reading stopped: no statement
starts at the first letter that is left over. -/
theorem complete_error_stops_at_name :
    ∃ e, complete "@a\n x + 1" = .error e ∧ e.location = 4 ∧
      ofText (String.ofList ("@a\n x + 1".toList.drop 4)) = .ok ([], "x + 1") := by
  generalize herror : ParseError.leftover "@a\n x + 1" "\n x + 1" = e
  have hread : complete "@a\n x + 1" = .error e :=
    herror ▸ complete_of_leftover (by decide +kernel) (by decide +kernel)
  have hlocation : e.location = 4 := by
    rw [← herror]
    decide +kernel
  have hblanks : e.remaining.toList.takeWhile isBlank = ['\n', ' '] := by
    rw [← herror]
    decide +kernel
  have hgap : IsGap (e.remaining.toList.takeWhile isBlank) := by
    rw [hblanks]
    simp [IsGap, isSeparator]
  have hsummary : e.summary = "Statement not recognized as a valid Calc statement" := by
    rw [← herror]
    rfl
  rcases complete_error_stops_behind_separators hread hsummary with
    ⟨stop, -, -, -, hstop, hplace⟩
  have hfour := hplace.mpr hgap
  rw [hlocation] at hfour
  norm_cast at hfour
  subst hfour
  exact ⟨e, hread, hlocation, hstop⟩

/-- A declaration behind a blank that is no separator is not read, and the place of the error
is that of the declaration, which is a statement. -/
theorem complete_error_at_declaration :
    ∃ e rest, complete "\u00a0@a" = .error e ∧
      e.summary = "Statement not recognized as a valid Calc statement" ∧ e.location = 1 ∧
      ofText (String.ofList ("\u00a0@a".toList.drop 1)) = .ok ([.declaration "a"], rest) := by
  have hfills : Fills [.declaration "a"] "@a".toList :=
    @fills_declaration [] ['a'] (by simp) (by simp) isGap_nil
  rcases hfills.ofText (by simp [Statement.depth]) with ⟨rest, hdeclaration, -⟩
  exact ⟨.leftover "\u00a0@a" "\u00a0@a", rest,
    complete_of_leftover (by decide +kernel) (by decide +kernel), rfl, by decide +kernel,
    hdeclaration⟩

end Program

end Calc
