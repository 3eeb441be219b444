/-
# What may follow a word

Readers take the longest word they can, so a word is taken as it was meant only
before a text that cannot prolong it. Most characters end every word. The one
case that needs a closer look is a number in front of a name: the name may start
with an `e`, but then what an exponent needs does not follow.

A chain is read on as long as operators follow, so it ends before a text that
starts with none.
-/

import Calc.Proofs.Grammar.Spelling

namespace Calc

open Text

/-- The characters that a name or a number may go on with, whatever stands before
them. -/
def isWordChar (c : Char) : Bool :=
  c.isAlpha || c.isDigit || c == '.'

theorem isAlpha_iff {c : Char} :
    c.isAlpha = true ↔ (65 ≤ c.toNat ∧ c.toNat ≤ 90) ∨ (97 ≤ c.toNat ∧ c.toNat ≤ 122) := by
  change (decide ('A'.val ≤ c.val ∧ c.val ≤ 'Z'.val) ||
    (decide ('a'.val ≤ c.val) && decide (c.val ≤ 'z'.val))) = true ↔ _
  simp only [Bool.or_eq_true, Bool.and_eq_true, decide_eq_true_eq, UInt32.le_iff_toNat_le]
  rfl

theorem isDigit_iff {c : Char} : c.isDigit = true ↔ 48 ≤ c.toNat ∧ c.toNat ≤ 57 := by
  change (decide ('0'.val ≤ c.val) && decide (c.val ≤ '9'.val)) = true ↔ _
  simp only [Bool.and_eq_true, decide_eq_true_eq, UInt32.le_iff_toNat_le]
  rfl

theorem isWordChar_of_isBlank {c : Char} (h : isBlank c = true) : isWordChar c = false := by
  rw [Bool.eq_false_iff]
  intro hword
  simp only [isWordChar, Bool.or_eq_true, isAlpha_iff, isDigit_iff, beq_iff_eq] at hword
  simp only [isBlank, Bool.or_eq_true, Bool.and_eq_true, decide_eq_true_eq, beq_iff_eq] at h
  rcases hword with hword | rfl
  · omega
  · revert h
    decide

theorem isWordChar_of_isSeparator {c : Char} (h : isSeparator c = true) : isWordChar c = false :=
  isWordChar_of_isBlank (isBlank_of_isSeparator h)

theorem stopsRun_gap_append {gap rest : List Char} (hgap : IsGap gap)
    (hrest : StopsRun isWordChar rest) : StopsRun isWordChar (gap ++ rest) := by
  cases gap with
  | nil => exact hrest
  | cons c gap => simpa using isWordChar_of_isSeparator (hgap c (by simp))

/-- No word of the token reaches into the text from the left. -/
def Token.EndsBefore : Token → List Char → Prop
  | .name _, rest => StopsRun Char.isAlpha rest
  | .number _, rest => Numeral.EndsBefore rest
  | _, _ => True

/-- The word of the last token does not reach into the text. -/
def EndBefore (tokens : List Token) (rest : List Char) : Prop :=
  ∀ token ∈ tokens.getLast?, token.EndsBefore rest

theorem Token.endsBefore_of_stopsRun {rest : List Char} (h : StopsRun isWordChar rest)
    (token : Token) : token.EndsBefore rest := by
  cases token with
  | name text =>
      intro c hc
      have hword := h c hc
      simp only [isWordChar, Bool.or_eq_false_iff] at hword
      exact hword.1.1
  | number value =>
      cases rest with
      | nil => trivial
      | cons c rest =>
          have hword := (stopsRun_cons isWordChar c rest).mp h
          simp only [isWordChar, Bool.or_eq_false_iff, beq_eq_false_iff_ne] at hword
          refine Numeral.endsBefore_cons hword.1.2 hword.2 ?_ ?_ rest
          all_goals
            rintro rfl
            simp at hword
  | _ => trivial

theorem endBefore_of_stopsRun {rest : List Char} (h : StopsRun isWordChar rest)
    (tokens : List Token) : EndBefore tokens rest :=
  fun token _ => token.endsBefore_of_stopsRun h

theorem endBefore_append {first second : List Token} {rest : List Char} (hne : second ≠ []) :
    EndBefore (first ++ second) rest ↔ EndBefore second rest := by
  rw [EndBefore, EndBefore, List.getLast?_append, List.getLast?_eq_some_getLast hne,
    Option.some_or]

theorem endBefore_cons {token : Token} {tokens : List Token} {rest : List Char}
    (hne : tokens ≠ []) : EndBefore (token :: tokens) rest ↔ EndBefore tokens rest :=
  @endBefore_append [token] tokens rest hne

/-- A letter is no part of a numeral other than the mark of its exponent. -/
theorem isDigit_of_isAlpha {c : Char} (h : c.isAlpha = true) : c.isDigit = false := by
  rw [Bool.eq_false_iff]
  intro hdigit
  rw [isAlpha_iff] at h
  rw [isDigit_iff] at hdigit
  omega

theorem ne_of_isAlpha {c d : Char} (h : c.isAlpha = true) (hd : d.isAlpha = false) : c ≠ d := by
  rintro rfl
  simp [h] at hd

/-- A number may stand directly before a name that is assigned to: no exponent
starts where the name does. -/
theorem Numeral.endsBefore_letters {letters tail : List Char} (given : letters ≠ [])
    (alphabetic : ∀ c ∈ letters, c.isAlpha = true)
    (htail : ∀ d ∈ tail.head?, d.isDigit = false ∧ d ≠ '+' ∧ d ≠ '-') :
    Numeral.EndsBefore (letters ++ tail) := by
  obtain ⟨c, others, rfl⟩ := List.exists_cons_of_ne_nil given
  have hc : c.isAlpha = true := alphabetic c (by simp)
  refine ⟨isDigit_of_isAlpha hc, ne_of_isAlpha hc rfl, fun _ d hd => ?_⟩
  cases others with
  | nil => exact htail d hd
  | cons e others =>
      obtain rfl : e = d := by simpa using hd
      have he : e.isAlpha = true := alphabetic e (by simp)
      exact ⟨isDigit_of_isAlpha he, ne_of_isAlpha he rfl, ne_of_isAlpha he rfl⟩

/-! ## The end of a chain -/

/-- The word of an operator between factors is the one character that the reader
knows it by. -/
theorem Token.Word.multiplicative {op : Operator} {word : List Char}
    (h : (Token.multiplicative op).Word word) :
    ∃ c, word = [c] ∧ isSeparator c = false ∧ isWordChar c = false ∧
      Operator.multiplicative? c = some op := by
  cases h <;> exact ⟨_, rfl, rfl, rfl, rfl⟩

@[inherit_doc Token.Word.multiplicative]
theorem Token.Word.additive {op : Operator} {word : List Char}
    (h : (Token.additive op).Word word) :
    ∃ c, word = [c] ∧ isSeparator c = false ∧ isWordChar c = false ∧
      Operator.additive? c = some op ∧ Operator.multiplicative? c = none := by
  cases h <;> exact ⟨_, rfl, rfl, rfl, rfl, rfl⟩

/-- No operator follows. -/
def NoOperator (rest : List Char) : Prop :=
  ∀ c ∈ (skipSeparators rest).head?,
    Operator.additive? c = none ∧ Operator.multiplicative? c = none

theorem noOperator_gap_append {gap rest : List Char} {c : Char} (hgap : IsGap gap)
    (hc : isSeparator c = false) (hadditive : Operator.additive? c = none)
    (hmultiplicative : Operator.multiplicative? c = none) : NoOperator (gap ++ c :: rest) := by
  intro d hd
  rw [skipSeparators_gap_append hgap (by simpa using hc)] at hd
  obtain rfl : c = d := by simpa using hd
  exact ⟨hadditive, hmultiplicative⟩

theorem operator?_of_isAlpha {c : Char} (h : c.isAlpha = true) :
    Operator.additive? c = none ∧ Operator.multiplicative? c = none := by
  constructor
  · unfold Operator.additive?
    split <;> simp_all
  · unfold Operator.multiplicative?
    split <;> simp_all

theorem operator?_of_isBlank {c : Char} (h : isBlank c = true) :
    Operator.additive? c = none ∧ Operator.multiplicative? c = none := by
  constructor
  · unfold Operator.additive?
    split
    · revert h; decide
    · revert h; decide
    · rfl
  · unfold Operator.multiplicative?
    split
    · revert h; decide
    · revert h; decide
    · rfl

/-- A mark that is neither part of a word nor an operator ends every sequence of
tokens and every chain. -/
theorem follows_mark {gap rest : List Char} {c : Char} (hgap : IsGap gap)
    (hsep : isSeparator c = false) (hword : isWordChar c = false)
    (hadditive : Operator.additive? c = none) (hmultiplicative : Operator.multiplicative? c = none)
    (tokens : List Token) :
    EndBefore tokens (gap ++ c :: rest) ∧ NoOperator (gap ++ c :: rest) :=
  ⟨endBefore_of_stopsRun (stopsRun_gap_append hgap (by simpa using hword)) tokens,
    noOperator_gap_append hgap hsep hadditive hmultiplicative⟩

/-- A name that is assigned to ends the tokens before it, if a gap stands between
it and another name. -/
theorem endBefore_target {target : String} {tokens later : List Token} {body : List Char}
    (h : Written (.name target :: .assign :: later) body)
    (meet : EndsWithName tokens → StartsWithGap body) (rest : List Char) :
    EndBefore tokens (body ++ rest) := by
  obtain ⟨gap, letters, behind, rfl, separators, ⟨given, alphabetic⟩, others⟩ := h.uncons
  obtain ⟨gap', _, later, rfl, separators', ⟨⟩, -⟩ := others.uncons
  cases gap with
  | cons c gap =>
      have hc : isWordChar c = false := isWordChar_of_isSeparator (separators c (by simp))
      exact endBefore_of_stopsRun (by simpa using hc) tokens
  | nil =>
      intro token htoken
      cases token with
      | name text =>
          -- Two names without a gap between them are not written this way.
          obtain ⟨c, hc, hsep⟩ := meet ⟨.name text, htoken, trivial⟩
          obtain ⟨d, others, rfl⟩ := List.exists_cons_of_ne_nil given
          obtain rfl : d = c := by simpa using hc
          rw [isSeparator_of_isAlpha (alphabetic d (by simp))] at hsep
          cases hsep
      | number value =>
          rw [List.nil_append, List.append_assoc]
          apply Numeral.endsBefore_letters given alphabetic
          cases gap' with
          | nil => simp
          | cons c gap' =>
              have hsep : isSeparator c = true := separators' c (by simp)
              have hword := isWordChar_of_isSeparator hsep
              simp only [isWordChar, Bool.or_eq_false_iff] at hword
              suffices c ≠ '+' ∧ c ≠ '-' by simpa using ⟨hword.1.2, this⟩
              constructor <;> rintro rfl <;> cases hsep
      | _ => trivial

/-- The tokens that a statement starts with. -/
inductive StartsStatement : List Token → Prop
  | declaration (later : List Token) : StartsStatement (.declare :: later)
  | input (later : List Token) : StartsStatement (.read :: later)
  | output (later : List Token) : StartsStatement (.print :: later)
  | assignment (target : String) (later : List Token) :
      StartsStatement (.name target :: .assign :: later)

theorem Statement.startsStatement (statement : Statement String) (later : List Token) :
    StartsStatement (statement.tokens ++ later) := by
  cases statement <;> constructor

/-- What a statement starts with ends the sequence of tokens before it, and no
chain goes on there. A name needs a gap only behind another name. -/
theorem StartsStatement.follows {tokens later : List Token} {body : List Char}
    (hstarts : StartsStatement later) (h : Written later body)
    (meet : EndsWithName tokens → StartsWithName later → StartsWithGap body)
    (rest : List Char) : EndBefore tokens (body ++ rest) ∧ NoOperator (body ++ rest) := by
  cases hstarts with
  | declaration later =>
      obtain ⟨gap, _, behind, rfl, separators, ⟨⟩, -⟩ := h.uncons
      simpa using follows_mark separators rfl rfl rfl rfl tokens
  | input later =>
      obtain ⟨gap, _, behind, rfl, separators, ⟨⟩, -⟩ := h.uncons
      simpa using follows_mark separators rfl rfl rfl rfl tokens
  | output later =>
      obtain ⟨gap, _, behind, rfl, separators, ⟨⟩, -⟩ := h.uncons
      simpa using follows_mark separators rfl rfl rfl rfl tokens
  | assignment target later =>
      refine ⟨endBefore_target h (fun hends => meet hends ⟨.name target, rfl, trivial⟩) rest, ?_⟩
      obtain ⟨gap, letters, behind, rfl, separators, ⟨given, alphabetic⟩, -⟩ := h.uncons
      obtain ⟨c, others, rfl⟩ := List.exists_cons_of_ne_nil given
      have hc : c.isAlpha = true := alphabetic c (by simp)
      have hoperator := operator?_of_isAlpha hc
      simpa using noOperator_gap_append separators (isSeparator_of_isAlpha hc)
        hoperator.1 hoperator.2

/-- So does a whole statement. -/
theorem Statement.follows {statement : Statement String} {tokens later : List Token}
    {body : List Char} (h : Written (statement.tokens ++ later) body)
    (meet : EndsWithName tokens → StartsWithName (statement.tokens ++ later) →
      StartsWithGap body) (rest : List Char) :
    EndBefore tokens (body ++ rest) ∧ NoOperator (body ++ rest) :=
  (statement.startsStatement later).follows h meet rest

end Calc
