/-
# How programs are written

The grammar of the language, stated apart from the functions that read it. A
program is a sequence of tokens; a token is written as a word, and a name or a
number in more than one way. A text that spells a program is made of the words of
its tokens in their order, with separators in front of any of them and blanks
behind the last. Only two names that follow each other have to be separated.

An operator is a token of the level of its chain, so that no text spells a
tree that has an operator at the wrong level.
-/

import Calc.Program.Statement
import Calc.Proofs.Grammar.NumeralWord

namespace Calc

open Text (IsGap isSeparator isSeparator_of_isAlpha isSeparator_of_isDigit)

/-- What a program text is made of, once separators are left out. -/
inductive Token where
  | name (text : String)
  | number (value : Float)
  /-- an operator between terms -/
  | additive (op : Operator)
  /-- an operator between factors -/
  | multiplicative (op : Operator)
  | opening
  | closing
  | declare
  | read
  | print
  | assign

namespace Token

/-- The words that a token may be written as. A number may be written as any
numeral that is nearest to it. -/
inductive Word : Token → List Char → Prop
  | name {letters : List Char} (given : letters ≠ [])
      (alphabetic : ∀ c ∈ letters, c.isAlpha = true) :
      Word (.name (String.ofList letters)) letters
  | number {word : List Char} {n : Numeral} (numeral : Numeral.Word word n) :
      Word (.number n.toFloat) word
  | plus : Word (.additive .add) ['+']
  | minus : Word (.additive .subtract) ['-']
  | times : Word (.multiplicative .multiply) ['*']
  | over : Word (.multiplicative .divide) ['/']
  | opening : Word .opening ['(']
  | closing : Word .closing [')']
  | declare : Word .declare ['@']
  | read : Word .read ['>']
  | print : Word .print ['<']
  | assign : Word .assign [':', '=']

/-- Whether a token is a name. -/
def IsName : Token → Prop
  | name _ => True
  | _ => False

end Token

/-! ## The tokens of a program -/

/-- The tokens of an expression, a term or a factor. -/
def Expr.tokens : {level : Level} → Expr String level → List Token
  | _, .ref name => [.name name]
  | _, .literal value => [.number value]
  | _, .group inner => .opening :: (inner.tokens ++ [.closing])
  | _, .factor f => f.tokens
  | _, .product t op f => t.tokens ++ .multiplicative op :: f.tokens
  | _, .term t => t.tokens
  | _, .sum e op t => e.tokens ++ .additive op :: t.tokens

theorem Expr.tokens_ne_nil {level : Level} (e : Expr String level) : e.tokens ≠ [] := by
  induction e with
  | factor f ih => exact ih
  | term t ih => exact ih
  | _ => simp [tokens]

/-- The tokens of a statement. -/
def Statement.tokens : Statement String → List Token
  | .declaration target => [.declare, .name target]
  | .input target => [.read, .name target]
  | .output value => .print :: value.tokens
  | .assignment target value => .name target :: .assign :: value.tokens

/-- The tokens of a program. -/
def Program.tokens (program : Program String) : List Token :=
  program.flatMap Statement.tokens

/-- How many parentheses are open at once in the expression of a statement. -/
def Statement.depth {ρ : Type} : Statement ρ → Nat
  | .declaration _ => 0
  | .input _ => 0
  | .output value => value.depth
  | .assignment _ value => value.depth

/-! ## Texts made of words -/

/-- The first token is a name. -/
def StartsWithName (tokens : List Token) : Prop :=
  ∃ token ∈ tokens.head?, token.IsName

/-- The last token is a name. -/
def EndsWithName (tokens : List Token) : Prop :=
  ∃ token ∈ tokens.getLast?, token.IsName

/-- The text starts with a separator. -/
def StartsWithGap (text : List Char) : Prop :=
  ∃ c ∈ text.head?, isSeparator c = true

/-- A text made of the words of the given tokens in their order. Separators may
stand in front of every word, and at least one stands between two names. -/
inductive Written : List Token → List Char → Prop
  | nil : Written [] []
  | cons {token : Token} {tokens : List Token} {gap word later : List Char}
      (separators : IsGap gap) (spelled : token.Word word) (others : Written tokens later)
      (apart : token.IsName → StartsWithName tokens → StartsWithGap later) :
      Written (token :: tokens) (gap ++ (word ++ later))

/-- A text spells a program if it is made of the words of its tokens, with blanks
behind them. -/
def Program.SpelledBy (program : Program String) (text : String) : Prop :=
  ∃ body blank, text.toList = body ++ blank ∧ Written program.tokens body ∧
    ∀ c ∈ blank, Text.isBlank c = true

/-! ## Names at the ends of a sequence -/

theorem startsWithName_cons {token : Token} {tokens : List Token} :
    StartsWithName (token :: tokens) ↔ token.IsName := by
  simp [StartsWithName]

theorem startsWithName_append {first second : List Token} (hne : first ≠ []) :
    StartsWithName (first ++ second) ↔ StartsWithName first := by
  obtain ⟨token, tokens, rfl⟩ := List.exists_cons_of_ne_nil hne
  rw [List.cons_append, startsWithName_cons, startsWithName_cons]

theorem endsWithName_singleton {token : Token} : EndsWithName [token] ↔ token.IsName := by
  simp [EndsWithName]

theorem endsWithName_append {first second : List Token} (hne : second ≠ []) :
    EndsWithName (first ++ second) ↔ EndsWithName second := by
  rw [EndsWithName, EndsWithName, List.getLast?_append,
    List.getLast?_eq_some_getLast hne, Option.some_or]

theorem endsWithName_cons {token : Token} {tokens : List Token} (hne : tokens ≠ []) :
    EndsWithName (token :: tokens) ↔ EndsWithName tokens :=
  @endsWithName_append [token] tokens hne

theorem startsWithGap_append {first second : List Char} (hne : first ≠ []) :
    StartsWithGap (first ++ second) ↔ StartsWithGap first := by
  obtain ⟨c, rest, rfl⟩ := List.exists_cons_of_ne_nil hne
  simp [StartsWithGap]

/-! ## Cutting and joining texts -/

@[simp]
theorem written_nil_iff {text : List Char} : Written [] text ↔ text = [] := by
  constructor
  · rintro ⟨⟩
    rfl
  · rintro rfl
    exact .nil

/-- No word is empty, and none starts with a separator. -/
theorem Token.Word.head {token : Token} {word : List Char} (h : token.Word word) :
    ∃ c rest, word = c :: rest ∧ isSeparator c = false := by
  cases h with
  | name given alphabetic =>
      obtain ⟨c, rest, rfl⟩ := List.exists_cons_of_ne_nil given
      exact ⟨c, rest, rfl, isSeparator_of_isAlpha (alphabetic c (by simp))⟩
  | number numeral =>
      obtain ⟨c, rest, rfl, hc⟩ := numeral.head
      refine ⟨c, rest, rfl, ?_⟩
      rcases hc with hc | rfl | rfl | rfl
      · exact isSeparator_of_isDigit hc
      all_goals rfl
  | _ => exact ⟨_, _, rfl, rfl⟩

/-- No separator stands inside a word. -/
theorem Token.Word.not_isSeparator {token : Token} {word : List Char} (h : token.Word word) :
    ∀ c ∈ word, isSeparator c = false := by
  cases h with
  | name given alphabetic => exact fun c hc => isSeparator_of_isAlpha (alphabetic c hc)
  | number numeral => exact numeral.not_isSeparator
  | _ => simp [isSeparator]

/-- The first word of a text, the gap in front of it and the text behind it. -/
theorem Written.uncons {token : Token} {tokens : List Token} {text : List Char}
    (h : Written (token :: tokens) text) :
    ∃ gap word later, text = gap ++ (word ++ later) ∧ IsGap gap ∧ token.Word word ∧
      Written tokens later := by
  cases h with
  | cons separators spelled others apart =>
      exact ⟨_, _, _, rfl, separators, spelled, others⟩

theorem Written.ne_nil {token : Token} {tokens : List Token} {text : List Char}
    (h : Written (token :: tokens) text) : text ≠ [] := by
  obtain ⟨gap, word, later, rfl, -, spelled, -⟩ := h.uncons
  obtain ⟨c, rest, rfl, -⟩ := spelled.head
  simp

/-- A text that is made of words ends with one of them. -/
theorem Written.not_isSeparator_getLast {tokens : List Token} {text : List Char}
    (h : Written tokens text) : ∀ c ∈ text.getLast?, isSeparator c = false := by
  induction h with
  | nil => simp
  | @cons token tokens gap word later separators spelled others apart ih =>
      rcases spelled.head with ⟨c, rest, hword, -⟩
      have hne : word ≠ [] := by simp [hword]
      rw [List.getLast?_append, List.getLast?_append, List.getLast?_eq_some_getLast hne]
      intro d hd
      cases hlast : later.getLast? with
      | some e =>
          rw [hlast] at hd ih
          cases hd
          exact ih d rfl
      | none =>
          rw [hlast] at hd
          cases hd
          exact spelled.not_isSeparator _ (List.getLast_mem hne)

/-- Words written one after the other make a longer text, if the names that meet
are separated. -/
theorem Written.append {first second : List Token} {before behind : List Char}
    (hfirst : Written first before) (hsecond : Written second behind)
    (meet : EndsWithName first → StartsWithName second → StartsWithGap behind) :
    Written (first ++ second) (before ++ behind) := by
  induction hfirst with
  | nil => exact hsecond
  | @cons token tokens gap word later separators spelled others apart ih =>
      rw [List.cons_append, List.append_assoc, List.append_assoc]
      by_cases hlast : tokens = []
      · subst hlast
        obtain rfl := written_nil_iff.mp others
        exact .cons separators spelled hsecond (meet ∘ endsWithName_singleton.mpr)
      · rw [endsWithName_cons hlast] at meet
        refine .cons separators spelled (ih meet) fun hname hstart => ?_
        rw [startsWithName_append hlast] at hstart
        obtain ⟨token', tokens', rfl⟩ := List.exists_cons_of_ne_nil hlast
        exact (startsWithGap_append others.ne_nil).mpr (apart hname hstart)

/-- The text of a longer sequence is cut where the words of its end start. -/
theorem Written.cut {first second : List Token} {text : List Char}
    (h : Written (first ++ second) text) :
    ∃ before behind, text = before ++ behind ∧ Written first before ∧ Written second behind ∧
      (EndsWithName first → StartsWithName second → StartsWithGap behind) := by
  induction first generalizing text with
  | nil => exact ⟨[], text, rfl, .nil, h, by simp [EndsWithName]⟩
  | cons token first ih =>
      obtain - | @⟨_, _, gap, word, later, separators, spelled, others, apart⟩ := h
      obtain ⟨before, behind, rfl, hfirst, hsecond, meet⟩ := ih others
      refine ⟨gap ++ (word ++ before), behind, by simp, ?_, hsecond, ?_⟩
      · refine .cons separators spelled hfirst fun hname hstart => ?_
        obtain ⟨next, tokens, rfl⟩ : ∃ next tokens, first = next :: tokens := by
          cases first with
          | nil => simp [StartsWithName] at hstart
          | cons next tokens => exact ⟨next, tokens, rfl⟩
        exact (startsWithGap_append hfirst.ne_nil).mp (apart hname hstart)
      · by_cases hlast : first = []
        · subst hlast
          obtain rfl := written_nil_iff.mp hfirst
          exact apart ∘ endsWithName_singleton.mp
        · rw [endsWithName_cons hlast]
          exact meet

end Calc
