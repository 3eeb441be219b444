/-
# Open parentheses in a text

How deeply an expression is nested can be read off any text of it: as many parentheses
are open at once, at some point of the text, as the expression is deep. So a bound on
the parentheses that are open at once in a text bounds the depth of what it spells.
-/

import Calc.Proofs.Grammar.Spelling

namespace Calc

open Text (IsGap)

/-- At most the given number of parentheses are open at once anywhere in the text. -/
def Text.OpenAtMost (limit : Nat) (text : List Char) : Prop :=
  ∀ front, front <+: text → front.count '(' ≤ front.count ')' + limit

/-- A part of a text holds no parentheses. -/
def Text.NoParentheses (text : List Char) : Prop :=
  '(' ∉ text ∧ ')' ∉ text

/-- All parentheses of the text are closed, and at some point the given number of them
is open. -/
structure Text.Opens (text : List Char) (depth : Nat) : Prop where
  closed : text.count '(' = text.count ')'
  front : ∃ front, front <+: text ∧ front.count '(' = front.count ')' + depth

namespace Text

variable {first second text : List Char} {m n depth limit : Nat}

theorem NoParentheses.opens (h : NoParentheses text) : Opens text 0 where
  closed := by rw [List.count_eq_zero.mpr h.1, List.count_eq_zero.mpr h.2]
  front := ⟨[], List.nil_prefix, rfl⟩

/-- In two texts, as many parentheses are open at once as in one of them. -/
theorem Opens.append (hfirst : Opens first m) (hsecond : Opens second n) :
    Opens (first ++ second) (max m n) := by
  obtain ⟨hclosed, front, hfront, hopen⟩ := hfirst
  obtain ⟨hclosed', front', hfront', hopen'⟩ := hsecond
  refine ⟨by rw [List.count_append, List.count_append, hclosed, hclosed'], ?_⟩
  rcases Nat.le_total n m with hle | hle
  · rw [Nat.max_eq_left hle]
    exact ⟨front, hfront.trans (List.prefix_append first second), hopen⟩
  · rw [Nat.max_eq_right hle]
    refine ⟨first ++ front', (List.prefix_append_right_inj first).mpr hfront', ?_⟩
    rw [List.count_append, List.count_append]
    omega

/-- One parenthesis more is open inside parentheses. -/
theorem Opens.group (h : Opens text depth) : Opens ('(' :: (text ++ [')'])) (depth + 1) := by
  obtain ⟨hclosed, front, hfront, hopen⟩ := h
  constructor
  · simp [List.count_append, hclosed]
  · refine ⟨'(' :: front, ?_, ?_⟩
    · exact List.cons_prefix_cons.mpr ⟨rfl, hfront.trans (List.prefix_append text [')'])⟩
    · simp only [List.count_cons_self, List.count_cons_of_ne (by decide : '(' ≠ ')'), hopen]
      omega

theorem Opens.le_of_openAtMost (h : Opens text depth) (hlimit : OpenAtMost limit text) :
    depth ≤ limit := by
  obtain ⟨-, front, hfront, hopen⟩ := h
  have hle := hlimit front hfront
  omega

/-- Behind the end of a text nothing changes in front of it. -/
theorem OpenAtMost.of_append (h : OpenAtMost limit (first ++ second)) : OpenAtMost limit first :=
  fun front hfront => h front (hfront.trans (List.prefix_append first second))

end Text

open Text (Opens NoParentheses)

theorem noParentheses_of_isGap {gap : List Char} (h : IsGap gap) : NoParentheses gap := by
  constructor <;> intro hmem <;> exact absurd (h _ hmem) (by decide)

/-- Words other than the parentheses themselves hold none. -/
theorem Token.Word.noParentheses {token : Token} {word : List Char} (h : token.Word word)
    (hopening : token ≠ .opening) (hclosing : token ≠ .closing) : NoParentheses word := by
  cases h with
  | name given alphabetic =>
      constructor <;> intro hmem <;> exact absurd (alphabetic _ hmem) (by decide)
  | number numeral =>
      constructor <;> intro hmem <;> exact absurd (numeral.isDigit_or_mem _ hmem) (by decide)
  | opening => exact absurd rfl hopening
  | closing => exact absurd rfl hclosing
  | _ => constructor <;> decide

/-- A word with a gap in front of it opens nothing. -/
theorem Written.uncons_opens {token : Token} {tokens : List Token} {text : List Char}
    (h : Written (token :: tokens) text) (hopening : token ≠ .opening)
    (hclosing : token ≠ .closing) :
    ∃ word later, text = word ++ later ∧ Opens word 0 ∧ Written tokens later := by
  obtain ⟨gap, word, later, rfl, separators, spelled, others⟩ := h.uncons
  refine ⟨gap ++ word, later, by simp, ?_, others⟩
  exact (noParentheses_of_isGap separators).opens.append
    (spelled.noParentheses hopening hclosing).opens

/-- A word between two texts does not change how many parentheses are open. -/
theorem Written.opens_join {before behind : List Token} {token : Token} {text : List Char}
    {m n : Nat} (h : Written (before ++ token :: behind) text) (hopening : token ≠ .opening)
    (hclosing : token ≠ .closing) (hbefore : ∀ part, Written before part → Opens part m)
    (hbehind : ∀ part, Written behind part → Opens part n) : Opens text (max m n) := by
  obtain ⟨front, rest, rfl, hfront, hrest, -⟩ := h.cut
  obtain ⟨word, later, rfl, hword, hlater⟩ := hrest.uncons_opens hopening hclosing
  simpa using (hbefore front hfront).append (hword.append (hbehind later hlater))

/-- In a text of an expression as many parentheses are open at once as the expression is
deep. -/
theorem Written.opens {level : Level} (e : Expr String level) {text : List Char}
    (h : Written e.tokens text) : Opens text e.depth := by
  have hsingle {token : Token} {text : List Char} (h : Written [token] text)
      (hopening : token ≠ .opening) (hclosing : token ≠ .closing) : Opens text 0 := by
    obtain ⟨word, later, rfl, hword, hlater⟩ := h.uncons_opens hopening hclosing
    obtain rfl := written_nil_iff.mp hlater
    simpa using hword
  induction e generalizing text with
  | ref name => exact hsingle h (by simp) (by simp)
  | literal value => exact hsingle h (by simp) (by simp)
  | group inner ih =>
      obtain ⟨gap, _, later, rfl, separators, ⟨⟩, hlater⟩ := h.uncons
      obtain ⟨body, behind, rfl, hbody, hbehind, -⟩ := hlater.cut
      obtain ⟨gap', _, last, rfl, separators', ⟨⟩, hlast⟩ := hbehind.uncons
      obtain rfl := written_nil_iff.mp hlast
      have hinside := (ih hbody).append (noParentheses_of_isGap separators').opens
      have hgroup := (noParentheses_of_isGap separators).opens.append hinside.group
      simpa [Expr.depth] using hgroup
  | factor f ih => exact ih h
  | term t ih => exact ih h
  | product t op f iht ihf =>
      exact h.opens_join (by simp) (by simp) (fun _ => iht) fun _ => ihf
  | sum e op t ihe iht =>
      exact h.opens_join (by simp) (by simp) (fun _ => ihe) fun _ => iht

end Calc
