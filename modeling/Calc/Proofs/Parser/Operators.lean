/-
# Operators of programs that are read

The tree of a program may hold operators that the language does not know, which
have no meaning. Such an operator has no word, so that no text spells it: a program
that was read from a text has operators of the language only.
-/

import Calc.Proofs.Execution.Interpreter
import Calc.Proofs.Parser.Acceptance

namespace Calc

/-- Only operators of the language have words. -/
theorem Expr.arithmetic_of_tokens {level : Level} (e : Expr String level)
    (h : ∀ token ∈ e.tokens, ∃ word, token.Word word) : e.Arithmetic := by
  induction e with
  | ref name => trivial
  | literal value => trivial
  | group inner ih => exact ih fun token htoken => h token (by simp [tokens, htoken])
  | factor f ih => exact ih h
  | term t ih => exact ih h
  | product t op f iht ihf =>
      obtain ⟨word, hword⟩ := h (.multiplicative op) (by simp [tokens])
      refine ⟨iht fun token htoken => h token (by simp [tokens, htoken]), ?_,
        ihf fun token htoken => h token (by simp [tokens, htoken])⟩
      rintro symbol rfl
      cases hword
  | sum e op t ihe iht =>
      obtain ⟨word, hword⟩ := h (.additive op) (by simp [tokens])
      refine ⟨ihe fun token htoken => h token (by simp [tokens, htoken]), ?_,
        iht fun token htoken => h token (by simp [tokens, htoken])⟩
      rintro symbol rfl
      cases hword

/-- Every token of a text has a word. -/
theorem Written.exists_word {tokens : List Token} {text : List Char} (h : Written tokens text) :
    ∀ token ∈ tokens, ∃ word, token.Word word := by
  induction h with
  | nil => simp
  | cons separators spelled others apart ih =>
      exact List.forall_mem_cons.mpr ⟨⟨_, spelled⟩, ih⟩

/-- A program that a text is made of has operators of the language only. -/
theorem Written.arithmetic {program : Program String} {text : List Char}
    (h : Written program.tokens text) : ∀ s ∈ program, s.Arithmetic := by
  intro s hs
  have hword : ∀ token ∈ s.tokens, ∃ word, token.Word word := fun token htoken =>
    h.exists_word token (List.mem_flatMap.mpr ⟨s, hs, htoken⟩)
  cases s with
  | declaration target => trivial
  | input target => trivial
  | output value =>
      exact value.arithmetic_of_tokens fun token htoken =>
        hword token (List.mem_cons_of_mem _ htoken)
  | assignment target value =>
      exact value.arithmetic_of_tokens fun token htoken =>
        hword token (List.mem_cons_of_mem _ (List.mem_cons_of_mem _ htoken))

/-- So every program that is read has. -/
theorem Program.arithmetic_of_complete {program : Program String} {text : String}
    (h : Program.complete text = .ok program) : ∀ s ∈ program, s.Arithmetic := by
  obtain ⟨⟨body, blank, -, hwritten, -⟩, -⟩ := spelledBy_of_complete h
  exact hwritten.arithmetic

end Calc
