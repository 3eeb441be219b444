/-
# Names of programs that are read

A name is one or more ASCII letters: no other name has a word, so that every name of a
program that was read from a text is one. Therefore a name holds no character that delimits
it where it is shown.
-/

import Calc.Proofs.Parser.Operators
import Calc.Proofs.Resolution.Slots

namespace Calc

/-- One or more ASCII letters. -/
def Alphabetic (name : String) : Prop :=
  name ≠ "" ∧ ∀ c ∈ name.toList, c.isAlpha = true

/-- What is no letter does not stand in a name. -/
theorem Alphabetic.not_mem {name : String} (h : Alphabetic name) {c : Char}
    (hc : c.isAlpha = false) : c ∉ name.toList := by
  intro hmem
  rw [h.2 c hmem] at hc
  cases hc

theorem Token.Word.alphabetic_name {name : String} {word : List Char}
    (h : (Token.name name).Word word) : Alphabetic name := by
  cases h with
  | name given alphabetic =>
      refine ⟨?_, by rwa [String.toList_ofList]⟩
      rwa [Ne, ← String.toList_eq_nil_iff, String.toList_ofList]

theorem Expr.name_mem_tokens {level : Level} {e : Expr String level} {name : String}
    (h : name ∈ e.refs) : Token.name name ∈ e.tokens := by
  induction e with
  | ref r =>
      obtain rfl := List.mem_singleton.mp h
      exact List.mem_singleton_self _
  | literal value => exact absurd h List.not_mem_nil
  | group inner ih =>
      exact List.mem_cons_of_mem _ (List.mem_append_left _ (ih h))
  | factor f ih => exact ih h
  | term t ih => exact ih h
  | product t op f iht ihf =>
      rw [tokens, List.mem_append, List.mem_cons]
      exact (List.mem_append.mp h).imp iht fun hmem => .inr (ihf hmem)
  | sum e op t ihe iht =>
      rw [tokens, List.mem_append, List.mem_cons]
      exact (List.mem_append.mp h).imp ihe fun hmem => .inr (iht hmem)

theorem Statement.name_mem_tokens {statement : Statement String} {name : String}
    (h : name ∈ statement.refs) : Token.name name ∈ statement.tokens := by
  cases statement with
  | declaration target =>
      obtain rfl := List.mem_singleton.mp h
      exact List.mem_cons_of_mem _ List.mem_cons_self
  | input target =>
      obtain rfl := List.mem_singleton.mp h
      exact List.mem_cons_of_mem _ List.mem_cons_self
  | output value => exact List.mem_cons_of_mem _ (Expr.name_mem_tokens h)
  | assignment target value =>
      rcases List.mem_cons.mp h with rfl | h
      · exact List.mem_cons_self
      · exact List.mem_cons_of_mem _ (List.mem_cons_of_mem _ (Expr.name_mem_tokens h))

/-- The names of a program that a text is made of. -/
theorem Written.alphabetic {program : Program String} {text : List Char}
    (h : Written program.tokens text) : ∀ name ∈ program.refs, Alphabetic name := by
  intro name hname
  obtain ⟨statement, hstatement, hmem⟩ := List.mem_flatMap.mp hname
  obtain ⟨word, hword⟩ := h.exists_word (.name name)
    (List.mem_flatMap.mpr ⟨statement, hstatement, Statement.name_mem_tokens hmem⟩)
  exact hword.alphabetic_name

namespace Program

variable {program : Program String}

theorem alphabetic_of_complete {text : String} (h : complete text = .ok program) :
    ∀ name ∈ program.refs, Alphabetic name := by
  obtain ⟨⟨body, blank, -, hwritten, -⟩, -⟩ := spelledBy_of_complete h
  exact hwritten.alphabetic

/-- What a program declares is among its names. -/
theorem declared_subset_refs {ρ : Type} (program : Program ρ) :
    program.declared ⊆ program.refs := by
  intro name hname
  obtain ⟨statement, hstatement, hmem⟩ := List.mem_flatMap.mp hname
  refine List.mem_flatMap.mpr ⟨statement, hstatement, ?_⟩
  cases statement with
  | declaration target => exact hmem
  | _ => exact absurd hmem List.not_mem_nil

end Program

end Calc
