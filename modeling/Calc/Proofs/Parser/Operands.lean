/-
# Where operands are looked for

The reader of a chain comes to places in the text where it needs an operand: at the front,
and behind every operator that follows an operand. It depends on what is found there how
the whole chain ends. If the operand makes the text too deep, then so is the chain, and if
there is one, then the chain is read at least up to its end. A factor depends in this way on
the expression in its parentheses.
-/

import Calc.Proofs.Parser.Completeness

namespace Calc

open Text

namespace Parser

/-! ## Chains -/

section Chain

variable {α β : Type}

/-- The places where the reader of a chain looks for an operand. -/
inductive OperandAt (operator? : Char → Option Operator) (operand : Parser β)
    (text : List Char) : List Char → Prop
  | first : OperandAt operator? operand text text
  | later {position rest : List Char} {value : β} {op : Parsed Operator rest}
      (before : OperandAt operator? operand text position)
      (read : Returns operand position value rest) (next : character? operator? rest = some op) :
      OperandAt operator? operand text op.rest

variable {operator? : Char → Option Operator} {operand : Parser β} {single : β → α}
  {join : α → Operator → β → α} {text position rest : List Char} {e : TooDeep}

/-- An operand that is written in the text leads to the place behind the operator. -/
theorem OperandAt.next {value : β} {gap : List Char} {c : Char} {op : Operator}
    (h : OperandAt operator? operand text position)
    (hread : Returns operand position value (gap ++ c :: rest)) (hgap : IsGap gap)
    (hc : isSeparator c = false) (hop : operator? c = some op) :
    OperandAt operator? operand text rest := by
  rcases @character?_complete _ operator? gap rest c op hgap hc hop with ⟨shorter, hnext⟩
  exact .later h hread hnext

/-- Behind an operand, the reader is in the middle of the chain. -/
theorem OperandAt.linked_eq {value : β} (h : OperandAt operator? operand text position)
    (hread : Returns operand position value rest) :
    ∃ value' shorter, linked operator? operand single join text =
      (chain operator? operand join ⟨value', rest, shorter⟩).map some := by
  induction h generalizing value rest with
  | first =>
      rcases hread with ⟨shorter, hread⟩
      refine ⟨single value, shorter, ?_⟩
      rw [linked, hread]
      rfl
  | @later _ _ _ op _ read next ih =>
      rcases hread with ⟨shorter, hread⟩
      rcases ih read with ⟨front, shorter', hlinked⟩
      refine ⟨join front op.value value, shorter.trans (op.shorter.trans shorter'), ?_⟩
      rw [hlinked, chain]
      simp only [next, hread]
      rfl

/-- An operand that is too deep makes the chain too deep. -/
theorem OperandAt.linked_eq_error (h : OperandAt operator? operand text position)
    (herror : operand position = .error e) :
    linked operator? operand single join text = .error e := by
  cases h with
  | first => rw [linked, herror]
  | @later _ _ _ op before read next =>
      rcases @OperandAt.linked_eq _ _ _ _ single join _ _ _ _ before read with
        ⟨front, shorter, hlinked⟩
      rw [hlinked, chain]
      simp only [next, herror]
      rfl

theorem OperandAt.exists_read {result : Option (Parsed α text)}
    (h : OperandAt operator? operand text position)
    (hresult : linked operator? operand single join text = .ok result) :
    ∃ found, operand position = .ok found := by
  cases hread : operand position with
  | error e =>
      rw [h.linked_eq_error hread] at hresult
      cases hresult
  | ok found => exact ⟨found, rfl⟩

theorem exists_operandAt_of_chain_error {start : Parsed α text} {value : β}
    (h : OperandAt operator? operand text position)
    (hread : Returns operand position value start.rest)
    (herror : chain operator? operand join start = .error e) :
    ∃ position, OperandAt operator? operand text position ∧ operand position = .error e := by
  fun_induction chain operator? operand join start generalizing position value with
  | case1 start hop => cases herror
  | case2 start op hop e' hoperand =>
      cases herror
      exact ⟨op.rest, .later h hread hop, hoperand⟩
  | case3 start op hop hoperand => cases herror
  | case4 start op hop right hoperand ih =>
      exact ih (.later h hread hop) ⟨right.shorter, hoperand⟩ herror

/-- A chain is too deep only if one of its operands is. -/
theorem linked_eq_error_iff :
    linked operator? operand single join text = .error e ↔
      ∃ position, OperandAt operator? operand text position ∧ operand position = .error e := by
  constructor
  · intro h
    cases hfirst : operand text with
    | error e' =>
        rw [linked, hfirst] at h
        cases h
        exact ⟨text, .first, hfirst⟩
    | ok found =>
        cases found with
        | none =>
            rw [linked, hfirst] at h
            cases h
        | some first =>
            have hread : Returns operand text first.value (first.map single).rest :=
              ⟨first.shorter, hfirst⟩
            rw [linked, hfirst] at h
            exact exists_operandAt_of_chain_error .first hread (eq_error_of_map h)
  · rintro ⟨position, h, herror⟩
    exact h.linked_eq_error herror

theorem chain_suffix {start final : Parsed α text}
    (hoperand : ∀ {text found}, operand text = .ok (some found) → found.rest <:+ text)
    (h : chain operator? operand join start = .ok final) : final.rest <:+ start.rest := by
  refine @chain_induction _ _ _ _ _ _ _ _ (fun _ left => left <:+ start.rest) h
    (List.suffix_refl _) ?_
  intro a left op right hleft hop hright
  exact (hoperand hright).trans ((character?_suffix hop).trans hleft)

theorem OperandAt.suffix (h : OperandAt operator? operand text position)
    (hoperand : ∀ {text found}, operand text = .ok (some found) → found.rest <:+ text) :
    position <:+ text := by
  induction h with
  | first => exact List.suffix_refl text
  | @later _ _ _ op _ read next ih =>
      rcases read with ⟨shorter, read⟩
      exact (character?_suffix next).trans ((hoperand read).trans ih)

/-- A chain that is read goes at least up to the end of every operand in it. -/
theorem OperandAt.linked_suffix {value : β} {result : Option (Parsed α text)}
    (h : OperandAt operator? operand text position)
    (hoperand : ∀ {text found}, operand text = .ok (some found) → found.rest <:+ text)
    (hread : Returns operand position value rest)
    (hresult : linked operator? operand single join text = .ok result) :
    ∃ found, result = some found ∧ found.rest <:+ rest := by
  rcases @OperandAt.linked_eq _ _ _ _ single join _ _ _ _ h hread with
    ⟨front, shorter, hlinked⟩
  rw [hlinked] at hresult
  rcases exists_of_map_eq_ok hresult with ⟨final, hchain, rfl⟩
  exact ⟨final, rfl, chain_suffix hoperand hchain⟩

end Chain

/-! ## Factors -/

section Factor

variable {text : List Char} {opening : Parsed Unit text}

/-- A factor with a parenthesis is read as the expression inside is. -/
theorem factor_of_opening (h : mark? '(' text = some opening) :
    ∃ close : Option (Parsed (Expr String .expression) opening.rest) →
        Option (Parsed (Expr String .factor) text),
      ∀ inside, factor inside text = (inside opening.rest).map close := by
  rcases mark?_sound h with ⟨gap, hgap, htext⟩
  have hname : name? text = none := by
    rw [htext]
    exact name?_eq_none_of_opening hgap _
  have hnumber : number? text = none := by
    rw [htext]
    exact number?_eq_none_of_opening hgap _
  refine ⟨fun found => found.bind fun inner => (mark? ')' inner.rest).map fun closing =>
    (opening.after inner).after (closing.map fun _ => .group inner.value), ?_⟩
  intro inside
  rw [factor, hname, hnumber, h]
  dsimp only
  rcases inside opening.rest with e | (_ | inner)
  · rfl
  · rfl
  · dsimp only
    cases hclosing : mark? ')' inner.rest with
    | none => simp only [Except.map, Option.bind_some, hclosing, Option.map_none]
    | some closing =>
        simp only [Except.map, Option.bind_some, hclosing]
        rfl

/-- A text without a parenthesis in front is read without the reader of what is inside. -/
theorem factor_cases (text : List Char) :
    (∃ result, ∀ inside, factor inside text = .ok result) ∨
      ∃ opening, mark? '(' text = some opening := by
  cases hname : name? text with
  | some name => exact .inl ⟨_, fun inside => by rw [factor, hname]⟩
  | none =>
  cases hnumber : number? text with
  | some number => exact .inl ⟨_, fun inside => by rw [factor, hname, hnumber]⟩
  | none =>
  cases hopening : mark? '(' text with
  | none => exact .inl ⟨none, fun inside => by rw [factor, hname, hnumber, hopening]⟩
  | some opening => exact .inr ⟨opening, rfl⟩

end Factor

end Parser

end Calc
