/-
# How many parentheses are open at once

While a text is read, parentheses are opened wherever an operand is looked for and one is
there, also those that turn out to be left over. How many of them are open at once is a
property of the text and not of the limit: what is read under two limits is the same. The
limit decides only one thing, exactly as it should. A text is refused if, and only if, more
parentheses than it allows are open at once while the text is read.
-/

import Calc.Proofs.Parser.Operands

namespace Calc

open Text

namespace Parser

/-! ## What is read does not depend on the limit -/

/-- Two readers do not disagree about what a text starts with. -/
def Agree {α : Type} (first second : Parser α) : Prop :=
  ∀ ⦃text : List Char⦄ ⦃a b : Option (Parsed α text)⦄, first text = .ok a →
    second text = .ok b → a = b

section Agree

variable {α β : Type} {operator? : Char → Option Operator} {operand operand' : Parser β}
  {single : β → α} {join : α → Operator → β → α}

/-- A chain that is read reads the operand that it comes to, if there is one. -/
theorem exists_operand_of_chain {text : List Char} {start final : Parsed α text}
    {op : Parsed Operator start.rest} (hop : character? operator? start.rest = some op)
    (h : chain operator? operand join start = .ok final) :
    ∃ found, operand op.rest = .ok found := by
  cases hoperand : operand op.rest with
  | error e =>
      rw [chain] at h
      simp only [hop, hoperand] at h
      cases h
  | ok found => exact ⟨found, rfl⟩

theorem Agree.chain {text : List Char} {start a b : Parsed α text} (h : Agree operand operand')
    (ha : chain operator? operand join start = .ok a)
    (hb : chain operator? operand' join start = .ok b) : a = b := by
  fun_induction Parser.chain operator? operand join start generalizing a b with
  | case1 start hop =>
      rw [Parser.chain, hop] at hb
      cases ha
      cases hb
      rfl
  | case2 start op hop e hoperand => cases ha
  | case3 start op hop hoperand =>
      rcases exists_operand_of_chain hop hb with ⟨found, hoperand'⟩
      cases h hoperand hoperand'
      rw [Parser.chain] at hb
      simp only [hop, hoperand'] at hb
      cases ha
      cases hb
      rfl
  | case4 start op hop right hoperand ih =>
      rcases exists_operand_of_chain hop hb with ⟨found, hoperand'⟩
      cases h hoperand hoperand'
      rw [Parser.chain] at hb
      simp only [hop, hoperand'] at hb
      exact ih ha hb

theorem Agree.linked (h : Agree operand operand') :
    Agree (linked operator? operand single join) (linked operator? operand' single join) := by
  intro text a b ha hb
  rcases OperandAt.first.exists_read ha with ⟨found, hread⟩
  rcases OperandAt.first.exists_read hb with ⟨found', hread'⟩
  cases h hread hread'
  rw [Parser.linked, hread] at ha
  rw [Parser.linked, hread'] at hb
  cases found with
  | none =>
      cases ha
      cases hb
      rfl
  | some first =>
      rcases exists_of_map_eq_ok ha with ⟨final, hchain, rfl⟩
      rcases exists_of_map_eq_ok hb with ⟨final', hchain', rfl⟩
      rw [h.chain hchain hchain']

theorem Agree.factor {inside inside' : Parser (Expr String .expression)}
    (h : Agree inside inside') : Agree (factor inside) (factor inside') := by
  intro text a b ha hb
  rcases factor_cases text with ⟨result, hresult⟩ | ⟨opening, hopening⟩
  · rw [hresult] at ha hb
    exact Except.ok.inj (ha.symm.trans hb)
  · rcases factor_of_opening hopening with ⟨close, hfactor⟩
    rw [hfactor] at ha hb
    rcases exists_of_map_eq_ok ha with ⟨found, hfound, rfl⟩
    rcases exists_of_map_eq_ok hb with ⟨found', hfound', rfl⟩
    rw [h hfound hfound']

end Agree

theorem grouped_agree (depth depth' : Nat) : Agree (grouped depth) (grouped depth') := by
  induction depth generalizing depth' with
  | zero =>
      intro text a b ha
      cases ha
  | succ depth ih =>
      cases depth' with
      | zero =>
          intro text a b _ hb
          cases hb
      | succ depth' =>
          rw [grouped, grouped, expression_eq, expression_eq, expressionOf_eq_linked,
            expressionOf_eq_linked, term_eq_linked, term_eq_linked]
          exact (ih depth').factor.linked.linked

theorem statement_agree (depth depth' : Nat) : Agree (statement depth) (statement depth') := by
  intro text a b ha hb
  rcases statement_cases text with ⟨result, hresult⟩ | ⟨make, position, hposition⟩
  · rw [hresult] at ha hb
    exact Except.ok.inj (ha.symm.trans hb)
  · rcases hposition.statement_eq with ⟨shorter, hstatement⟩
    rw [hstatement] at ha hb
    rcases exists_of_map_eq_ok ha with ⟨found, hfound, rfl⟩
    rcases exists_of_map_eq_ok hb with ⟨found', hfound', rfl⟩
    rw [grouped_agree (depth + 1) (depth' + 1) hfound hfound']

/-! ## Open parentheses -/

/-- While a factor, a term or an expression is read from the front of a text, the given
number of parentheses is open at once. A parenthesis is open as soon as it stands where a
factor is looked for. The limit under which the operands before were read does not matter. -/
inductive Opens : Level → List Char → Nat → Prop
  | opening {text : List Char} {opening : Parsed Unit text}
      (mark : mark? '(' text = some opening) : Opens .factor text 1
  | inside {text : List Char} {opening : Parsed Unit text} {count : Nat}
      (mark : mark? '(' text = some opening) (inner : Opens .expression opening.rest count) :
      Opens .factor text (count + 1)
  | factor {depth : Nat} {text position : List Char} {count : Nat}
      (hposition : OperandAt Operator.multiplicative? (factor (grouped depth)) text position)
      (h : Opens .factor position count) : Opens .term text count
  | term {depth : Nat} {text position : List Char} {count : Nat}
      (hposition : OperandAt Operator.additive? (Parser.term (Parser.factor (grouped depth)))
        text position)
      (h : Opens .term position count) : Opens .expression text count

/-- The reader of a level. -/
def ofLevel (depth : Nat) : (level : Level) → Parser (Expr String level)
  | .factor => factor (grouped depth)
  | .term => term (factor (grouped depth))
  | .expression => expression depth

/-- Where an operand is looked for under one limit, it is looked for under another one, if
no operand before is too deep there. -/
theorem OperandAt.of_agree {β : Type} {operator? : Char → Option Operator}
    {operand operand' : Parser β} {text position : List Char}
    (h : OperandAt operator? operand text position) (hagree : Agree operand operand') :
    OperandAt operator? operand' text position ∨
      ∃ earlier, OperandAt operator? operand' text earlier ∧
        operand' earlier = .error .tooDeep := by
  induction h with
  | first => exact .inl .first
  | @later position rest value op before read next ih =>
      rcases ih with hposition | hearlier
      · cases hread : operand' position with
        | error e => exact .inr ⟨position, hposition, hread⟩
        | ok found =>
            rcases read with ⟨shorter, read⟩
            cases hagree read hread
            exact .inl (.later hposition ⟨shorter, hread⟩ next)
      · exact .inr hearlier

/-- An operand that is too deep makes the chain too deep, also if it is looked for under
another limit. -/
theorem OperandAt.linked_eq_error_of_agree {α β : Type} {operator? : Char → Option Operator}
    {operand operand' : Parser β} {single : β → α} {join : α → Operator → β → α}
    {text position : List Char}
    (h : OperandAt operator? operand text position) (hagree : Agree operand operand')
    (herror : operand' position = .error .tooDeep) :
    linked operator? operand' single join text = .error .tooDeep := by
  rcases h.of_agree hagree with hposition | ⟨earlier, hearlier, herror'⟩
  · exact hposition.linked_eq_error herror
  · exact hearlier.linked_eq_error herror'

theorem ofLevel_eq_error_of_opens {level : Level} {text : List Char} {count depth : Nat}
    (h : Opens level text count) (hdepth : depth < count) :
    ofLevel depth level text = .error .tooDeep := by
  induction h generalizing depth with
  | @opening text opening mark =>
      cases Nat.lt_one_iff.mp hdepth
      rcases factor_of_opening mark with ⟨close, hfactor⟩
      rw [ofLevel, hfactor]
      rfl
  | @inside text opening count mark inner ih =>
      rcases factor_of_opening mark with ⟨close, hfactor⟩
      rw [ofLevel, hfactor]
      cases depth with
      | zero => rfl
      | succ depth =>
          have hinner : expression depth opening.rest = .error .tooDeep :=
            ih (Nat.lt_of_succ_lt_succ hdepth)
          rw [grouped, hinner]
          rfl
  | @factor depth' text position count hposition h ih =>
      rw [ofLevel, term_eq_linked]
      exact hposition.linked_eq_error_of_agree (grouped_agree depth' depth).factor (ih hdepth)
  | @term depth' text position count hposition h ih =>
      rw [ofLevel, expression_eq, expressionOf_eq_linked]
      have hagree := (grouped_agree depth' depth).factor
      have hterm : Agree (Parser.term (Parser.factor (grouped depth')))
          (Parser.term (Parser.factor (grouped depth))) := by
        rw [term_eq_linked, term_eq_linked]
        exact hagree.linked
      exact hposition.linked_eq_error_of_agree hterm (ih hdepth)

/-- Under a limit, the parenthesis that is one too many is open where a factor is too deep. -/
theorem opens_of_factor_error {depth : Nat} {text : List Char}
    (hinside : ∀ {text}, 0 < depth → grouped depth text = .error .tooDeep →
      Opens .expression text depth)
    (h : factor (grouped depth) text = .error .tooDeep) : Opens .factor text (depth + 1) := by
  rcases factor_cases text with ⟨result, hresult⟩ | ⟨opening, hopening⟩
  · rw [hresult] at h
    cases h
  · rcases factor_of_opening hopening with ⟨close, hfactor⟩
    rw [hfactor] at h
    cases hread : grouped depth opening.rest with
    | ok found =>
        rw [hread] at h
        cases h
    | error e =>
        cases depth with
        | zero => exact .opening hopening
        | succ depth => exact .inside hopening (hinside (Nat.succ_pos depth) hread)

/-- So it is where an expression is too deep, if the limit inside of it is observed. -/
theorem opens_of_error {depth : Nat} {text : List Char}
    (hinside : ∀ {text}, 0 < depth → grouped depth text = .error .tooDeep →
      Opens .expression text depth)
    (h : expression depth text = .error .tooDeep) : Opens .expression text (depth + 1) := by
  rw [expression_eq, expressionOf_eq_linked, linked_eq_error_iff] at h
  rcases h with ⟨term, hterm, h⟩
  rw [term_eq_linked, linked_eq_error_iff] at h
  rcases h with ⟨position, hposition, h⟩
  exact .term hterm (.factor hposition (opens_of_factor_error hinside h))

theorem opens_of_expression_error {depth : Nat} {text : List Char}
    (h : expression depth text = .error .tooDeep) : Opens .expression text (depth + 1) := by
  induction depth generalizing text with
  | zero =>
      apply opens_of_error _ h
      intro _ hpos
      exact absurd hpos (Nat.lt_irrefl 0)
  | succ depth ih => exact opens_of_error (fun _ h => ih h) h

/-- An expression is too deep exactly if more parentheses are open at once than allowed. -/
theorem expression_eq_error_iff {depth : Nat} {text : List Char} :
    expression depth text = .error .tooDeep ↔ Opens .expression text (depth + 1) :=
  ⟨opens_of_expression_error, fun h => ofLevel_eq_error_of_opens h (Nat.lt_succ_self depth)⟩

end Parser

/-! ## Programs -/

/-- While the statements of a text are read, the given number of parentheses is open at
once. This includes what is tried behind the last statement. -/
inductive Program.Opens : List Char → Nat → Prop
  | value {make : Expr String .expression → Statement String} {text position : List Char}
      {count : Nat} (hvalue : Parser.ValueAt text make position)
      (h : Parser.Opens .expression position count) : Program.Opens text count
  | later {depth : Nat} {text : List Char} {first : Parsed (Statement String) text} {count : Nat}
      (hfirst : Parser.statement depth text = .ok (some first))
      (h : Program.Opens first.rest count) : Program.Opens text count

namespace Parser

theorem statements_eq_error_of_opens {text : List Char} {count depth : Nat}
    (h : Program.Opens text count) (hdepth : depth < count) :
    statements depth text = .error .tooDeep := by
  induction h with
  | @value make text position count hvalue h =>
      have hstatement : statement depth text = .error .tooDeep :=
        statement_eq_error_iff.mpr ⟨make, position, hvalue, ofLevel_eq_error_of_opens h hdepth⟩
      rw [statements, hstatement]
  | @later depth' text first count hfirst h ih =>
      cases hstatement : statement depth text with
      | error e => rw [statements, hstatement]
      | ok found =>
          cases statement_agree depth' depth hfirst hstatement
          rw [statements, hstatement]
          simp only [ih hdepth]

/-- A text is too deep exactly if more parentheses are open at once than allowed. -/
theorem statements_eq_error_iff {depth : Nat} {text : List Char} :
    statements depth text = .error .tooDeep ↔ Program.Opens text (depth + 1) := by
  constructor
  · intro h
    fun_induction statements depth text with
    | case1 text e hstatement =>
        rcases statement_eq_error_iff.mp hstatement with ⟨make, position, hvalue, herror⟩
        exact .value hvalue (expression_eq_error_iff.mp herror)
    | case2 text hstatement => cases h
    | case3 text first hfirst e hothers ih => exact .later hfirst (ih hothers)
    | case4 text first hfirst others rest hothers ih => cases h
  · intro h
    exact statements_eq_error_of_opens h (Nat.lt_succ_self depth)

end Parser

/-- Whether a program text is refused for its nesting. -/
theorem Program.ofText_eq_error_iff {text : String} :
    ofText text = .error .tooDeep ↔ Opens text.toList (maxDepth + 1) := by
  rw [← Parser.statements_eq_error_iff, ofText]
  cases Parser.statements maxDepth text.toList with
  | error e => exact iff_of_true rfl rfl
  | ok found => simp

/-! ## Texts with few parentheses -/

/-- No more parentheses are open at once than there are in the text. -/
theorem Parser.Opens.le_count {level : Level} {text : List Char} {count : Nat}
    (h : Opens level text count) : count ≤ text.count '(' := by
  have hmark {text : List Char} {opening : Parsed Unit text} (h : mark? '(' text = some opening) :
      opening.rest.count '(' + 1 ≤ text.count '(' := by
    rcases mark?_sound h with ⟨gap, -, htext⟩
    have hcount := congrArg (List.count '(') htext
    rw [List.count_append, List.count_cons_self] at hcount
    omega
  induction h with
  | opening mark => exact (Nat.le_add_left 1 _).trans (hmark mark)
  | inside mark inner ih => exact (Nat.add_le_add_right ih 1).trans (hmark mark)
  | @factor depth text position count hposition h ih =>
      have hsound := factor_sound (grouped_sound depth)
      have hsuffix := hposition.suffix fun h => (hsound h).1.suffix
      exact ih.trans (hsuffix.sublist.count_le '(')
  | @term depth text position count hposition h ih =>
      have hsound := term_sound (factor_sound (grouped_sound depth))
      have hsuffix := hposition.suffix fun h => (hsound h).1.suffix
      exact ih.trans (hsuffix.sublist.count_le '(')

theorem Program.Opens.le_count {text : List Char} {count : Nat} (h : Program.Opens text count) :
    count ≤ text.count '(' := by
  induction h with
  | value hvalue h => exact h.le_count.trans (hvalue.suffix.sublist.count_le '(')
  | later hfirst h ih =>
      exact ih.trans ((Parser.statement_sound hfirst).1.suffix.sublist.count_le '(')

end Calc
