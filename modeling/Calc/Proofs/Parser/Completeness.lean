/-
# What is written is read

Conversely, a text that starts with the words of an expression, a statement or a
program is read as exactly that, if what follows does not prolong the last word or
the last chain. The statement for a chain is made about the reader of its level in
the middle of its work: after the words of a chain it is in the same state as if
it had this chain and were to go on with the rest. This is what an induction on
the left-leaning tree can use; a chain that nothing prolongs follows at once.
-/

import Calc.Proofs.Parser.Soundness
import Calc.Proofs.Parser.Values

namespace Calc

open Text

namespace Parser

/-! ## Chains -/

section Chain

variable {α β : Type} {text : List Char} {operator? : Char → Option Operator}
  {operand : Parser β} {join : α → Operator → β → α}

theorem chain_of_no_operator {start : Parsed α text}
    (h : ∀ c ∈ (skipSeparators start.rest).head?, operator? c = none) :
    chain operator? operand join start = .ok start := by
  rw [chain, character?_eq_none h]

/-- An operator and an operand that are there make one round of a chain. -/
theorem chain_round {value : α} {gap behind rest : List Char} {c : Char} {op : Operator}
    {right : β} {shorter : (gap ++ c :: behind).length < text.length} (hgap : IsGap gap)
    (hc : isSeparator c = false) (hop : operator? c = some op)
    (hright : Returns operand behind right rest) :
    ∃ shorter',
      chain operator? operand join (⟨value, gap ++ c :: behind, shorter⟩ : Parsed α text) =
        chain operator? operand join ⟨join value op right, rest, shorter'⟩ := by
  obtain ⟨hless, hcharacter⟩ := @character?_complete _ _ gap behind c op hgap hc hop
  obtain ⟨hless', hoperand⟩ := hright
  refine ⟨Nat.lt_trans hless' (Nat.lt_trans hless shorter), ?_⟩
  rw [chain]
  simp only [hcharacter, hoperand]
  rfl

end Chain

/-! ## Factors, terms and expressions -/

/-- The reader that is in charge of a level takes the words of the given tree as
this tree. At the two upper levels it goes on with the chain. -/
def ReadBack : {level : Level} → Expr String level → Prop
  | .factor, f => ∀ {depth : Nat} {body rest : List Char}, f.depth ≤ depth →
      Written f.tokens body → EndBefore f.tokens rest →
      Returns (factor (grouped depth)) (body ++ rest) f rest
  | .term, t => ∀ {depth : Nat} {body rest : List Char}, t.depth ≤ depth →
      Written t.tokens body → EndBefore t.tokens rest →
      ∃ shorter, term (factor (grouped depth)) (body ++ rest) =
        (chain Operator.multiplicative? (factor (grouped depth)) .product
          ⟨t, rest, shorter⟩).map some
  | .expression, e => ∀ {depth : Nat} {body rest : List Char}, e.depth ≤ depth →
      Written e.tokens body → EndBefore e.tokens rest →
      (∀ c ∈ (skipSeparators rest).head?, Operator.multiplicative? c = none) →
      ∃ shorter, expression depth (body ++ rest) =
        (chain Operator.additive? (term (factor (grouped depth))) .sum
          ⟨e, rest, shorter⟩).map some

theorem readBack_ref (name : String) : ReadBack (.ref name) := by
  intro depth body rest _ hwritten hend
  obtain ⟨gap, letters, _, rfl, separators, ⟨given, alphabetic⟩, ⟨⟩⟩ := hwritten.uncons
  have hstop : StopsRun Char.isAlpha rest := hend _ rfl
  obtain ⟨shorter, hname⟩ := name?_complete separators given alphabetic hstop
  rw [List.append_nil, List.append_assoc]
  refine ⟨shorter, ?_⟩
  unfold factor
  rw [hname]
  rfl

/-- A factor that starts with no letter is no name. -/
theorem name?_eq_none_of_head {gap rest : List Char} {c : Char} (hgap : IsGap gap)
    (hsep : isSeparator c = false) (hc : c.isAlpha = false) : name? (gap ++ c :: rest) = none := by
  refine name?_eq_none ?_
  rw [skipSeparators_gap_append hgap (by simpa using hsep)]
  simpa using hc

/-- So a numeral is no name. -/
theorem name?_eq_none_of_numeral {gap word : List Char} {n : Numeral} (hgap : IsGap gap)
    (hword : Numeral.Word word n) (rest : List Char) : name? (gap ++ (word ++ rest)) = none := by
  obtain ⟨c, tail, rfl, hc⟩ := hword.head
  obtain ⟨d, tail', hcons, hsep⟩ := (Token.Word.number hword).head
  obtain ⟨rfl, rfl⟩ := List.cons.inj hcons
  refine name?_eq_none_of_head hgap hsep ?_
  rw [Bool.eq_false_iff]
  intro halpha
  rcases hc with hc | rfl | rfl | rfl
  · rw [isDigit_of_isAlpha halpha] at hc
    cases hc
  all_goals simp at halpha

theorem readBack_literal (value : Float) : ReadBack (.literal value) := by
  intro depth body rest _ hwritten hend
  obtain ⟨gap, word, _, rfl, separators, spelled, ⟨⟩⟩ := hwritten.uncons
  cases spelled with | @number word n numeral =>
  have hstop : Numeral.EndsBefore rest := hend _ rfl
  rw [List.append_nil, List.append_assoc]
  obtain ⟨shorter, hnumber⟩ := number?_complete separators numeral hstop
  refine ⟨shorter, ?_⟩
  unfold factor
  rw [name?_eq_none_of_numeral separators numeral, hnumber]
  rfl

/-- Neither is a parenthesis, nor is it a number. -/
theorem name?_eq_none_of_opening {gap : List Char} (hgap : IsGap gap) (behind : List Char) :
    name? (gap ++ '(' :: behind) = none :=
  name?_eq_none_of_head hgap rfl rfl

theorem number?_eq_none_of_opening {gap : List Char} (hgap : IsGap gap) (behind : List Char) :
    number? (gap ++ '(' :: behind) = none := by
  refine number?_eq_none ?_
  rw [skipSeparators_gap_append hgap (by simp; rfl)]
  exact Numeral.scan_eq_none_of_head rfl (by decide) (by decide) (by decide)

/-- Reading a factor up to the parenthesis that it starts with. -/
theorem factor_opening {inside : Parser (Expr String .expression)}
    {gap gap' behind rest : List Char}
    {inner : Expr String .expression} (hgap : IsGap gap) (hgap' : IsGap gap')
    (hinner : Returns inside behind inner (gap' ++ ')' :: rest)) :
    Returns (factor inside) (gap ++ '(' :: behind) (.group inner) rest := by
  obtain ⟨hless, hopening⟩ := @mark?_complete '(' gap behind hgap rfl
  obtain ⟨hless', hinside⟩ := hinner
  obtain ⟨hless'', hclosing⟩ := @mark?_complete ')' gap' rest hgap' rfl
  refine ⟨Nat.lt_trans hless'' (Nat.lt_trans hless' hless), ?_⟩
  unfold factor
  rw [name?_eq_none_of_opening hgap, number?_eq_none_of_opening hgap, hopening]
  simp only [hinside, hclosing]
  rfl

/-- An expression that nothing prolongs is read to its end. -/
theorem ReadBack.returns {e : Expr String .expression} (h : ReadBack e) {depth : Nat}
    {body rest : List Char} (hdepth : e.depth ≤ depth) (hwritten : Written e.tokens body)
    (hend : EndBefore e.tokens rest) (hop : NoOperator rest) :
    Returns (expression depth) (body ++ rest) e rest := by
  obtain ⟨shorter, hchain⟩ := h hdepth hwritten hend fun c hc => (hop c hc).2
  refine ⟨shorter, ?_⟩
  rw [hchain, chain_of_no_operator fun c hc => (hop c hc).1]
  rfl

theorem readBack_group {inner : Expr String .expression} (ih : ReadBack inner) :
    ReadBack (.group inner) := by
  intro depth body rest hdepth hwritten _
  obtain ⟨gap, _, _, rfl, separators, ⟨⟩, others⟩ := hwritten.uncons
  obtain ⟨body, closing, rfl, hinner, hclosing, -⟩ := others.cut
  obtain ⟨gap', _, _, rfl, separators', ⟨⟩, ⟨⟩⟩ := hclosing.uncons
  obtain ⟨depth, rfl⟩ : ∃ d, depth = d + 1 :=
    Nat.exists_eq_add_one_of_ne_zero (Nat.ne_of_gt (Nat.lt_of_lt_of_le (Nat.succ_pos _) hdepth))
  obtain ⟨hend, hop⟩ := @follows_mark gap' rest ')' separators' rfl rfl rfl rfl inner.tokens
  have hreturns := ih.returns (Nat.le_of_succ_le_succ hdepth) hinner hend hop
  have hfactor : Returns (factor (grouped (depth + 1)))
      (gap ++ '(' :: (body ++ (gap' ++ ')' :: rest)))
      (.group inner) rest := factor_opening separators separators' hreturns
  simpa using hfactor

theorem readBack_factor {f : Expr String .factor} (ih : ReadBack f) : ReadBack (.factor f) := by
  intro depth body rest hdepth hwritten hend
  obtain ⟨shorter, hfactor⟩ := ih hdepth hwritten hend
  refine ⟨shorter, ?_⟩
  unfold term
  rw [hfactor]
  rfl

/-- In front of an operator no word goes on. -/
theorem endBefore_operator {gap rest : List Char} {c : Char} (hgap : IsGap gap)
    (hc : isWordChar c = false) (tokens : List Token) : EndBefore tokens (gap ++ c :: rest) :=
  endBefore_of_stopsRun (stopsRun_gap_append hgap (by simpa using hc)) tokens

theorem readBack_product {t : Expr String .term} {op : Operator} {f : Expr String .factor}
    (iht : ReadBack t) (ihf : ReadBack f) : ReadBack (.product t op f) := by
  intro depth body rest hdepth hwritten hend
  obtain ⟨before, behind, rfl, ht, hbehind, -⟩ := hwritten.cut
  obtain ⟨gap, word, last, rfl, separators, spelled, hf⟩ := hbehind.uncons
  obtain ⟨c, rfl, hsep, hword, hop⟩ := spelled.multiplicative
  have hendf : EndBefore f.tokens rest :=
    (endBefore_cons f.tokens_ne_nil).mp ((endBefore_append (List.cons_ne_nil _ _)).mp hend)
  have hreturns := ihf ((le_max_right _ _).trans hdepth) hf hendf
  obtain ⟨shorter, hchain⟩ := iht ((le_max_left _ _).trans hdepth) ht
    (endBefore_operator separators hword t.tokens)
  obtain ⟨shorter', hround⟩ := chain_round separators hsep hop hreturns
  have htext : before ++ (gap ++ ([c] ++ last)) ++ rest =
      before ++ (gap ++ c :: (last ++ rest)) := by
    simp
  rw [htext]
  exact ⟨shorter', hchain.trans (congrArg _ hround)⟩

/-- A term that nothing prolongs is read to its end. -/
theorem ReadBack.returns_term {t : Expr String .term} (h : ReadBack t) {depth : Nat}
    {body rest : List Char} (hdepth : t.depth ≤ depth) (hwritten : Written t.tokens body)
    (hend : EndBefore t.tokens rest)
    (hop : ∀ c ∈ (skipSeparators rest).head?, Operator.multiplicative? c = none) :
    Returns (term (factor (grouped depth))) (body ++ rest) t rest := by
  obtain ⟨shorter, hchain⟩ := h hdepth hwritten hend
  refine ⟨shorter, ?_⟩
  rw [hchain, chain_of_no_operator hop]
  rfl

theorem readBack_term {t : Expr String .term} (ih : ReadBack t) : ReadBack (.term t) := by
  intro depth body rest hdepth hwritten hend hop
  obtain ⟨shorter, hterm⟩ := ih.returns_term hdepth hwritten hend hop
  refine ⟨shorter, ?_⟩
  rw [expression_eq]
  unfold expressionOf
  rw [hterm]
  rfl

theorem readBack_sum {e : Expr String .expression} {op : Operator} {t : Expr String .term}
    (ihe : ReadBack e) (iht : ReadBack t) : ReadBack (.sum e op t) := by
  intro depth body rest hdepth hwritten hend hop
  obtain ⟨before, behind, rfl, he, hbehind, -⟩ := hwritten.cut
  obtain ⟨gap, word, last, rfl, separators, spelled, ht⟩ := hbehind.uncons
  obtain ⟨c, rfl, hsep, hword, hadditive, hmultiplicative⟩ := spelled.additive
  have hendt : EndBefore t.tokens rest :=
    (endBefore_cons t.tokens_ne_nil).mp ((endBefore_append (List.cons_ne_nil _ _)).mp hend)
  have hreturns := iht.returns_term ((le_max_right _ _).trans hdepth) ht hendt hop
  have hnext : ∀ d ∈ (skipSeparators (gap ++ c :: (last ++ rest))).head?,
      Operator.multiplicative? d = none := by
    intro d hd
    rw [skipSeparators_gap_append separators (by simpa using hsep)] at hd
    obtain rfl : c = d := by simpa using hd
    exact hmultiplicative
  obtain ⟨shorter, hchain⟩ := ihe ((le_max_left _ _).trans hdepth) he
    (endBefore_operator separators hword e.tokens) hnext
  obtain ⟨shorter', hround⟩ := chain_round separators hsep hadditive hreturns
  have htext : before ++ (gap ++ ([c] ++ last)) ++ rest =
      before ++ (gap ++ c :: (last ++ rest)) := by
    simp
  rw [htext]
  exact ⟨shorter', hchain.trans (congrArg _ hround)⟩

theorem readBack {level : Level} (e : Expr String level) : ReadBack e := by
  induction e with
  | ref name => exact readBack_ref name
  | literal value => exact readBack_literal value
  | group inner ih => exact readBack_group ih
  | factor f ih => exact readBack_factor ih
  | product t op f iht ihf => exact readBack_product iht ihf
  | term t ih => exact readBack_term ih
  | sum e op t ihe iht => exact readBack_sum ihe iht

/-- An expression that nothing prolongs is read as it is written. -/
theorem expression_complete {e : Expr String .expression} {depth : Nat} {body rest : List Char}
    (hdepth : e.depth ≤ depth) (hwritten : Written e.tokens body)
    (hend : EndBefore e.tokens rest) (hop : NoOperator rest) :
    Returns (expression depth) (body ++ rest) e rest :=
  ReadBack.returns (readBack e) hdepth hwritten hend hop

/-! ## Statements -/

/-- A name behind a mark is read as the name is. -/
theorem markedName?_of_name? {mark : Char} {token : Token} {target : String} {body : List Char}
    (hmark : isSeparator mark = false) (hword : ∀ {word}, token.Word word → word = [mark])
    (hwritten : Written [token, .name target] body) :
    ∃ name, Written [.name target] name ∧ ∀ {rest} {found : Parsed String (name ++ rest)},
      name? (name ++ rest) = some found →
        ∃ shorter, markedName? mark (body ++ rest) = some ⟨found.value, found.rest, shorter⟩ := by
  rcases hwritten.uncons with ⟨gap, word, name, rfl, separators, spelled, hname⟩
  rcases hword spelled with rfl
  refine ⟨name, hname, ?_⟩
  intro rest found hfound
  rcases @mark?_complete mark gap (name ++ rest) separators hmark with ⟨shorter, hopening⟩
  have htext : gap ++ ([mark] ++ name) ++ rest = gap ++ mark :: (name ++ rest) := by simp
  rw [htext]
  refine ⟨Nat.lt_trans found.shorter shorter, ?_⟩
  unfold markedName?
  rw [hopening]
  simp only [hfound]
  rfl

theorem markedName?_complete {mark : Char} {token : Token} {target : String}
    {body rest : List Char} (hmark : isSeparator mark = false)
    (hword : ∀ {word}, token.Word word → word = [mark])
    (hwritten : Written [token, .name target] body) (hend : StopsRun Char.isAlpha rest) :
    ∃ shorter, markedName? mark (body ++ rest) = some ⟨target, rest, shorter⟩ := by
  rcases markedName?_of_name? hmark hword hwritten with ⟨name, hname, hmarked⟩
  rcases hname.uncons with ⟨gap, letters, _, rfl, separators, ⟨given, alphabetic⟩, ⟨⟩⟩
  have hcomplete := name?_complete separators given alphabetic hend
  have htext : gap ++ (letters ++ rest) = gap ++ (letters ++ []) ++ rest := by simp
  rw [htext] at hcomplete
  rcases hcomplete with ⟨shorter, hname⟩
  exact hmarked hname

theorem statement_complete_declaration {target : String} {depth : Nat} {body rest : List Char}
    (hwritten : Written (Statement.declaration target).tokens body)
    (hend : EndBefore (Statement.declaration target).tokens rest) :
    Returns (statement depth) (body ++ rest) (.declaration target) rest := by
  obtain ⟨shorter, hmarked⟩ := @markedName?_complete '@' .declare target body rest rfl
    (fun hword => by cases hword; rfl) hwritten (hend _ rfl)
  refine ⟨shorter, ?_⟩
  unfold statement
  rw [hmarked]
  rfl

theorem statement_complete_input {target : String} {depth : Nat} {body rest : List Char}
    (hwritten : Written (Statement.input target).tokens body)
    (hend : EndBefore (Statement.input target).tokens rest) :
    Returns (statement depth) (body ++ rest) (.input target) rest := by
  have hdeclare : mark? '@' (body ++ rest) = none :=
    mark?_eq_none_of_written hwritten (fun hword => by cases hword; decide) rest
  obtain ⟨shorter, hmarked⟩ := @markedName?_complete '>' .read target body rest rfl
    (fun hword => by cases hword; rfl) hwritten (hend _ rfl)
  refine ⟨shorter, ?_⟩
  unfold statement
  rw [markedName?_eq_none hdeclare, hmarked]
  rfl

/-- A statement ends where its expression does. -/
theorem statement_complete_value {make : Expr String .expression → Statement String}
    {front : List Token} {value : Expr String .expression} {depth : Nat} {body rest : List Char}
    (hposition : ∀ {body}, Written front body → ∀ rest, ValueAt (body ++ rest) make rest)
    (hdepth : value.depth ≤ depth) (hwritten : Written (front ++ value.tokens) body)
    (hend : EndBefore (front ++ value.tokens) rest) (hop : NoOperator rest) :
    Returns (statement depth) (body ++ rest) (make value) rest := by
  obtain ⟨before, behind, rfl, hfront, hvalue, -⟩ := hwritten.cut
  rw [endBefore_append value.tokens_ne_nil] at hend
  rw [List.append_assoc]
  exact (hposition hfront _).returns (expression_complete hdepth hvalue hend hop)

/-- A statement that nothing prolongs is read as it is written. -/
theorem statement_complete {s : Statement String} {depth : Nat} {body rest : List Char}
    (hdepth : s.depth ≤ depth) (hwritten : Written s.tokens body)
    (hend : EndBefore s.tokens rest) (hop : NoOperator rest) :
    Returns (statement depth) (body ++ rest) s rest := by
  cases s with
  | declaration target => exact statement_complete_declaration hwritten hend
  | input target => exact statement_complete_input hwritten hend
  | output value =>
      exact @statement_complete_value .output [.print] value _ _ _ valueAt_output hdepth hwritten
        hend hop
  | assignment target value =>
      exact @statement_complete_value (.assignment target) [.name target, .assign] value _ _ _
        valueAt_assignment hdepth hwritten hend hop

/-- A further statement ends the one before it, and so does what ends the program. -/
theorem follows_statement {first : Statement String} {program : Program String}
    {behind rest : List Char} (hothers : Written program.tokens behind)
    (meet : EndsWithName first.tokens → StartsWithName program.tokens → StartsWithGap behind)
    (hend : EndBefore (Program.tokens (first :: program)) rest) (hop : NoOperator rest) :
    EndBefore first.tokens (behind ++ rest) ∧ NoOperator (behind ++ rest) := by
  cases program with
  | nil =>
      obtain rfl := written_nil_iff.mp hothers
      exact ⟨by simpa [Program.tokens] using hend, hop⟩
  | cons second program => exact Statement.follows hothers meet rest

/-- The statements of a program that nothing prolongs are read as they are written,
and reading goes on behind them. -/
theorem statements_complete {program : Program String} {depth : Nat} {body rest : List Char}
    (hdepth : ∀ s ∈ program, s.depth ≤ depth) (hwritten : Written program.tokens body)
    (hend : EndBefore program.tokens rest) (hop : NoOperator rest) :
    statements depth (body ++ rest) =
      (statements depth rest).map fun (others, left) => (program ++ others, left) := by
  induction program generalizing body with
  | nil =>
      obtain rfl := written_nil_iff.mp hwritten
      rw [List.nil_append]
      cases statements depth rest <;> rfl
  | cons first program ih =>
      obtain ⟨before, behind, rfl, hfirst, hothers, meet⟩ := hwritten.cut
      obtain ⟨hdepthf, hdepths⟩ := List.forall_mem_cons.mp hdepth
      obtain ⟨hendf, hopf⟩ := follows_statement hothers meet hend hop
      obtain ⟨shorter, hstatement⟩ := statement_complete hdepthf hfirst hendf hopf
      have hendp : EndBefore (Program.tokens program) rest := by
        by_cases hnil : Program.tokens program = []
        · simp [EndBefore, hnil]
        · exact (endBefore_append hnil).mp hend
      have hstatements := ih hdepths hothers hendp
      rw [List.append_assoc, statements, hstatement]
      simp only [hstatements]
      cases statements depth rest <;> rfl

end Parser

end Calc
