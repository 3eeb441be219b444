/-
# What is read is written in the text

Whatever the readers of expressions, statements and programs return is spelled by
the part of the text that they take: its tokens stand there in their order, with
separators between two names, and no more parentheses are open at once than the
reader allows. A chain is read in rounds, and one round keeps this property of
what was read so far; a whole chain has it by induction on the rounds.
-/

import Calc.Proofs.Parser.Tokens

namespace Calc

open Text

namespace Parser

/-- How a reader of parentheses is made from the number of parentheses that may
still be opened. -/
def grouped : Nat → Parser (Expr String .expression)
  | 0 => fun _ => .error .tooDeep
  | depth + 1 => expression depth

theorem expression_eq (depth : Nat) :
    expression depth =
      expressionOf (term (factor (grouped depth))) := by
  cases depth <;> rfl

/-- The reader of a chain: an operand, and as many more as follow behind operators. -/
def linked {α β : Type} (operator? : Char → Option Operator) (operand : Parser β) (single : β → α)
    (join : α → Operator → β → α) : Parser α := fun text =>
  match operand text with
  | .error e => .error e
  | .ok none => .ok none
  | .ok (some first) => (chain operator? operand join (first.map single)).map some

theorem term_eq_linked (reader : Parser (Expr String .factor)) :
    term reader = linked Operator.multiplicative? reader .factor .product := by
  funext text
  rw [term, linked]
  rcases reader text with e | (_ | first) <;> rfl

theorem expressionOf_eq_linked (reader : Parser (Expr String .term)) :
    expressionOf reader = linked Operator.additive? reader .term .sum := by
  funext text
  rw [expressionOf, linked]
  rcases reader text with e | (_ | first) <;> rfl

theorem exists_of_map_eq_ok {ε α β : Type} {f : α → β} {x : Except ε α} {b : β}
    (h : x.map f = .ok b) : ∃ a, x = .ok a ∧ b = f a := by
  cases x with
  | error e => cases h
  | ok a =>
      cases h
      exact ⟨a, rfl, rfl⟩

theorem eq_error_of_map {ε α β : Type} {f : α → β} {x : Except ε α} {e : ε}
    (h : x.map f = .error e) : x = .error e := by
  cases x with
  | error e' =>
      cases h
      rfl
  | ok a => cases h

/-- Everything that the reader returns is spelled by what it takes from the text,
and is nested less deeply than `bound`. -/
def Sound {level : Level} (bound : Nat) (reader : Parser (Expr String level)) : Prop :=
  ∀ ⦃text : List Char⦄ ⦃p : Parsed (Expr String level) text⦄, reader text = .ok (some p) →
    Reads p.value.tokens text p.rest ∧ p.value.depth < bound

/-- What each round of a chain keeps holds of the whole chain. -/
theorem chain_induction {α β : Type} {text : List Char}
    {operator? : Char → Option Operator} {operand : Parser β} {join : α → Operator → β → α}
    {start final : Parsed α text} {motive : α → List Char → Prop}
    (h : chain operator? operand join start = .ok final)
    (base : motive start.value start.rest)
    (round : ∀ {a : α} {rest : List Char} {op : Parsed Operator rest}
      {right : Parsed β op.rest}, motive a rest → character? operator? rest = some op →
      operand op.rest = .ok (some right) → motive (join a op.value right.value) right.rest) :
    motive final.value final.rest := by
  fun_induction chain operator? operand join start with
  | case1 start hop =>
      obtain rfl := Except.ok.inj h
      exact base
  | case2 start op hop e hoperand => cases h
  | case3 start op hop hoperand =>
      obtain rfl := Except.ok.inj h
      exact base
  | case4 start op hop right hoperand ih => exact ih h (round base hop hoperand)

end Parser

namespace Operator

theorem word_of_additive? {c : Char} {op : Operator} (h : additive? c = some op) :
    (Token.additive op).Word [c] := by
  unfold additive? at h
  split at h
  · obtain rfl := Option.some.inj h
    exact .plus
  · obtain rfl := Option.some.inj h
    exact .minus
  · cases h

theorem word_of_multiplicative? {c : Char} {op : Operator} (h : multiplicative? c = some op) :
    (Token.multiplicative op).Word [c] := by
  unfold multiplicative? at h
  split at h
  · obtain rfl := Option.some.inj h
    exact .times
  · obtain rfl := Option.some.inj h
    exact .over
  · cases h

end Operator

namespace Parser

variable {bound : Nat}

theorem factor_sound {inside : Parser (Expr String .expression)} (hinside : Sound bound inside) :
    Sound (bound + 1) (factor inside) := by
  intro text p h
  unfold factor at h
  split at h
  case h_1 name hname =>
    obtain rfl := Option.some.inj (Except.ok.inj h)
    exact ⟨name?_reads hname, Nat.succ_pos bound⟩
  case h_2 hname =>
    split at h
    case h_1 number hnumber =>
      obtain rfl := Option.some.inj (Except.ok.inj h)
      exact ⟨number?_reads hnumber, Nat.succ_pos bound⟩
    case h_2 =>
      split at h
      case h_1 => cases h
      case h_2 opening hopening =>
        split at h
        case h_1 => cases h
        case h_2 => cases h
        case h_3 inner hinner =>
          split at h
          case h_1 => cases h
          case h_2 closing hclosing =>
            obtain rfl := Option.some.inj (Except.ok.inj h)
            obtain ⟨hreads, hdepth⟩ := hinside hinner
            have hopen := mark?_reads .opening (fun hname => hname) hopening
            have hclose := mark?_reads .closing (fun hname => hname) hclosing
            exact ⟨hopen.append (hreads.append hclose), Nat.succ_lt_succ hdepth⟩

/-- A round of a chain writes an operator and an operand behind what was read so
far, so the whole chain is written if its start is. -/
theorem chain_sound {upper lower : Level} {operator? : Char → Option Operator}
    {operand : Parser (Expr String lower)}
    {join : Expr String upper → Operator → Expr String lower → Expr String upper}
    (tokenOf : Operator → Token) (hoperand : Sound bound operand)
    (hword : ∀ {c op}, operator? c = some op → (tokenOf op).Word [c])
    (hname : ∀ op, ¬ (tokenOf op).IsName)
    (htokens : ∀ a op b, (join a op b).tokens = a.tokens ++ tokenOf op :: b.tokens)
    (hdepth : ∀ a op b, (join a op b).depth = max a.depth b.depth)
    {text : List Char} {start final : Parsed (Expr String upper) text}
    (hstart : Reads start.value.tokens text start.rest ∧ start.value.depth < bound)
    (h : chain operator? operand join start = .ok final) :
    Reads final.value.tokens text final.rest ∧ final.value.depth < bound := by
  refine chain_induction (motive := fun e rest => Reads e.tokens text rest ∧ e.depth < bound)
    h hstart fun {a rest op right} ⟨hreads, hless⟩ hop hright => ?_
  obtain ⟨gap, c, hgap, htext, hc⟩ := character?_sound hop
  obtain ⟨hright, hless'⟩ := hoperand hright
  have hoperator : Reads [tokenOf op.value] rest op.rest :=
    .single htext hgap (hword hc) fun hn => (hname _ hn).elim
  rw [htokens, hdepth]
  exact ⟨hreads.append (hoperator.append hright), max_lt hless hless'⟩

/-- A chain is written if its operands are. -/
theorem linked_sound {upper lower : Level} {operator? : Char → Option Operator}
    {operand : Parser (Expr String lower)} {single : Expr String lower → Expr String upper}
    {join : Expr String upper → Operator → Expr String lower → Expr String upper}
    (tokenOf : Operator → Token) (hoperand : Sound bound operand)
    (hword : ∀ {c op}, operator? c = some op → (tokenOf op).Word [c])
    (hname : ∀ op, ¬ (tokenOf op).IsName)
    (hsingle : ∀ b, (single b).tokens = b.tokens ∧ (single b).depth = b.depth)
    (htokens : ∀ a op b, (join a op b).tokens = a.tokens ++ tokenOf op :: b.tokens)
    (hdepth : ∀ a op b, (join a op b).depth = max a.depth b.depth) :
    Sound bound (linked operator? operand single join) := by
  intro text p h
  unfold linked at h
  split at h
  case h_1 => cases h
  case h_2 => cases h
  case h_3 first hfirst =>
    rcases exists_of_map_eq_ok h with ⟨final, hchain, hfinal⟩
    cases hfinal
    refine chain_sound tokenOf hoperand hword hname htokens hdepth ?_ hchain
    rcases hoperand hfirst with ⟨hreads, hless⟩
    show Reads (single first.value).tokens text first.rest ∧ (single first.value).depth < bound
    rw [(hsingle first.value).1, (hsingle first.value).2]
    exact ⟨hreads, hless⟩

theorem term_sound {reader : Parser (Expr String .factor)} (hreader : Sound bound reader) :
    Sound bound (term reader) := by
  rw [term_eq_linked]
  exact linked_sound .multiplicative hreader Operator.word_of_multiplicative?
    (fun _ hname => hname) (fun _ => ⟨rfl, rfl⟩) (fun _ _ _ => rfl) (fun _ _ _ => rfl)

theorem expressionOf_sound {reader : Parser (Expr String .term)} (hreader : Sound bound reader) :
    Sound bound (expressionOf reader) := by
  rw [expressionOf_eq_linked]
  exact linked_sound .additive hreader Operator.word_of_additive?
    (fun _ hname => hname) (fun _ => ⟨rfl, rfl⟩) (fun _ _ _ => rfl) (fun _ _ _ => rfl)

theorem grouped_sound (depth : Nat) : Sound depth (grouped depth) := by
  induction depth with
  | zero =>
      -- No parenthesis can be read, since the reader of its inside never returns.
      intro _ _ h
      cases h
  | succ depth ih =>
      rw [grouped, expression_eq]
      exact expressionOf_sound (term_sound (factor_sound ih))

theorem expression_sound (depth : Nat) : Sound (depth + 1) (expression depth) :=
  grouped_sound (depth + 1)

/-! ## Statements -/

theorem markedName?_reads {mark : Char} {token : Token} (hword : token.Word [mark])
    (hname : ¬ token.IsName) {text : List Char} {p : Parsed String text}
    (h : markedName? mark text = some p) : Reads [token, .name p.value] text p.rest := by
  unfold markedName? at h
  split at h
  case h_1 => cases h
  case h_2 opening hopening =>
    obtain ⟨name, hname', rfl⟩ := Option.map_eq_some_iff.mp h
    exact (mark?_reads hword hname hopening).append (name?_reads hname')

theorem statement_sound {depth : Nat} {text : List Char} {p : Parsed (Statement String) text}
    (h : statement depth text = .ok (some p)) :
    Reads p.value.tokens text p.rest ∧ p.value.depth ≤ depth := by
  unfold statement at h
  split at h
  case h_1 name hname =>
    obtain rfl := Option.some.inj (Except.ok.inj h)
    exact ⟨markedName?_reads .declare (fun hname => hname) hname, Nat.zero_le depth⟩
  case h_2 =>
  split at h
  case h_1 name hname =>
    obtain rfl := Option.some.inj (Except.ok.inj h)
    exact ⟨markedName?_reads .read (fun hname => hname) hname, Nat.zero_le depth⟩
  case h_2 =>
  split at h
  case h_1 opening hopening =>
    split at h
    case h_1 => cases h
    case h_2 => cases h
    case h_3 value hvalue =>
      obtain rfl := Option.some.inj (Except.ok.inj h)
      obtain ⟨hreads, hdepth⟩ := expression_sound depth hvalue
      have hopen := mark?_reads .print (fun hname => hname) hopening
      exact ⟨hopen.append hreads, Nat.le_of_lt_succ hdepth⟩
  case h_2 =>
  split at h
  case h_1 => cases h
  case h_2 target htarget =>
  split at h
  case h_1 => cases h
  case h_2 assign hassign =>
  split at h
  case h_1 => cases h
  case h_2 => cases h
  case h_3 value hvalue =>
    obtain rfl := Option.some.inj (Except.ok.inj h)
    obtain ⟨hreads, hdepth⟩ := expression_sound depth hvalue
    have hfront := (name?_reads htarget).append (assign?_reads hassign)
    exact ⟨hfront.append hreads, Nat.le_of_lt_succ hdepth⟩

/-- The statements that are read stand in the text in front of what is left. -/
theorem statements_sound {depth : Nat} {text rest : List Char} {program : Program String}
    (h : statements depth text = .ok (program, rest)) :
    Reads program.tokens text rest ∧ ∀ s ∈ program, s.depth ≤ depth := by
  fun_induction statements depth text generalizing program rest with
  | case1 text e hstatement => cases h
  | case2 text hstatement =>
      obtain ⟨rfl, rfl⟩ := Prod.mk.inj (Except.ok.inj h)
      exact ⟨.refl text, by simp⟩
  | case3 text first hfirst e hothers => cases h
  | case4 text first hfirst others rest' hothers ih =>
      obtain ⟨rfl, rfl⟩ := Prod.mk.inj (Except.ok.inj h)
      obtain ⟨hreads, hdepth⟩ := statement_sound hfirst
      obtain ⟨hreads', hdepths⟩ := ih hothers
      exact ⟨hreads.append hreads', List.forall_mem_cons.mpr ⟨hdepth, hdepths⟩⟩

end Parser

end Calc
