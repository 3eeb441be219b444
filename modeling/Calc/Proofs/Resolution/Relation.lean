/-
# What resolving means

Resolving is stated as a relation between a program text, the resolved program
and the tables before and after, one case for every kind of syntax. Resolving
succeeds exactly with the results that the relation allows, so that a proof about
resolved programs is an induction over the relation and never opens the traversal.
-/

import Calc.Proofs.SymbolTable.Coherence
import Calc.Resolution

namespace Calc

/-- The second expression has the slot of a variable wherever the first one has
its name, and is the same otherwise. -/
inductive Expr.Resolves (table : SymbolTable) :
    {level : Level} → Expr String level → Expr Int level → Prop
  | ref {name : String} {slot : Nat} (found : table.slots[name]? = some slot) :
      Resolves table (.ref name) (.ref slot)
  | literal {value : Float} : Resolves table (.literal value) (.literal value)
  | group {inner : Expr String .expression} {inner' : Expr Int .expression}
      (inside : Resolves table inner inner') : Resolves table (.group inner) (.group inner')
  | factor {f : Expr String .factor} {f' : Expr Int .factor}
      (single : Resolves table f f') : Resolves table (.factor f) (.factor f')
  | product {t : Expr String .term} {t' : Expr Int .term} {op : Operator}
      {f : Expr String .factor} {f' : Expr Int .factor}
      (left : Resolves table t t') (right : Resolves table f f') :
      Resolves table (.product t op f) (.product t' op f')
  | term {t : Expr String .term} {t' : Expr Int .term}
      (single : Resolves table t t') : Resolves table (.term t) (.term t')
  | sum {e : Expr String .expression} {e' : Expr Int .expression} {op : Operator}
      {t : Expr String .term} {t' : Expr Int .term}
      (left : Resolves table e e') (right : Resolves table t t') :
      Resolves table (.sum e op t) (.sum e' op t')

/-- A statement becomes another one, and the table becomes the one behind it. -/
inductive Statement.Resolves (table : SymbolTable) :
    Statement String → Statement Int → SymbolTable → Prop
  | declaration {name : String} (new : table.contains name = false) :
      Resolves table (.declaration name) (.declaration table.size) (table.push name)
  | input {name : String} {slot : Nat} (found : table.slots[name]? = some slot) :
      Resolves table (.input name) (.input slot) table
  | output {e : Expr String .expression} {e' : Expr Int .expression}
      (value : e.Resolves table e') : Resolves table (.output e) (.output e') table
  | assignment {name : String} {slot : Nat} {e : Expr String .expression}
      {e' : Expr Int .expression} (found : table.slots[name]? = some slot)
      (value : e.Resolves table e') :
      Resolves table (.assignment name e) (.assignment slot e') table

/-- All statements of a program become others, each with the table that the ones
before it left. -/
inductive Program.Resolves :
    SymbolTable → Program String → Program Int → SymbolTable → Prop
  | nil {table : SymbolTable} : Resolves table [] [] table
  | cons {table middle final : SymbolTable} {statement : Statement String}
      {statement' : Statement Int} {rest : Program String} {rest' : Program Int}
      (first : statement.Resolves table statement' middle)
      (others : Resolves middle rest rest' final) :
      Resolves table (statement :: rest) (statement' :: rest') final

/-! ## Resolving computes the relation -/

section Except

variable {ε α β : Type}

/-- A computation that may fail succeeds if both of its steps do. -/
theorem except_bind_eq_ok_iff {x : Except ε α} {f : α → Except ε β} {b : β} :
    x >>= f = .ok b ↔ ∃ a, x = .ok a ∧ f a = .ok b := by
  cases x <;> simp [bind, Except.bind]

theorem except_pure_eq_ok_iff {a b : α} : (pure a : Except ε α) = .ok b ↔ a = b := by
  simp [pure, Except.pure]

end Except

variable {table extended : SymbolTable}

/-- The slot of a name as the reference of a resolved program. -/
theorem SymbolTable.map_slotOf_eq_ok_iff {name : String} {slot : Int} :
    (table.slotOf name).map Int.ofNat = .ok slot ↔
      ∃ n : Nat, table.slots[name]? = some n ∧ (n : Int) = slot := by
  rw [slotOf]
  cases table.slots[name]? <;> simp [Except.map]

theorem Expr.traverse_slotOf_eq_ok_iff {level : Level} {e : Expr String level}
    {e' : Expr Int level} :
    e.traverse (fun name => (table.slotOf name).map Int.ofNat) = .ok e' ↔ e.Resolves table e' := by
  constructor
  · intro h
    induction e with
    | ref name =>
        simp only [traverse, except_bind_eq_ok_iff, except_pure_eq_ok_iff,
          SymbolTable.map_slotOf_eq_ok_iff] at h
        obtain ⟨_, ⟨slot, found, rfl⟩, rfl⟩ := h
        exact .ref found
    | literal value =>
        simp only [traverse, except_pure_eq_ok_iff] at h
        subst h
        exact .literal
    | group inner ih =>
        simp only [traverse, except_bind_eq_ok_iff, except_pure_eq_ok_iff] at h
        obtain ⟨_, inside, rfl⟩ := h
        exact .group (ih inside)
    | factor f ih =>
        simp only [traverse, except_bind_eq_ok_iff, except_pure_eq_ok_iff] at h
        obtain ⟨_, single, rfl⟩ := h
        exact .factor (ih single)
    | product t op f iht ihf =>
        simp only [traverse, except_bind_eq_ok_iff, except_pure_eq_ok_iff] at h
        obtain ⟨_, left, _, right, rfl⟩ := h
        exact .product (iht left) (ihf right)
    | term t ih =>
        simp only [traverse, except_bind_eq_ok_iff, except_pure_eq_ok_iff] at h
        obtain ⟨_, single, rfl⟩ := h
        exact .term (ih single)
    | sum e op t ihe iht =>
        simp only [traverse, except_bind_eq_ok_iff, except_pure_eq_ok_iff] at h
        obtain ⟨_, left, _, right, rfl⟩ := h
        exact .sum (ihe left) (iht right)
  · intro h
    induction h with
    | ref found => simp [traverse, SymbolTable.slotOf, found, Except.map, bind, Except.bind,
        pure, Except.pure]
    | literal => rfl
    | group _ ih => rw [traverse, ih]; rfl
    | factor _ ih => rw [traverse, ih]; rfl
    | product _ _ ihleft ihright => rw [traverse, ihleft, ihright]; rfl
    | term _ ih => rw [traverse, ih]; rfl
    | sum _ _ ihleft ihright => rw [traverse, ihleft, ihright]; rfl

theorem Statement.resolve_eq_ok_iff {statement : Statement String} {statement' : Statement Int} :
    statement.resolve table = .ok (statement', extended) ↔
      statement.Resolves table statement' extended := by
  constructor
  · intro h
    cases statement with
    | declaration name =>
        rw [resolve, resolveWith, except_bind_eq_ok_iff] at h
        obtain ⟨_, hdeclare, hpair⟩ := h
        rw [SymbolTable.declare_eq] at hdeclare
        split at hdeclare
        case isTrue => cases hdeclare
        case isFalse hnew =>
          cases hdeclare
          cases hpair
          exact .declaration (Bool.not_eq_true _ ▸ hnew)
    | input name =>
        rw [resolve, resolveWith, except_bind_eq_ok_iff] at h
        obtain ⟨slot, found, hpair⟩ := h
        cases hpair
        exact .input (SymbolTable.slotOf_eq_ok_iff.mp found)
    | output e =>
        rw [resolve, resolveWith, except_bind_eq_ok_iff] at h
        obtain ⟨e', value, hpair⟩ := h
        cases hpair
        exact .output (Expr.traverse_slotOf_eq_ok_iff.mp value)
    | assignment name e =>
        rw [resolve, resolveWith, except_bind_eq_ok_iff] at h
        obtain ⟨slot, found, hrest⟩ := h
        rw [except_bind_eq_ok_iff] at hrest
        obtain ⟨e', value, hpair⟩ := hrest
        cases hpair
        exact .assignment (SymbolTable.slotOf_eq_ok_iff.mp found)
          (Expr.traverse_slotOf_eq_ok_iff.mp value)
  · intro h
    cases h with
    | declaration new =>
        rw [resolve, resolveWith, SymbolTable.declare_eq, new]
        rfl
    | input found =>
        rw [resolve, resolveWith, SymbolTable.slotOf_eq_ok_iff.mpr found]
        rfl
    | output value =>
        rw [resolve, resolveWith, Expr.traverse_slotOf_eq_ok_iff.mpr value]
        rfl
    | assignment found value =>
        rw [resolve, resolveWith, SymbolTable.slotOf_eq_ok_iff.mpr found]
        change (Expr.traverse _ _ >>= _) = _
        rw [Expr.traverse_slotOf_eq_ok_iff.mpr value]
        rfl

namespace Program

theorem resolve_cons_error {statement : Statement String} {rest : Program String} {e : NameError}
    (h : statement.resolve table = .error e) :
    Program.resolve table (statement :: rest) = ⟨[], table, some e⟩ := by
  rw [resolve, resolveAll, h]

theorem resolve_cons_ok {statement : Statement String} {statement' : Statement Int}
    {rest : Program String} (h : statement.resolve table = .ok (statement', extended)) :
    Program.resolve table (statement :: rest) =
      { Program.resolve extended rest with
        resolved := statement' :: (Program.resolve extended rest).resolved } := by
  rw [resolve, resolveAll, h]
  rfl

/-- Resolving a program succeeds exactly if its statements can be resolved one
after another. -/
theorem resolve_eq_iff {program : Program String} {program' : Program Int} :
    Program.resolve table program = ⟨program', extended, none⟩ ↔
      Resolves table program program' extended := by
  constructor
  · intro h
    induction program generalizing table program' with
    | nil =>
        cases h
        exact .nil
    | cons statement rest ih =>
        cases hstep : statement.resolve table with
        | error e =>
            rw [resolve_cons_error hstep] at h
            cases h
        | ok result =>
            obtain ⟨statement', middle⟩ := result
            rw [resolve_cons_ok hstep, Resolution.mk.injEq] at h
            obtain ⟨rfl, rfl, hnone⟩ := h
            refine .cons (Statement.resolve_eq_ok_iff.mp hstep) (ih ?_)
            rw [← hnone]
  · intro h
    induction h with
    | nil => rfl
    | cons first _ ih =>
        rw [resolve_cons_ok (Statement.resolve_eq_ok_iff.mpr first), ih]

theorem resolves_of_error_eq_none {program : Program String}
    (h : (Program.resolve table program).error = none) :
    Resolves table program (Program.resolve table program).resolved
      (Program.resolve table program).table := by
  rw [← resolve_eq_iff, ← h]

end Program

end Calc
