/-
# Other references, other errors, other tables

How a program is resolved and carried out is written once, for any kind of references and
errors: what a reference is, which slot or value it has and why it may have none, is left
to a few functions. If the references, the errors and the tables are replaced by others,
and these functions do on the others what they did before, then so does the whole: an
expression, a statement and a program give the same result, with the replacements made in
it.
-/

import Calc.Execution
import Calc.Resolution

namespace Calc

/-! ## Changing nothing -/

section Unchanged

variable {ρ ε α β : Type}

theorem except_map_id (x : Except ε α) : x.map id = x :=
  congrFun Except.map_id x

theorem except_map_prod_id (x : Except ε (α × β)) : x.map (Prod.map id id) = x := by
  rw [Prod.map_id, except_map_id]

theorem except_mapError_id (x : Except ε α) : x.mapError id = x := by
  cases x <;> rfl

theorem Expr.map_id {level : Level} (e : Expr ρ level) : e.map id = e := by
  induction e with
  | ref r => rfl
  | literal value => rfl
  | group inner ih => rw [map, ih]
  | factor f ih => rw [map, ih]
  | product t op f iht ihf => rw [map, iht, ihf]
  | term t ih => rw [map, ih]
  | sum e op t ihe iht => rw [map, ihe, iht]

theorem Statement.map_id (statement : Statement ρ) : statement.map id = statement := by
  cases statement with
  | declaration target => rfl
  | input target => rfl
  | output e => rw [map, e.map_id]
  | assignment target e =>
      rw [map, e.map_id]
      rfl

end Unchanged

/-! ## Expressions -/

namespace Expr

variable {ρ σ τ ε δ : Type} {level : Level}

theorem evaluate_map (g : ρ → σ) (value : σ → Except ε Float)
    (apply : Operator → Float → Float → Except ε Float) (e : Expr ρ level) :
    (e.map g).evaluate value apply = e.evaluate (fun r => value (g r)) apply := by
  induction e with
  | ref r => rfl
  | literal x => rfl
  | group inner ih => exact ih
  | factor f ih => exact ih
  | term t ih => exact ih
  | product t op f iht ihf => rw [map, evaluate, iht, ihf, evaluate]
  | sum e op t ihe iht => rw [map, evaluate, ihe, iht, evaluate]

/-- Renaming the errors of the operands renames the error of the value. -/
theorem evaluate_mapError (rename : ε → δ) (value : ρ → Except ε Float)
    (apply : Operator → Float → Float → Except ε Float) (e : Expr ρ level) :
    e.evaluate (fun r => (value r).mapError rename)
        (fun op x y => (apply op x y).mapError rename) =
      (e.evaluate value apply).mapError rename := by
  induction e with
  | ref r => rfl
  | literal x => rfl
  | group inner ih => exact ih
  | factor f ih => exact ih
  | term t ih => exact ih
  | product t op f iht ihf =>
      rw [evaluate, iht, ihf, evaluate]
      cases t.evaluate value apply <;> cases f.evaluate value apply <;> rfl
  | sum e op t ihe iht =>
      rw [evaluate, ihe, iht, evaluate]
      cases e.evaluate value apply <;> cases t.evaluate value apply <;> rfl

theorem traverse_map (g : ρ → σ) (f : σ → Except ε τ) (e : Expr ρ level) :
    (e.map g).traverse f = e.traverse fun r => f (g r) := by
  induction e with
  | ref r => rfl
  | literal x => rfl
  | group inner ih => rw [map, traverse, ih, traverse]
  | factor f ih => rw [map, traverse, ih, traverse]
  | term t ih => rw [map, traverse, ih, traverse]
  | product t op f iht ihf => rw [map, traverse, iht, ihf, traverse]
  | sum e op t ihe iht => rw [map, traverse, ihe, iht, traverse]

/-- Renaming the errors of the references renames the error of the whole. -/
theorem traverse_mapError (rename : ε → δ) (f : ρ → Except ε τ) (e : Expr ρ level) :
    e.traverse (fun r => (f r).mapError rename) = (e.traverse f).mapError rename := by
  induction e with
  | ref r =>
      rw [traverse, traverse]
      cases f r <;> rfl
  | literal x => rfl
  | group inner ih =>
      rw [traverse, ih, traverse]
      cases inner.traverse f <;> rfl
  | factor g ih =>
      rw [traverse, ih, traverse]
      cases g.traverse f <;> rfl
  | term t ih =>
      rw [traverse, ih, traverse]
      cases t.traverse f <;> rfl
  | product t op g iht ihg =>
      rw [traverse, iht, ihg, traverse]
      cases t.traverse f <;> cases g.traverse f <;> rfl
  | sum e op t ihe iht =>
      rw [traverse, ihe, iht, traverse]
      cases e.traverse f <;> cases t.traverse f <;> rfl

end Expr

variable {ρ σ ε δ : Type} (g : ρ → σ) (rename : ε → δ) (change : SymbolTable → SymbolTable)

/-! ## Resolving -/

section Resolving

variable {declare : SymbolTable → ρ → Except ε (Nat × SymbolTable)}
  {declare' : SymbolTable → σ → Except δ (Nat × SymbolTable)}
  {lookup : SymbolTable → ρ → Except ε Nat} {lookup' : SymbolTable → σ → Except δ Nat}

/-- A statement is resolved to the same statement if its references are declared and looked
up in the same way. -/
theorem Statement.resolveWith_map {table : SymbolTable}
    (hdeclare : ∀ r, declare' (change table) (g r) =
      ((declare table r).map (Prod.map id change)).mapError rename)
    (hlookup : ∀ r, lookup' (change table) (g r) = (lookup table r).mapError rename)
    (statement : Statement ρ) :
    (statement.map g).resolveWith declare' lookup' (change table) =
      ((statement.resolveWith declare lookup table).map (Prod.map id change)).mapError rename := by
  have htraverse (e : Expr ρ .expression) :
      (e.map g).traverse (fun r => (lookup' (change table) r).map Int.ofNat) =
        (e.traverse fun r => (lookup table r).map Int.ofNat).mapError rename := by
    rw [Expr.traverse_map, ← Expr.traverse_mapError]
    congr
    funext r
    rw [hlookup]
    cases lookup table r <;> rfl
  cases statement with
  | declaration target =>
      rw [map, resolveWith, hdeclare, resolveWith]
      cases declare table target <;> rfl
  | input target =>
      rw [map, resolveWith, hlookup, resolveWith]
      cases lookup table target <;> rfl
  | output e =>
      rw [map, resolveWith, htraverse, resolveWith]
      cases e.traverse fun r => (lookup table r).map Int.ofNat <;> rfl
  | assignment target e =>
      simp only [map, resolveWith, hlookup, htraverse]
      cases lookup table target with
      | error fault => rfl
      | ok slot => cases e.traverse fun r => (lookup table r).map Int.ofNat <;> rfl

/-- Statements are resolved to the same ones if each of them is. -/
theorem resolveAll_map {resolve : SymbolTable → ρ → Except ε (Statement Int × SymbolTable)}
    {resolve' : SymbolTable → σ → Except δ (Statement Int × SymbolTable)} {statements : List ρ}
    (hresolve : ∀ s ∈ statements, ∀ table, resolve' (change table) (g s) =
      ((resolve table s).map (Prod.map id change)).mapError rename) (table : SymbolTable) :
    resolveAll resolve' (change table) (statements.map g) =
      { resolved := (resolveAll resolve table statements).resolved
        table := change (resolveAll resolve table statements).table
        error := (resolveAll resolve table statements).error.map rename } := by
  induction statements generalizing table with
  | nil => rfl
  | cons statement rest ih =>
      rw [List.forall_mem_cons] at hresolve
      rw [List.map_cons, resolveAll, resolveAll, hresolve.1]
      cases resolve table statement with
      | error fault => rfl
      | ok result =>
          obtain ⟨first, extended⟩ := result
          have hok : ((Except.ok (first, extended)).map (Prod.map id change)).mapError rename =
              .ok (first, change extended) := rfl
          simp only [hok, ih hresolve.2 extended]

end Resolving

/-! ## Carrying out -/

section CarryingOut

variable {value : SymbolTable → Expr ρ .expression → Except ε Float}
  {value' : SymbolTable → Expr σ .expression → Except δ Float}
  {store : SymbolTable → ρ → Float → Except ε SymbolTable}
  {store' : SymbolTable → σ → Float → Except δ SymbolTable}

/-- A statement is carried out in the same dialogue if expressions have the same values and
values are stored in the same way. -/
theorem Statement.executeWith_map {table : SymbolTable}
    (hvalue : ∀ e, value' (change table) (e.map g) = (value table e).mapError rename)
    (hstore : ∀ r x, store' (change table) (g r) x =
      ((store table r x).map change).mapError rename) (statement : Statement ρ) :
    (statement.map g).executeWith value' store' (change table) = (do
      let outcome ← statement.executeWith value store table
      return (outcome.map change).mapError rename) := by
  cases statement with
  | declaration target => rfl
  | input target => simp only [map, executeWith, hstore, bind_assoc, pure_bind]
  | output e =>
      simp only [map, executeWith, hvalue]
      cases value table e <;> rfl
  | assignment target e =>
      simp only [map, executeWith, hvalue, hstore]
      cases value table e <;> rfl

/-- Statements are carried out in the same dialogue if each of them is. -/
theorem executeAll_map {debug : Bool} {shown : ρ → String} {shown' : σ → String}
    {execute : SymbolTable → ρ → Interaction (Except ε SymbolTable)}
    {execute' : SymbolTable → σ → Interaction (Except δ SymbolTable)} {statements : List ρ}
    (hshown : ∀ s ∈ statements, shown' (g s) = shown s)
    (hexecute : ∀ s ∈ statements, ∀ table, execute' (change table) (g s) = (do
      let outcome ← execute table s
      return (outcome.map change).mapError rename)) (table : SymbolTable) :
    executeAll debug shown' execute' (change table) (statements.map g) = (do
      let (final, fault) ← executeAll debug shown execute table statements
      return (change final, fault.map rename)) := by
  induction statements generalizing table with
  | nil => rfl
  | cons statement rest ih =>
      rw [List.forall_mem_cons] at hshown hexecute
      simp only [List.map_cons, executeAll, hshown.1, hexecute.1, bind_assoc, pure_bind]
      congr 1
      funext _
      congr 1
      funext outcome
      cases outcome with
      | error fault => rfl
      | ok changed => exact ih hshown.2 hexecute.2 changed

end CarryingOut

end Calc
