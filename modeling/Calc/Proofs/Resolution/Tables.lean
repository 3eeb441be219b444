/-
# What resolving does to the table

Resolving a program appends the names that it declares, and that is all: also when
it fails, the table has the variables of the statements before the failing one.
It sees neither values nor what else the entries hold, only which name has which
slot, and how many there are.
-/

import Calc.Proofs.Resolution.Relation

namespace Calc

open SymbolTable (zeros)

variable {table middle final other : SymbolTable}

/-- The name that a statement declares, if it is a declaration. -/
def Statement.declared {ρ : Type} : Statement ρ → List ρ
  | .declaration name => [name]
  | _ => []

/-- The names that a program declares, in their order. -/
def Program.declared {ρ : Type} (program : Program ρ) : List ρ :=
  program.flatMap Statement.declared

theorem Program.declared_cons {ρ : Type} (statement : Statement ρ) (rest : Program ρ) :
    Program.declared (statement :: rest) = statement.declared ++ Program.declared rest :=
  List.flatMap_cons

section Statement

variable {statement : Statement String} {statement' : Statement Int}

theorem Statement.Resolves.table_eq (h : statement.Resolves table statement' final) :
    final = table.pushAll statement.declared := by
  cases h <;> rfl

/-- Only a new name is declared. -/
theorem Statement.Resolves.new (h : statement.Resolves table statement' final) :
    ∀ name ∈ statement.declared, table.contains name = false := by
  cases h with
  | declaration new => simpa [declared] using new
  | _ => simp [declared]

theorem Statement.Resolves.coherent (h : statement.Resolves table statement' final)
    (hcoherent : table.Coherent) : final.Coherent := by
  cases h with
  | declaration new => exact hcoherent.push new
  | _ => exact hcoherent

end Statement

namespace Program

variable {program first second : Program String} {resolved : Program Int}

theorem Resolves.table_eq (h : Resolves table program resolved final) :
    final = table.pushAll (declared program) := by
  induction h with
  | nil => rfl
  | cons first _ ih =>
      rw [ih, first.table_eq, declared_cons, SymbolTable.pushAll_append]

/-- The names that a program declares are new. -/
theorem Resolves.new (h : Resolves table program resolved final) :
    ∀ name ∈ declared program, table.contains name = false := by
  induction h with
  | nil => simp [declared]
  | @cons table middle _ statement _ _ _ first _ ih =>
      intro name hname
      rw [declared_cons, List.mem_append] at hname
      rcases hname with hname | hname
      · exact first.new name hname
      · have hmiddle := ih name hname
        cases first with
        | declaration new =>
            rw [SymbolTable.contains_push, Bool.or_eq_false_iff] at hmiddle
            exact hmiddle.2
        | _ => exact hmiddle

theorem Resolves.coherent (h : Resolves table program resolved final)
    (hcoherent : table.Coherent) : final.Coherent := by
  induction h with
  | nil => exact hcoherent
  | cons first _ ih => exact ih (first.coherent hcoherent)

/-- The variables that existed stay as they are, and those that the program
declares stand behind them and are zero. -/
theorem Resolves.entries (h : Resolves table program resolved final) :
    final.entries.toList = table.entries.toList ++ zeros (declared program) := by
  rw [h.table_eq, SymbolTable.entries_pushAll]

/-- Whatever happens, the statements that were resolved are the first ones, and
the table is the one behind them. -/
theorem exists_resolved_prefix (table : SymbolTable) (program : Program String) :
    ∃ before behind, program = before ++ behind ∧
      Resolves table before (Program.resolve table program).resolved
        (Program.resolve table program).table := by
  induction program generalizing table with
  | nil => exact ⟨[], [], rfl, .nil⟩
  | cons statement rest ih =>
      cases hstep : statement.resolve table with
      | error e =>
          rw [resolve_cons_error hstep]
          exact ⟨[], statement :: rest, rfl, .nil⟩
      | ok result =>
          obtain ⟨statement', middle⟩ := result
          obtain ⟨before, behind, hrest, hothers⟩ := ih middle
          rw [resolve_cons_ok hstep]
          exact ⟨statement :: before, behind, congrArg (statement :: ·) hrest,
            .cons (Statement.resolve_eq_ok_iff.mp hstep) hothers⟩

end Program

/-! ## What resolving depends on -/

/-- Two tables give every name the same slot, and the next name too. -/
structure SymbolTable.SameSlots (table other : SymbolTable) : Prop where
  slots : table.slots = other.slots
  size : table.size = other.size

namespace SymbolTable

theorem SameSlots.push (h : table.SameSlots other) (name : String) :
    (table.push name).SameSlots (other.push name) where
  slots := by rw [SymbolTable.push, SymbolTable.push, h.slots, h.size]
  size := by
    have hsize := h.size
    simp only [SymbolTable.size] at hsize
    simp [SymbolTable.push, SymbolTable.size, hsize]

end SymbolTable

theorem Expr.Resolves.congr (h : table.SameSlots other) {level : Level} {e : Expr String level}
    {e' : Expr Int level} (hresolves : e.Resolves table e') : e.Resolves other e' := by
  induction hresolves with
  | ref found => exact .ref (h.slots ▸ found)
  | literal => exact .literal
  | group _ ih => exact .group ih
  | factor _ ih => exact .factor ih
  | product _ _ ihleft ihright => exact .product ihleft ihright
  | term _ ih => exact .term ih
  | sum _ _ ihleft ihright => exact .sum ihleft ihright

theorem Statement.Resolves.congr (h : table.SameSlots other) {statement : Statement String}
    {statement' : Statement Int} (hresolves : statement.Resolves table statement' final) :
    ∃ final', statement.Resolves other statement' final' ∧ final.SameSlots final' := by
  cases hresolves with
  | declaration new =>
      rw [h.size]
      rw [SymbolTable.contains_eq, h.slots, ← SymbolTable.contains_eq] at new
      exact ⟨_, .declaration new, h.push _⟩
  | input found => exact ⟨_, .input (h.slots ▸ found), h⟩
  | output value => exact ⟨_, .output (value.congr h), h⟩
  | assignment found value => exact ⟨_, .assignment (h.slots ▸ found) (value.congr h), h⟩

/-- A program is resolved in the same way against every table that gives the same
slots to names. -/
theorem Program.Resolves.congr (h : table.SameSlots other) {program : Program String}
    {resolved : Program Int} (hresolves : Resolves table program resolved final) :
    ∃ final', Resolves other program resolved final' ∧ final.SameSlots final' := by
  induction hresolves generalizing other with
  | nil => exact ⟨other, .nil, h⟩
  | cons first _ ih =>
      obtain ⟨middle', hfirst, hmiddle⟩ := first.congr h
      obtain ⟨final', hothers, hfinal⟩ := ih hmiddle
      exact ⟨final', .cons hfirst hothers, hfinal⟩

end Calc
