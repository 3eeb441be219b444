/-
# Programs under other names

A program is renamed by giving every variable another name, wherever it stands. If
distinct names stay distinct, names matter for nothing else than which of them are
equal: against the renamed table the renamed program is resolved to the same slots, or
fails at the same statement and in the same way, and the tables differ by the renaming
only. Carrying the resolved program out is then one and the same dialogue.

Each statement is resolved and carried out against the renamed table as it is against
the table, with the renaming applied to what comes out, and from that the same follows
for programs along their statements.
-/

import Calc.Proofs.Console.Agreement
import Calc.Proofs.Execution.Naturality
import Calc.Proofs.SymbolTable.Renaming
import Mathlib.Logic.Equiv.Basic

namespace Calc

open SymbolTable (rename)

/-- What is left of resolving a program whose names are other ones. -/
def Resolution.rename (f : String → String) (resolution : Resolution NameError) :
    Resolution NameError where
  resolved := resolution.resolved
  table := resolution.table.rename f
  error := resolution.error.map (NameError.rename f)

variable {f : String → String}

/-! ## Resolving -/

/-- A statement under other names becomes the same statement, and whatever it does to
the table is done under the other names. -/
theorem Statement.resolve_rename (hf : Function.Injective f) (table : SymbolTable)
    (statement : Statement String) :
    (statement.map f).resolve (table.rename f) =
      ((statement.resolve table).map (Prod.map id (rename f))).mapError (NameError.rename f) :=
  resolveWith_map f (NameError.rename f) (rename f) (SymbolTable.declare_rename hf table)
    (SymbolTable.slotOf_rename hf table) statement

/-- A program under other names becomes the same resolved program, or fails at the same
statement with the same error for the other name. -/
theorem Program.resolve_rename (hf : Function.Injective f) (table : SymbolTable)
    (program : Program String) :
    resolve (table.rename f) (program.map (Statement.map f)) =
      (resolve table program).rename f :=
  resolveAll_map (Statement.map f) (NameError.rename f) (rename f)
    (fun statement _ table => statement.resolve_rename hf table) table

/-! ## Carrying out -/

theorem SymbolTable.valueAt_rename (f : String → String) (table : SymbolTable) :
    (table.rename f).valueAt = table.valueAt := by
  funext slot
  rw [valueAt, get_rename, valueAt]

theorem SymbolTable.store_rename (f : String → String) (table : SymbolTable) (slot : Int)
    (value : Float) :
    (table.rename f).store slot value = (table.store slot value).map (SymbolTable.rename f) := by
  rw [store, set_rename, store]
  cases table.set slot value <;> rfl

theorem Expr.value_rename (f : String → String) (table : SymbolTable) {level : Level}
    (e : Expr Int level) : e.value (table.rename f) = e.value table := by
  rw [value, SymbolTable.valueAt_rename, value]

/-- A statement is carried out in the same dialogue, whatever the names are. -/
theorem Statement.execute_rename (f : String → String) (table : SymbolTable)
    (statement : Statement Int) :
    statement.execute (table.rename f) = (do
      let outcome ← statement.execute table
      return outcome.map (rename f)) := by
  have hsame : (statement.map id).execute (table.rename f) = (do
      let outcome ← statement.execute table
      return (outcome.map (rename f)).mapError id) := by
    refine executeWith_map id id (rename f) (fun e => ?_) (fun slot x => ?_) statement
    · rw [e.map_id, e.value_rename, except_mapError_id]
    · rw [except_mapError_id]
      exact table.store_rename f slot x
  simpa only [Statement.map_id, except_mapError_id] using hsame

/-- A program is carried out in the same dialogue, whatever the names are. -/
theorem Program.execute_rename (f : String → String) (debug : Bool) (table : SymbolTable)
    (program : Program Int) :
    execute debug (table.rename f) program = (do
      let (final, fault) ← execute debug table program
      return (final.rename f, fault)) := by
  have hsame : execute debug (table.rename f) (program.map id) = (do
      let (final, fault) ← execute debug table program
      return (final.rename f, fault.map id)) := by
    refine executeAll_map id id (rename f) (fun statement _ => rfl) (fun statement _ table => ?_)
      table
    simp only [except_mapError_id]
    exact statement.execute_rename f table
  simpa only [List.map_id, Option.map_id, id] using hsame

/-- At a console this is the same run, with another final table. -/
theorem Program.run_execute_rename (f : String → String) (debug : Bool) (table : SymbolTable)
    (program : Program Int) (console : Console) :
    (execute debug (table.rename f) program).run console =
      (((execute debug table program).run console).1.map (rename f) id,
        ((execute debug table program).run console).2) := by
  rw [execute_rename, Interaction.run_then]
  rfl

namespace Program

/-- Names matter only for which of them are equal. Let distinct names be replaced by
distinct ones, in a table and in a program. The table that comes out is coherent, with
the same values in the same order. The program can then be resolved if and only if it
could before; in any case as many statements become the same resolved statements, an
error is of the same kind and about the name in the place of the other one, and the
tables differ by their names only. Carried out at the same console, the resolved
programs write the same, take the same lines and end with the same fault, if any, and
with the same value in every slot. -/
theorem names_matter_for_equality_only (hf : Function.Injective f) {table : SymbolTable}
    (hcoherent : table.Coherent) (program : Program String) :
    let resolution := resolve table program
    let renamed := resolve (table.rename f) (program.map (Statement.map f))
    (table.rename f).Coherent ∧
      (table.rename f).entries.toList = table.entries.toList.map (Prod.map f id) ∧
      (renamed.error = none ↔ resolution.error = none) ∧
      renamed.error = resolution.error.map (NameError.rename f) ∧
      renamed.resolved = resolution.resolved ∧
      renamed.table = resolution.table.rename f ∧
      ∀ (debug : Bool) (console : Console),
        let run := (execute debug resolution.table resolution.resolved).run console
        let other := (execute debug renamed.table renamed.resolved).run console
        other.2 = run.2 ∧ other.1.2 = run.1.2 ∧ other.1.1 = run.1.1.rename f ∧
          ∀ slot : Int, other.1.1.get slot = run.1.1.get slot := by
  intro resolution renamed
  have hrenamed : renamed = resolution.rename f := resolve_rename hf table program
  rw [hrenamed]
  refine ⟨hcoherent.rename hf, SymbolTable.entries_rename f table, Option.map_eq_none_iff, rfl,
    rfl, rfl, fun debug console => ?_⟩
  intro run other
  have hother : other = (run.1.map (rename f) id, run.2) :=
    run_execute_rename f debug resolution.table resolution.resolved console
  rw [hother]
  exact ⟨rfl, rfl, rfl, SymbolTable.get_rename f run.1.1⟩

/-- A program that declares a second variable and uses both, and then declares the first
one once more. -/
def declaresTwice : Program String :=
  [.declaration "y", .input "y",
    .output (.sum (.term (.factor (.ref "y"))) .add (.factor (.ref "x"))), .declaration "x"]

theorem names_exchanged_in_declaresTwice :
    let exchange : String → String := Equiv.swap "x" "y"
    let table := (∅ : SymbolTable).push "x"
    let resolution := resolve table declaresTwice
    let renamed := resolve (table.rename exchange) (declaresTwice.map (Statement.map exchange))
    (table.rename exchange).entries.toList = [("y", 0.0)] ∧
      resolution.error = some (.duplicate "x") ∧ renamed.error = some (.duplicate "y") ∧
      renamed.resolved = resolution.resolved ∧ renamed.table.names = ["y", "x"] ∧
      ∀ debug console, ((execute debug renamed.table renamed.resolved).run console).2 =
        ((execute debug resolution.table resolution.resolved).run console).2 := by
  intro exchange table resolution renamed
  have hcoherent : table.Coherent := SymbolTable.coherent_empty.push (by decide)
  obtain ⟨-, hentries, -, herror, hresolved, htable, hrun⟩ :=
    names_matter_for_equality_only (Equiv.swap "x" "y").injective hcoherent declaresTwice
  have hfails : resolution.error = some (.duplicate "x") := by decide
  have hnames : resolution.table.names = ["x", "y"] := by decide
  refine ⟨hentries, hfails, ?_, hresolved, ?_, fun debug console => (hrun debug console).1⟩
  · rw [herror, hfails]
    rfl
  · rw [htable, SymbolTable.names_rename, hnames]
    rfl

end Program

end Calc
