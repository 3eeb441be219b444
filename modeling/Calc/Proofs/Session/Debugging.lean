/-
# Debugging changes nothing

A program can be traced while it is read, resolved and carried out. The traces are all
that is different: a traced dialogue is the dialogue that is not traced, with records put
in between. This holds of reading, of resolving and of every statement, so that it holds
of a program run on its own, of a turn whether it fails or not, and of a session of any
length.
-/

import Calc.Proofs.Console.Untraced
import Calc.Proofs.Session.History

namespace Calc

open Interaction (untraced_bind untraced_pure untraced_trace untraced_forM run_untraced_pending)

/-! ## Programs -/

theorem Program.read_quiet (text : String) :
    Program.read false text = return Program.complete text := by
  rw [read, complete]
  cases ofText text with
  | error e =>
      cases e
      rfl
  | ok found => rfl

/-- The trace of reading is all that debugging adds to it. -/
theorem Program.untraced_read (debug : Bool) (text : String) :
    (Program.read debug text).untraced = Program.read false text := by
  rw [read_quiet, read, complete]
  cases ofText text with
  | error e =>
      cases e
      rfl
  | ok found => rw [untraced_bind, Reading.trace, untraced_trace]; rfl

theorem Resolution.untraced_trace {σ ε : Type} (debug : Bool) (shown : σ → String)
    (statements : List σ) (resolution : Resolution ε) :
    (resolution.trace debug shown statements).untraced = pure () :=
  untraced_forM (fun _ => Interaction.untraced_trace debug _) _

theorem Resolution.trace_quiet {σ ε : Type} (shown : σ → String) (statements : List σ)
    (resolution : Resolution ε) : resolution.trace false shown statements = return () := by
  rw [trace]
  induction statements.zip resolution.resolved with
  | nil => rfl
  | cons first later ih => exact ih

/-- A statement is carried out without traces. -/
theorem Statement.untraced_execute (table : SymbolTable) (statement : Statement Int) :
    (statement.execute table).untraced = statement.execute table := by
  cases statement with
  | declaration target => rfl
  | input target => rfl
  | output e =>
      rw [execute, executeWith]
      cases e.value table with
      | error fault => rfl
      | ok x => rfl
  | assignment target e =>
      rw [execute, executeWith]
      cases e.value table with
      | error fault => rfl
      | ok x => rfl

/-- Showing the statements before they are carried out is all that debugging adds. -/
theorem Program.untraced_execute (debug : Bool) (table : SymbolTable) (program : Program Int) :
    (Program.execute debug table program).untraced = Program.execute false table program := by
  rw [execute, execute]
  induction program generalizing table with
  | nil => rfl
  | cons statement program ih =>
      rw [executeAll, executeAll, untraced_bind, untraced_bind, untraced_trace,
        statement.untraced_execute]
      show (statement.execute table >>= _) = (statement.execute table >>= _)
      congr 1
      funext outcome
      cases outcome with
      | error fault => rfl
      | ok changed => exact ih changed

/-- The traces of its three parts are all that debugging adds to a fragment. -/
theorem SymbolTable.untraced_runFragment (debug : Bool) (table : SymbolTable)
    (fragment : String) :
    (table.runFragment debug fragment).untraced = table.runFragment false fragment := by
  rw [runFragment, runFragment, untraced_bind, Program.untraced_read]
  congr 1
  funext reading
  cases reading with
  | error e => rfl
  | ok program =>
      simp only [untraced_bind, Resolution.untraced_trace, Resolution.trace_quiet, pure_bind]
      cases (Program.resolve table program).error with
      | some e => rfl
      | none => simp only [untraced_bind, untraced_pure, Program.untraced_execute]

theorem untraced_runSource (debug : Bool) (source : String) :
    (runSource debug source).untraced = runSource false source := by
  rw [runSource, runSource, untraced_bind, SymbolTable.untraced_runFragment]
  congr 1
  funext outcome
  rcases outcome with ⟨table, error⟩
  cases error with
  | none => rfl
  | some e => rfl

/-! ## Sessions -/

namespace Session

/-- The session with its variables, but not traced. -/
def quiet (session : Session) : Session :=
  { session with debug := false }

/-- The record of the same step in a session that is not traced. -/
def Record.quiet (record : Record) : Record :=
  { record with after := record.after.quiet, console := record.console.visible }

/-- A step of a session that is not traced is the step of the traced one without the
traces. -/
theorem perform_quiet (session : Session) (step : Step) :
    session.quiet.perform step =
      (session.perform step).untraced >>= fun (after, result) => pure (after.quiet, result) := by
  cases step with
  | clear => rfl
  | list => rfl
  | run fragment =>
      rw [perform, perform, run, run, untraced_bind, untraced_bind,
        SymbolTable.untraced_runFragment, bind_assoc, bind_assoc, bind_assoc]
      rfl

theorem record_quiet (session : Session) (pending : List String) (step : Step) :
    session.quiet.record pending step = (session.record pending step).quiet := by
  rw [record, record, perform_quiet, Interaction.run_then, run_untraced_pending]
  rfl

/-- A session that is not traced has the history of the traced one without the traces.
The induction follows the steps, of which each leaves the same variables and lines. -/
theorem history_quiet (session : Session) (pending : List String) (steps : List Step) :
    session.quiet.history pending steps =
      { records := (session.history pending steps).records.map Record.quiet
        final := (session.history pending steps).final.quiet
        pending := (session.history pending steps).pending } := by
  induction steps generalizing session pending with
  | nil => rfl
  | cons step rest ih =>
      rw [history, record_quiet]
      show History.cons _ ((session.record pending step).after.quiet.history
        (session.record pending step).console.pending rest) = _
      rw [ih]
      rfl

end Session

/-! ## What is left of a console -/

/-- A console looks like a traced one of which all records of debugging are deleted. -/
structure Console.WithoutTraces (quiet traced : Console) : Prop where
  pending : quiet.pending = traced.pending
  output : quiet.output = traced.output
  errors : quiet.errors =
    String.join ((traced.log.toList.filter fun event => !event.isTrace).map Event.errorText)
  log : quiet.log.toList = traced.log.toList.filter fun event => !event.isTrace

theorem Console.withoutTraces_visible (console : Console) :
    console.visible.WithoutTraces console where
  pending := rfl
  output := console.output_visible
  errors := by rw [errors, visible, Array.toList_filter]
  log := Array.toList_filter

/-- Whether a program is traced makes no difference to it: it is refused with the same
error, or ends with the same table, and standard output and the lines that are left are
the same. Standard error is the same but for the records of debugging. This is also so
after every step of a session of turns, clearings and listings that starts with any
variables, whether turns fail or not. -/
theorem debugging_changes_nothing :
    (∀ (source : String) (pending : List String),
      let quiet := (runSource false source).run { pending }
      let traced := (runSource true source).run { pending }
      quiet.1 = traced.1 ∧ quiet.2.WithoutTraces traced.2) ∧
    ∀ (table : SymbolTable) (pending : List String) (steps : List Session.Step),
      let quiet := Session.history { debug := false, table } pending steps
      let traced := Session.history { debug := true, table } pending steps
      List.Forall₂ (fun first second : Session.Record =>
          first.step = second.step ∧ first.result = second.result ∧
          first.after.table = second.after.table ∧
          first.console.WithoutTraces second.console)
        quiet.records traced.records ∧
      quiet.final.table = traced.final.table ∧ quiet.pending = traced.pending := by
  constructor
  · intro source pending quiet traced
    have hquiet : quiet = (traced.1, traced.2.visible) := by
      show (runSource false source).run { pending } = _
      rw [← untraced_runSource true, run_untraced_pending]
    rw [hquiet]
    exact ⟨rfl, traced.2.withoutTraces_visible⟩
  · intro table pending steps quiet traced
    have hquiet : quiet = ⟨traced.records.map Session.Record.quiet, traced.final.quiet,
        traced.pending⟩ :=
      Session.history_quiet { debug := true, table } pending steps
    rw [hquiet]
    refine ⟨?_, rfl, rfl⟩
    rw [List.forall₂_map_left_iff, List.forall₂_same]
    intro record _
    exact ⟨rfl, rfl, rfl, record.console.withoutTraces_visible⟩

end Calc
