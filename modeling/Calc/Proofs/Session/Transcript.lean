/-
# What a turn writes

A fragment that is run prints whole lines and prompts for numbers. It reports nothing:
its errors are results, and whoever ran it decides what to say about them. Everything
else that it writes is a trace, and there is none unless debugging.
-/

import Calc.Session
import Calc.Proofs.Console.Transcript

namespace Calc

open Interaction (Writes writes_trace writes_forM)

/-- What may be written while a program is read, resolved and carried out. -/
inductive Event.OfTurn (debug : Bool) : Event → Prop
  | line (text : String) : OfTurn debug (.output (text ++ "\n"))
  | prompt : OfTurn debug (.prompt inputPrompt)
  | trace (record : String) (h : debug = true) : OfTurn debug (.trace record)

variable (debug : Bool)

theorem Program.writes_read (text : String) :
    (Program.read debug text).Writes (Event.OfTurn debug) := by
  rw [read]
  cases ofText text with
  | error e =>
      cases e
      trivial
  | ok found => exact (writes_trace (Event.OfTurn.trace _)).bind fun _ => trivial

theorem Statement.writes_execute (table : SymbolTable) (statement : Statement Int) :
    (statement.execute table).Writes (Event.OfTurn debug) := by
  cases statement with
  | declaration target => trivial
  | input target => exact ⟨.prompt, fun _ => trivial⟩
  | output e =>
      rw [execute, executeWith]
      cases e.value table with
      | error fault => trivial
      | ok x => exact ⟨.line _, trivial⟩
  | assignment target e =>
      rw [execute, executeWith]
      cases e.value table with
      | error fault => trivial
      | ok x => trivial

theorem Program.writes_execute (table : SymbolTable) (program : Program Int) :
    (Program.execute debug table program).Writes (Event.OfTurn debug) := by
  rw [execute]
  induction program generalizing table with
  | nil => trivial
  | cons statement program ih =>
      rw [executeAll]
      apply (writes_trace (Event.OfTurn.trace _)).bind
      intro _
      apply (statement.writes_execute debug table).bind
      intro outcome
      cases outcome with
      | error fault => trivial
      | ok changed => exact ih changed

theorem SymbolTable.writes_runFragment (table : SymbolTable) (fragment : String) :
    (table.runFragment debug fragment).Writes (Event.OfTurn debug) := by
  rw [runFragment]
  apply (Program.writes_read debug fragment).bind
  intro reading
  cases reading with
  | error e => trivial
  | ok program =>
      apply (writes_forM fun _ _ => writes_trace (Event.OfTurn.trace _)).bind
      intro _
      cases (Program.resolve table program).error with
      | some e => trivial
      | none => exact (Program.writes_execute debug _ _).bind fun _ => trivial

theorem writes_runSource (source : String) :
    (runSource debug source).Writes (Event.OfTurn debug) := by
  rw [runSource]
  apply (SymbolTable.writes_runFragment debug ∅ source).bind
  rintro ⟨table, error⟩
  cases error with
  | none => trivial
  | some e => trivial

theorem Session.writes_run (session : Session) (fragment : String) :
    (session.run fragment).Writes (Event.OfTurn session.debug) :=
  (session.table.writes_runFragment session.debug fragment).bind fun _ => trivial

end Calc
