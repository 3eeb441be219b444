/-
# The turns of a session

A turn comes to one of three ends. A fragment that is no program, and a program
with a name that cannot be resolved, leave everything as it was: the turn looks
like one that does nothing but fail. Any other program is resolved and carried out.
-/

import Calc.Proofs.Execution.Refinement
import Calc.Proofs.Parser.Operators
import Calc.Proofs.SymbolTable.Rollback
import Calc.Session

namespace Calc

open Interaction (Agree)

/-- Reading a program shows nothing but its result. -/
theorem Program.read_agree (debug : Bool) (text : String) :
    Agree Eq (Program.read debug text) (.done (Program.complete text)) := by
  rw [read, complete]
  cases ofText text with
  | error e =>
      cases e
      exact Agree.done rfl
  | ok found => exact Agree.trace_left debug _ (Agree.done rfl)

namespace SymbolTable

variable {table : SymbolTable} {fragment : String} {program : Program String}

/-- A fragment that is no program leaves everything as it was. -/
theorem runFragment_agree_of_parse_error (debug : Bool) {e : ParseError}
    (hread : Program.complete fragment = .error e) :
    Agree Eq (table.runFragment debug fragment) (.done (table, some (.parse e))) := by
  apply Agree.bind_left (Program.read_agree debug fragment)
  rw [hread]
  exact Agree.done rfl

/-- A program with a name that cannot be resolved leaves everything as it was. -/
theorem runFragment_agree_of_name_error (debug : Bool) {e : NameError}
    (hread : Program.complete fragment = .ok program)
    (herror : (Program.resolve table program).error = some e) :
    Agree Eq (table.runFragment debug fragment) (.done (table, some (.name e))) := by
  apply Agree.bind_left (Program.read_agree debug fragment)
  rw [hread]
  apply Agree.traces_left debug _ _
  rw [herror, Program.truncate_resolve]
  exact Agree.done rfl

/-- Any other program is resolved and carried out. -/
theorem runFragment_agree_of_resolved (debug : Bool)
    (hread : Program.complete fragment = .ok program)
    (hnone : (Program.resolve table program).error = none) :
    Agree (fun outcome result => outcome = (result.1, result.2.map TurnError.run))
      (table.runFragment debug fragment) (Program.resolveAndExecute debug table program) := by
  apply Agree.bind_left (Program.read_agree debug fragment)
  rw [hread, Program.resolveAndExecute]
  refine Agree.bind (Agree.refl _) fun _ _ _ => ?_
  rw [hnone]
  apply (Agree.refl _).map_left
  rintro outcome _ rfl
  rfl

end SymbolTable

namespace Session

variable {session : Session} {fragment : String} {program : Program String}

/-- A turn of a session is a turn on its table. -/
theorem run_agree {expected : SymbolTable × Option TurnError}
    (h : Agree Eq (session.table.runFragment session.debug fragment) (.done expected)) :
    Agree Eq (session.run fragment)
      (.done ({ session with table := expected.1 }, expected.2)) := by
  apply Agree.bind_left h
  exact Agree.done rfl

theorem run_agree_of_parse_error {e : ParseError} (hread : Program.complete fragment = .error e) :
    Agree Eq (session.run fragment) (.done (session, some (.parse e))) :=
  run_agree (SymbolTable.runFragment_agree_of_parse_error session.debug hread)

theorem run_agree_of_name_error {e : NameError} (hread : Program.complete fragment = .ok program)
    (herror : (Program.resolve session.table program).error = some e) :
    Agree Eq (session.run fragment) (.done (session, some (.name e))) :=
  run_agree (SymbolTable.runFragment_agree_of_name_error session.debug hread herror)

theorem run_agree_of_resolved (hread : Program.complete fragment = .ok program)
    (hnone : (Program.resolve session.table program).error = none) :
    Agree (fun outcome result =>
        outcome = ({ session with table := result.1 }, result.2.map TurnError.run))
      (session.run fragment)
      (Program.resolveAndExecute session.debug session.table program) := by
  apply (SymbolTable.runFragment_agree_of_resolved session.debug hread hnone).map_left
  rintro outcome result rfl
  rfl

/-- A turn whose program cannot be resolved fails. -/
theorem run_eq_name_error {e : NameError} (hread : Program.complete fragment = .ok program)
    (herror : (Program.resolve session.table program).error = some e) (console : Console) :
    ((session.run fragment).run console).1.2 = some (.name e) := by
  rw [(run_agree_of_name_error hread herror console console rfl).1]
  rfl

/-- A turn whose program can be resolved does what the program means. -/
theorem run_completes (hcoherent : session.table.Coherent)
    (hread : Program.complete fragment = .ok program)
    (hnone : (Program.resolve session.table program).error = none) :
    Agree (fun outcome result => outcome.1.debug = session.debug ∧
        Completes (Program.resolve session.table program).table (outcome.1.table, outcome.2) result)
      (session.run fragment) (Program.interpret session.table.entries.toList program) := by
  have hknown := Program.arithmetic_of_complete hread
  have hmeaning := Program.resolveAndExecute_agree session.debug hcoherent hknown hnone
  apply ((run_agree_of_resolved hread hnone).trans hmeaning).mono
  rintro _ result ⟨outcome, rfl, h⟩
  refine ⟨rfl, ?_, h.coherent, h.names, h.store⟩
  rw [h.noFault]
  rfl

/-- A turn succeeds exactly if its program can be resolved. -/
theorem run_eq_none_iff (hcoherent : session.table.Coherent)
    (hread : Program.complete fragment = .ok program) (console : Console) :
    ((session.run fragment).run console).1.2 = none ↔
      (Program.resolve session.table program).error = none := by
  cases herror : (Program.resolve session.table program).error with
  | some e =>
      rw [run_eq_name_error hread herror console]
      exact iff_of_false (Option.some_ne_none _) (Option.some_ne_none _)
  | none =>
      have hturn := run_completes hcoherent hread herror console console rfl
      exact iff_of_true hturn.1.2.noFault rfl

end Session

end Calc
