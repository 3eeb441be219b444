/-
# Lines that the shell deals with

How many lines are taken behind a line that the shell deals with is known beforehand: as
many as the fragment on it has input statements, if it is carried out, and none for every
other line. What the line comes to depends on these lines only.
-/

import Calc.Proofs.Execution.Answers
import Calc.Proofs.Session.Outcome
import Calc.Shell

namespace Calc

namespace Session

/-! ## What a turn takes -/

/-- How many lines a fragment takes if there are enough: one for every input statement,
but none if it is refused. -/
def reads (session : Session) (fragment : String) : Nat :=
  match Program.complete fragment with
  | .error _ => 0
  | .ok program =>
      if (Program.resolve session.table program).error.isNone then program.inputs else 0

variable {session : Session} {fragment : String} {program : Program String}

theorem reads_of_parse_error {e : ParseError} (hread : Program.complete fragment = .error e) :
    session.reads fragment = 0 := by
  rw [reads, hread]

theorem reads_of_name_error {e : NameError} (hread : Program.complete fragment = .ok program)
    (herror : (Program.resolve session.table program).error = some e) :
    session.reads fragment = 0 := by
  simp [reads, hread, herror]

theorem reads_of_resolved (hread : Program.complete fragment = .ok program)
    (hnone : (Program.resolve session.table program).error = none) :
    session.reads fragment = program.inputs := by
  simp [reads, hread, hnone]

/-- A fragment that is carried out leaves the lines that its input statements did not take,
and the variables that the lines in front of them make. -/
theorem run_of_resolved (hcoherent : session.table.Coherent)
    (hread : Program.complete fragment = .ok program)
    (hnone : (Program.resolve session.table program).error = none) (console : Console) :
    ((session.run fragment).run console).2.pending = console.pending.drop program.inputs ∧
      Program.storeAfter session.table.entries.toList console.pending program =
        some ((session.run fragment).run console).1.1.table.entries.toList := by
  obtain ⟨⟨-, hcompletes⟩, hvisible⟩ :=
    run_completes hcoherent hread hnone console console rfl
  obtain ⟨hstore, hpending⟩ :=
    Program.interpret_run session.table.entries.toList program console
  have hsome := hcompletes.store
  constructor
  · rw [(Console.eq_of_visible_eq hvisible).1]
    apply hpending
    rw [hsome]
    rfl
  · rw [← hstore, hsome]

/-- Every turn leaves the lines that it did not take. -/
theorem run_pending (hcoherent : session.table.Coherent) (fragment : String)
    (console : Console) :
    ((session.run fragment).run console).2.pending =
      console.pending.drop (session.reads fragment) := by
  cases hread : Program.complete fragment with
  | error e =>
      rw [reads_of_parse_error hread]
      have hagree := @run_agree_of_parse_error session _ _ hread console console rfl
      exact (Console.eq_of_visible_eq hagree.2).1
  | ok program =>
      cases hname : (Program.resolve session.table program).error with
      | some e =>
          rw [reads_of_name_error hread hname]
          have hagree := run_agree_of_name_error hread hname console console rfl
          exact (Console.eq_of_visible_eq hagree.2).1
      | none =>
          rw [reads_of_resolved hread hname]
          exact (run_of_resolved hcoherent hread hname console).1

end Session

namespace Shell

/-! ## Lines that are dealt with -/

/-- What a line asks for: its text without the blanks at both ends. -/
def command (line : String) : String :=
  String.ofList (Text.trim line.toList)

/-- A line that was dealt with on a console, with the lines that its input statements took.
The line would have come to the same if no other lines had followed. Of a fragment that
was carried out, the answers made the variables. -/
structure Handles (session : Session) (line : String) (console : Console)
    (answers : List String) (after : Session) (left : Console) : Prop where
  run : (handleLine session line).run console = ((after, true), left)
  taken : answers = console.pending.take (session.reads (command line))
  remaining : left.pending = console.pending.drop (session.reads (command line))
  alone : ((handleLine session line).run { pending := answers }).1 = (after, true)
  stored : ∀ program, Program.complete (command line) = .ok program →
    (Program.resolve session.table program).error = none →
    Program.storeAfter session.table.entries.toList answers program =
      some after.table.entries.toList
  coherent : after.table.Coherent

section HandleLine

variable {session : Session} {line : String}

theorem handleLine_eq (session : Session) (line : String) :
    handleLine session line =
      if command line = "" then return (session, true)
      else if command line = "q" then do
        Interaction.report "Exiting Calc Interactive"
        return (session, false)
      else if command line = "c" then do
        Interaction.report "Variables cleared"
        return (session.clear, true)
      else if command line = "v" then do
        Interaction.print (session.table.listing ++ "\n")
        return (session, true)
      else do
        let (after, error) ← session.run (command line)
        match error with
        | some e => Interaction.report e.message
        | none => pure ()
        return (after, true) :=
  rfl

/-- The command to quit takes no line. -/
theorem run_handleLine_quit (asked : command line = "q") (console : Console) :
    (handleLine session line).run console =
      ((session, false),
        { console with log := console.log.push (.report "Exiting Calc Interactive") }) := by
  rw [handleLine_eq, asked]
  rfl

/-- What is left of a blank line is the text of the program without statements. -/
theorem complete_empty : Program.complete "" = .ok [] :=
  Program.Fills.complete ⟨[], [], rfl, .nil, Text.isGap_nil⟩ (by simp)

/-- Commands of one letter are no programs. -/
theorem complete_letter {name : String} (h : name = "c" ∨ name = "v") :
    ∃ e, Program.complete name = .error e := by
  have hletters : (Program.complete "c").isOk = false ∧ (Program.complete "v").isOk = false := by
    decide +kernel
  have hname : (Program.complete name).isOk = false := by
    rcases h with rfl | rfl
    · exact hletters.1
    · exact hletters.2
  cases hcomplete : Program.complete name with
  | error e => exact ⟨e, rfl⟩
  | ok program =>
      rw [hcomplete] at hname
      cases hname

/-- Every line but the command to quit is dealt with. -/
theorem run_handleLine (hcoherent : session.table.Coherent) (asked : command line ≠ "q")
    (console : Console) :
    ∃ after left, (handleLine session line).run console = ((after, true), left) ∧
      left.pending = console.pending.drop (session.reads (command line)) ∧
      (∀ program, Program.complete (command line) = .ok program →
        (Program.resolve session.table program).error = none →
        Program.storeAfter session.table.entries.toList console.pending program =
          some after.table.entries.toList) ∧
      after.table.Coherent := by
  by_cases hempty : command line = ""
  · refine ⟨session, console, ?_, ?_, ?_, hcoherent⟩
    · rw [handleLine_eq, if_pos hempty]
      rfl
    · rw [hempty, Session.reads_of_resolved complete_empty rfl]
      rfl
    · rw [hempty, complete_empty]
      rintro program ⟨⟩ -
      rfl
  by_cases hletter : command line = "c" ∨ command line = "v"
  · obtain ⟨e, hread⟩ := complete_letter hletter
    rw [Session.reads_of_parse_error hread, hread, handleLine_eq, if_neg hempty, if_neg asked]
    rcases hletter with hclear | hlist
    · rw [if_pos hclear]
      exact ⟨_, _, rfl, rfl, (fun _ h => by cases h), SymbolTable.coherent_empty⟩
    · have hne : command line ≠ "c" := by
        rw [hlist]
        decide
      rw [if_neg hne, if_pos hlist]
      exact ⟨_, _, rfl, rfl, (fun _ h => by cases h), hcoherent⟩
  · rw [not_or] at hletter
    have hpending := Session.run_pending hcoherent (command line) console
    have hafter := Session.coherent_run hcoherent (command line) console
    have hstored := fun program (hread : Program.complete (command line) = .ok program) hnone =>
      (Session.run_of_resolved hcoherent hread hnone console).2
    rw [handleLine_eq, if_neg hempty, if_neg asked, if_neg hletter.1, if_neg hletter.2,
      Interaction.run_then]
    generalize (session.run (command line)).run console = outcome at hpending hafter hstored ⊢
    obtain ⟨⟨after, error⟩, left⟩ := outcome
    cases error with
    | none => exact ⟨after, left, rfl, hpending, hstored, hafter⟩
    | some e =>
        exact ⟨after, { left with log := left.log.push (.report e.message) }, rfl, hpending,
          hstored, hafter⟩

theorem exists_handles (hcoherent : session.table.Coherent) (asked : command line ≠ "q")
    (console : Console) :
    ∃ after left, Handles session line console
      (console.pending.take (session.reads (command line))) after left := by
  obtain ⟨after, left, hrun, hpending, hstored, hafter⟩ := run_handleLine hcoherent asked console
  refine ⟨after, left, hrun, rfl, hpending, ?_, fun program hread hnone => ?_, hafter⟩
  · obtain ⟨pending, log⟩ := console
    have htake : ((handleLine session line).run ⟨pending, log⟩).2.pending =
        pending.drop (session.reads (command line)) := by
      rw [hrun, hpending]
    have halone := (handleLine session line).run_take htake
    rw [(handleLine session line).run_log (pending.take _) log, hrun] at halone
    exact halone
  · rw [Session.reads_of_resolved hread hnone, Program.storeAfter_take]
    exact hstored program hread hnone

end HandleLine

end Shell

end Calc
