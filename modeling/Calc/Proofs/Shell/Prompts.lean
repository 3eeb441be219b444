/-
# Prompts of the shell

Only the shell itself asks for lines with its prompt. What a program prints, what is
listed and what introduces the shell are whole lines, and the prompt is none.
-/

import Calc.Proofs.Session.Transcript
import Calc.Proofs.Shell.Line

namespace Calc

open Interaction (Writes writes_forM)

/-- Everything but a prompt of the shell may be written. -/
def Event.IsNoPrompt (event : Event) : Prop :=
  event ≠ .output "calc> "

theorem Event.isNoPrompt_report (message : String) : IsNoPrompt (.report message) :=
  Event.noConfusion

/-- Whole lines of output are no prompts. -/
theorem Event.isNoPrompt_line (text : String) : IsNoPrompt (.output (text ++ "\n")) := by
  intro h
  have hlast := congrArg (fun s => s.toList.getLast?) (Event.output.inj h)
  simp at hlast

/-- Whatever a turn writes is no prompt of the shell. -/
theorem Event.OfTurn.isNoPrompt {debug : Bool} {event : Event} (h : OfTurn debug event) :
    event.IsNoPrompt := by
  cases h with
  | line text => exact isNoPrompt_line text
  | prompt => exact Event.noConfusion
  | trace record hdebug => exact Event.noConfusion

namespace Shell

theorem writes_handleLine (session : Session) (line : String) :
    (handleLine session line).Writes Event.IsNoPrompt := by
  rw [handleLine_eq]
  -- What the command is does not matter, and the goals are smaller without its text.
  generalize command line = entered
  apply Writes.ite
  · trivial
  apply Writes.ite
  · exact ⟨Event.isNoPrompt_report _, trivial⟩
  apply Writes.ite
  · exact ⟨Event.isNoPrompt_report _, trivial⟩
  apply Writes.ite
  · exact ⟨Event.isNoPrompt_line _, trivial⟩
  · have hrun := (session.writes_run entered).mono fun _ h => h.isNoPrompt
    refine hrun.bind fun ⟨after, error⟩ => ?_
    cases error with
    | none => trivial
    | some e => exact ⟨Event.isNoPrompt_report _, trivial⟩

theorem writes_banner (debug : Bool) : (banner debug).Writes Event.IsNoPrompt := by
  refine ⟨by simp [Event.IsNoPrompt], ?_⟩
  cases debug with
  | false => exact writes_forM fun _ _ => ⟨Event.isNoPrompt_report _, trivial⟩
  | true =>
      refine ⟨by simp [Event.IsNoPrompt], ?_⟩
      exact writes_forM fun _ _ => ⟨Event.isNoPrompt_report _, trivial⟩

/-- How often the shell asked for a line. -/
def linePrompts (console : Console) : Nat :=
  console.log.toList.count (.output "calc> ")

/-- What writes no prompt leaves their number. -/
theorem linePrompts_run {α : Type} {i : Interaction α} (h : i.Writes Event.IsNoPrompt)
    (console : Console) : linePrompts (i.run console).2 = linePrompts console := by
  obtain ⟨pending, log⟩ := console
  have hnone : (i.run { pending }).2.log.toList.count (.output "calc> ") = 0 := by
    rw [List.count_eq_zero]
    intro hmem
    exact @Writes.run _ _ i h { pending } (by simp) _ hmem rfl
  rw [linePrompts, i.run_log, Array.toList_append, List.count_append, hnone]
  rfl

end Shell

end Calc
