/-
# The interactive shell

The shell asks for a line, deals with it, and goes on until it is told to quit or
the input ends. Three lines of one letter are commands; every other line that is
not blank is a fragment of program text, whose errors are reported. The input
statements of a fragment read the lines that follow it. How a line is edited, the
history of earlier lines and interrupts are left to the terminal.
-/

import Calc.Session
import Calc.Text.Blank

namespace Calc.Shell

/-- What asks for the next line. -/
def linePrompt : String := "calc> "

/-- The commands and the statements, one line each. -/
def help : List String :=
  ["Commands:",
    "  q: Quit current REPL instance",
    "  c: Clear variables",
    "  v: Print context variables",
    "Statements: @x (declare), > x (read), < x + 1 (print), x := 2 * x (assign)"]

/-- Deal with a line. The result tells whether to go on. -/
def handleLine (session : Session) (line : String) : Interaction (Session × Bool) := do
  let command := String.ofList (Text.trim line.toList)
  if command = "" then return (session, true)
  else if command = "q" then
    Interaction.report "Exiting Calc Interactive"
    return (session, false)
  else if command = "c" then
    Interaction.report "Variables cleared"
    return (session.clear, true)
  else if command = "v" then
    Interaction.print (session.table.listing ++ "\n")
    return (session, true)
  else
    let (after, error) ← session.run command
    match error with
    | some e => Interaction.report e.message
    | none => pure ()
    return (after, true)

/-- Ask for a line and deal with it. The shell is also left at the end of input. -/
def turn (session : Session) : Interaction (Session × Bool) :=
  .write (.output linePrompt) (.read fun
    | none => .write (.report "\nGoodbye!") (.done (session, false))
    | some line => handleLine session line)

/-- Introduce the shell. -/
def banner (debug : Bool) : Interaction Unit := do
  Interaction.print "Calc Language - Interactive\n"
  if debug then Interaction.print "Debug mode enabled\n"
  help.forM Interaction.report

/-- A turn that goes on has read a line. -/
theorem turn_pending_lt {session after : Session} {console left : Console}
    (h : (turn session).run console = ((after, true), left)) :
    left.pending.length < console.pending.length := by
  rcases console with ⟨_ | ⟨line, rest⟩, log⟩
  · simp [turn, Interaction.run] at h
  · simp only [turn, Interaction.run] at h
    have le := (handleLine session line).run_pending_le ⟨rest, log.push (.output linePrompt)⟩
    rw [h] at le
    exact Nat.lt_succ_of_le le

/-- Turns until the shell is left; the session it is left with. -/
def turns (session : Session) (console : Console) : Session × Console :=
  match _h : (turn session).run console with
  | ((after, true), left) => turns after left
  | ((after, false), left) => (after, left)
termination_by console.pending.length
decreasing_by exact turn_pending_lt _h

/-- The shell at a console, from its introduction to its end. -/
def run (debug : Bool) (console : Console) : Session × Console :=
  turns { debug } ((banner debug).run console).2

end Calc.Shell
