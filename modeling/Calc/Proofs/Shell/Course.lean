/-
# The course of the shell

The shell and the input statements of the fragments that it is given take their lines
from the same input. The shell takes a line; if the fragment on it is carried out, its
input statements take the lines that follow, as long as there are any; then the shell
takes the next line. So every line is taken once and in its order, until the shell is
told to quit or no line is left.
-/

import Calc.Proofs.Shell.Prompts
import Calc.Proofs.Text.InputLines

namespace Calc.Shell

/-- A turn: the line that the shell took, and those that input statements took behind it. -/
structure Turn where
  line : String
  answers : List String
  deriving DecidableEq, Repr

namespace Turn

/-- All lines of a turn. -/
def lines (turn : Turn) : List String :=
  turn.line :: turn.answers

/-- The session behind a turn, if its lines are the only ones. -/
def after (session : Session) (turn : Turn) : Session :=
  ((handleLine session turn.line).run { pending := turn.answers }).1.1

end Turn

/-- How the shell was left. -/
inductive Leave where
  | quit
  | endOfInput
  deriving DecidableEq, Repr

/-- How often the shell asks without being given a line. -/
def Leave.unanswered : Leave → Nat
  | quit => 0
  | endOfInput => 1

/-- The course of the shell from a session at a console: the turns that are taken one after
another until it is left, and the session and the console then. -/
inductive Course : Session → Console → List Turn → Leave → Session → Console → Prop
  | endOfInput {session : Session} {log : Array Event} :
      Course session ⟨[], log⟩ [] .endOfInput session
        ⟨[], (log.push (.output "calc> ")).push (.report "\nGoodbye!")⟩
  | quit {session : Session} {line : String} {behind : List String} {log : Array Event}
      (asked : command line = "q") :
      Course session ⟨line :: behind, log⟩ [⟨line, []⟩] .quit session
        ⟨behind, (log.push (.output "calc> ")).push (.report "Exiting Calc Interactive")⟩
  | turn {session after final : Session} {line : String} {behind answers : List String}
      {log : Array Event} {next left : Console} {turns : List Turn} {leave : Leave}
      (asked : command line ≠ "q")
      (handled : Handles session line ⟨behind, log.push (.output "calc> ")⟩ answers after next)
      (later : Course after next turns leave final left) :
      Course session ⟨line :: behind, log⟩ (⟨line, answers⟩ :: turns) leave final left

/-! ## The shell takes a course -/

section Turns

variable {session after : Session} {console left : Console}

theorem turns_of_goOn (h : (turn session).run console = ((after, true), left)) :
    turns session console = turns after left := by
  rw [turns]
  split
  · rename_i h'
    rw [h] at h'
    cases h'
    rfl
  · rename_i h'
    rw [h] at h'
    cases h'

theorem turns_of_leave (h : (turn session).run console = ((after, false), left)) :
    turns session console = (after, left) := by
  rw [turns]
  split
  · rename_i h'
    rw [h] at h'
    cases h'
  · rename_i h'
    rw [h] at h'
    cases h'
    rfl

theorem run_turn_nil (session : Session) (log : Array Event) :
    (turn session).run ⟨[], log⟩ =
      ((session, false),
        ⟨[], (log.push (.output "calc> ")).push (.report "\nGoodbye!")⟩) := by
  simp only [turn, linePrompt, Interaction.run]

theorem run_turn_cons (session : Session) (line : String) (behind : List String)
    (log : Array Event) :
    (turn session).run ⟨line :: behind, log⟩ =
      (handleLine session line).run ⟨behind, log.push (.output "calc> ")⟩ := by
  simp only [turn, linePrompt, Interaction.run]

/-- From every session the shell takes some course. The induction is on the number of
lines that are left; the shell takes one of them in every turn that it goes on after. -/
theorem exists_course (hcoherent : session.table.Coherent) :
    ∃ taken leave,
      Course session console taken leave (turns session console).1 (turns session console).2 := by
  induction hlength : console.pending.length using Nat.strong_induction_on
    generalizing session console with
  | h n ih =>
      obtain ⟨pending, log⟩ := console
      cases pending with
      | nil =>
          rw [turns_of_leave (run_turn_nil session log)]
          exact ⟨[], .endOfInput, .endOfInput⟩
      | cons line behind =>
          by_cases asked : command line = "q"
          · have hturn := run_turn_cons session line behind log
            rw [run_handleLine_quit asked] at hturn
            rw [turns_of_leave hturn]
            exact ⟨_, .quit, .quit asked⟩
          · obtain ⟨after, left, handled⟩ := exists_handles hcoherent asked
              ⟨behind, log.push (.output "calc> ")⟩
            have hturn := run_turn_cons session line behind log
            rw [handled.run] at hturn
            have hshorter : left.pending.length < n := by
              rw [← hlength]
              exact turn_pending_lt hturn
            obtain ⟨taken, leave, later⟩ := ih _ hshorter handled.coherent rfl
            rw [turns_of_goOn hturn]
            exact ⟨_, leave, .turn asked handled later⟩

end Turns

/-! ## What every course keeps -/

namespace Course

variable {session final : Session} {console left : Console} {taken : List Turn} {leave : Leave}

/-- The lines of all turns, one after another, are the lines that were taken. -/
theorem pending_eq (h : Course session console taken leave final left) :
    console.pending = taken.flatMap Turn.lines ++ left.pending := by
  induction h with
  | endOfInput => rfl
  | quit => rfl
  | @turn _ _ _ line behind answers _ next _ _ _ _ handled _ ih =>
      have hbehind : behind = answers ++ next.pending := by
        rw [handled.taken, handled.remaining, List.take_append_drop]
      rw [List.flatMap_cons, List.append_assoc, ← ih, Turn.lines, List.cons_append, ← hbehind]

/-- The lines can be dealt with one after another, each with its answers only. -/
theorem final_eq (h : Course session console taken leave final left) :
    final = taken.foldl Turn.after session := by
  induction h with
  | endOfInput => rfl
  | quit asked =>
      rw [List.foldl_cons, Turn.after, run_handleLine_quit asked]
      rfl
  | turn asked handled later ih =>
      rw [List.foldl_cons, Turn.after, handled.alone]
      exact ih

/-- The command to quit is the last line that is taken. -/
theorem quits (h : Course session console taken leave final left) (hleave : leave = .quit) :
    ∃ earlier line, taken = earlier ++ [⟨line, []⟩] ∧ command line = "q" ∧
      ∀ turn ∈ earlier, command turn.line ≠ "q" := by
  induction h with
  | endOfInput => cases hleave
  | quit asked => exact ⟨[], _, rfl, asked, by simp⟩
  | turn asked handled later ih =>
      obtain ⟨earlier, line, rfl, hlast, hearlier⟩ := ih hleave
      exact ⟨_ :: earlier, line, rfl, hlast, List.forall_mem_cons.mpr ⟨asked, hearlier⟩⟩

/-- Unless the shell is told to quit, it takes all lines. -/
theorem exhausts (h : Course session console taken leave final left)
    (hleave : leave = .endOfInput) :
    left.pending = [] ∧ ∀ turn ∈ taken, command turn.line ≠ "q" := by
  induction h with
  | endOfInput => exact ⟨rfl, by simp⟩
  | quit => cases hleave
  | turn asked handled later ih =>
      obtain ⟨hempty, hothers⟩ := ih hleave
      exact ⟨hempty, List.forall_mem_cons.mpr ⟨asked, hothers⟩⟩

/-- The shell asks once for every line that it takes, and once more at the end of input. -/
theorem linePrompts_eq (h : Course session console taken leave final left) :
    linePrompts left = linePrompts console + taken.length + leave.unanswered := by
  induction h with
  | endOfInput => simp [linePrompts, Leave.unanswered]
  | quit => simp [linePrompts, Leave.unanswered]
  | @turn session _ _ line behind _ log next _ _ _ _ handled _ ih =>
      have hnext : linePrompts next = linePrompts ⟨line :: behind, log⟩ + 1 := by
        have hrun := linePrompts_run (writes_handleLine session line)
          ⟨behind, log.push (.output "calc> ")⟩
        rw [handled.run] at hrun
        rw [hrun]
        simp [linePrompts]
      rw [ih, hnext, List.length_cons]
      omega

end Course

/-- The shell takes its lines from the lines of the input and always comes to an end. Its
turns take every line once and in order: a line is taken by the shell, and the lines behind
it, as many as the fragment on it has input statements, are taken by these; at the end of
input they take none and store zero. No line leads to another failure than a refusal. The
shell is left by the command to quit, and then no line behind it is taken, or at the end of
input, and then all lines are taken. It asks once for every line that it takes, and once
more at the end of input. The session at the end is what the lines of the shell make one
after another, each with its answers only. -/
theorem run_takes_every_line_once (debug : Bool) (text : String) :
    let lines := Text.linesOf text
    let outcome := run debug { pending := lines }
    ((∀ line ∈ lines, '\n' ∉ line.toList) ∧
      (String.join (lines.map (· ++ "\n")) = text ∨
        ∃ last, last ≠ "" ∧ lines.getLast? = some last ∧
          String.join (lines.map (· ++ "\n")) = text ++ "\n")) ∧
    (∃ introduced taken leave,
      introduced.pending = lines ∧
      Course { debug } introduced taken leave outcome.1 outcome.2 ∧
      lines = taken.flatMap Turn.lines ++ outcome.2.pending ∧
      outcome.1 = taken.foldl Turn.after { debug } ∧
      (leave = .quit → ∃ earlier line, taken = earlier ++ [⟨line, []⟩] ∧ command line = "q" ∧
        ∀ turn ∈ earlier, command turn.line ≠ "q") ∧
      (leave = .endOfInput →
        outcome.2.pending = [] ∧ ∀ turn ∈ taken, command turn.line ≠ "q") ∧
      linePrompts outcome.2 = taken.length + leave.unanswered) ∧
    ∀ (session : Session) (line : String) (console : Console) (error : TurnError),
      session.table.Coherent →
      ((session.run (command line)).run console).1.2 = some error → error.refused = true := by
  intro lines outcome
  refine ⟨⟨fun line => Text.not_mem_of_mem_linesOf, Text.join_linesOf text⟩, ?_,
    fun session line console error hcoherent herror => Session.refused_of_run hcoherent herror⟩
  have hpending : ((banner debug).run { pending := lines }).2.pending = lines := by
    cases debug <;> rfl
  have hprompts : linePrompts ((banner debug).run { pending := lines }).2 = 0 :=
    linePrompts_run (writes_banner debug) { pending := lines }
  obtain ⟨taken, leave, hcourse⟩ :=
    @exists_course { debug } ((banner debug).run { pending := lines }).2
      SymbolTable.coherent_empty
  refine ⟨_, taken, leave, hpending, hcourse, ?_, hcourse.final_eq, hcourse.quits,
    hcourse.exhausts, ?_⟩
  · rw [← hpending]
    exact hcourse.pending_eq
  · rw [← Nat.zero_add taken.length, ← hprompts]
    exact hcourse.linePrompts_eq

/-- Without the command to quit all lines are taken, also one that answers an input
statement. -/
theorem run_takes_answer :
    (run false { pending := Text.linesOf "@a > a\n5" }).2.pending = [] := by
  obtain ⟨-, ⟨_, taken, leave, -, -, hlines, -, hquits, hexhausts, -⟩, -⟩ :=
    run_takes_every_line_once false "@a > a\n5"
  cases leave with
  | endOfInput => exact (hexhausts rfl).1
  | quit =>
      -- None of the lines is the command to quit.
      obtain ⟨earlier, line, rfl, hquit, -⟩ := hquits rfl
      have hmem : line ∈ Text.linesOf "@a > a\n5" := by
        rw [hlines]
        simp [Turn.lines]
      have hnone : ∀ line ∈ Text.linesOf "@a > a\n5", command line ≠ "q" := by decide +kernel
      exact absurd hquit (hnone line hmem)

end Calc.Shell
