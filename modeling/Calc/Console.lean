/-
# Interactions with a console

What a program does to the outside world is a tree: it ends with a result, or it
writes something and goes on, or it asks for a line of input and goes on in a way
that depends on the line. Such a tree is a value, so that two programs can be
compared without running them, and it is finite along every path, so that running
it ends for every input. A console supplies the lines that are left and records
what was written; whether a text goes to standard output or to standard error is
decided by its kind.
-/

namespace Calc

/-- Something that is written. -/
inductive Event where
  /-- text on standard output, as it is -/
  | output (text : String)
  /-- text on standard error that a person is expected to answer on its line -/
  | prompt (text : String)
  /-- a line on standard error -/
  | report (message : String)
  /-- a line on standard error that is written only when debugging -/
  | trace (record : String)
  deriving DecidableEq, Repr

namespace Event

/-- What an event adds to standard output. -/
def outputText : Event → String
  | output text => text
  | _ => ""

/-- What an event adds to standard error. -/
def errorText : Event → String
  | output _ => ""
  | prompt text => text
  | report message => message ++ "\n"
  | trace record => "DEBUG: " ++ record ++ "\n"

end Event

/-- A finite dialogue that ends with a result. -/
inductive Interaction (α : Type) where
  | done (result : α)
  | write (event : Event) (next : Interaction α)
  /-- ask for a line, without its line feed; there is none at the end of input -/
  | read (next : Option String → Interaction α)

namespace Interaction

variable {α β γ : Type}

/-- Go on with another dialogue after the end of the first. -/
def bind : Interaction α → (α → Interaction β) → Interaction β
  | done a, f => f a
  | write event next, f => write event (next.bind f)
  | read next, f => read fun line => (next line).bind f

instance : Monad Interaction where
  pure := done
  bind := bind

theorem bind_done (i : Interaction α) : i.bind done = i := by
  induction i with
  | done => rfl
  | write event next ih => rw [bind, ih]
  | read next ih => rw [bind]; congr; funext line; exact ih line

theorem bind_bind (i : Interaction α) (f : α → Interaction β) (g : β → Interaction γ) :
    (i.bind f).bind g = i.bind fun a => (f a).bind g := by
  induction i with
  | done => rfl
  | write event next ih => simp only [bind, ih]
  | read next ih => simp only [bind]; congr; funext line; exact ih line

instance : LawfulMonad Interaction :=
  LawfulMonad.mk' Interaction bind_done (fun _ _ => rfl) bind_bind

/-- Write text on standard output. -/
def print (text : String) : Interaction Unit :=
  write (.output text) (done ())

/-- Write a line on standard error. -/
def report (message : String) : Interaction Unit :=
  write (.report message) (done ())

/-- Write a line on standard error if debugging. -/
@[inline] def trace (debug : Bool) (record : String) : Interaction Unit :=
  if debug then write (.trace record) (done ()) else done ()

end Interaction

/-- The lines of input that are left, and what was written so far. The input is text:
how it is decoded, and that it may be undecodable, is left to the system. -/
structure Console where
  pending : List String
  log : Array Event := #[]

namespace Console

/-- All that was written on standard output. -/
def output (console : Console) : String :=
  String.join (console.log.toList.map Event.outputText)

/-- All that was written on standard error. -/
def errors (console : Console) : String :=
  String.join (console.log.toList.map Event.errorText)

end Console

/-- Carry out a dialogue at a console. -/
def Interaction.run {α : Type} : Interaction α → Console → α × Console
  | done a, console => (a, console)
  | write event next, console => next.run { console with log := console.log.push event }
  | read next, ⟨[], log⟩ => (next none).run ⟨[], log⟩
  | read next, ⟨line :: rest, log⟩ => (next (some line)).run ⟨rest, log⟩

namespace Interaction

variable {α β : Type}

theorem run_bind (i : Interaction α) (f : α → Interaction β) (console : Console) :
    (i.bind f).run console = (f (i.run console).1).run (i.run console).2 := by
  induction i generalizing console with
  | done => rfl
  | write event next ih => exact ih _
  | read next ih =>
    rcases console with ⟨_ | ⟨line, rest⟩, log⟩
    · exact ih none _
    · exact ih (some line) _

/-- No dialogue puts lines back. -/
theorem run_pending_le (i : Interaction α) (console : Console) :
    (i.run console).2.pending.length ≤ console.pending.length := by
  induction i generalizing console with
  | done => exact Nat.le_refl _
  | write event next ih => exact ih _
  | read next ih =>
    rcases console with ⟨_ | ⟨line, rest⟩, log⟩
    · exact ih none _
    · exact Nat.le_succ_of_le (ih (some line) _)

end Interaction

end Calc
