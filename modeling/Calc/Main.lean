/-
# The program

Arguments, files and the console of the system. Everything that is decided is
decided by `CommandLine.task`; here its dialogues are held with the real console.
-/

import Calc.CommandLine.Command

namespace Calc

/-- Write to the console of the system. -/
def Event.perform (event : Event) : IO Unit := do
  let out ← IO.getStdout
  let err ← IO.getStderr
  out.putStr event.outputText
  out.flush
  err.putStr event.errorText
  err.flush

/-- The next line of standard input, without its line feed; none at the end. -/
def readStandardInput : IO (Option String) := do
  let line ← (← IO.getStdin).getLine
  if line.isEmpty then return none
  else if line.toList.getLast? = some '\n' then return some (String.ofList line.toList.dropLast)
  else return some line

/-- Hold a dialogue with the console of the system. -/
def Interaction.perform {α : Type} : Interaction α → IO α
  | done a => return a
  | write event next => do
      event.perform
      next.perform
  | read next => do
      let line ← readStandardInput
      (next line).perform

/-- The turns of the shell, for as long as there is input. -/
partial def Shell.perform (session : Session) : IO Unit := do
  let (after, goOn) ← (Shell.turn session).perform
  if goOn then Shell.perform after

/-- What the system finds under a path. That a path goes through a file shows when
it is opened, and the error then names the path; that it is a directory shows only
when it is read. -/
def Document.load (path : String) : IO Document := do
  try
    let bytes ← IO.FS.readBinFile path
    return .file bytes.toList
  catch e =>
    match e with
    | .noFileOrDirectory .. => return .missing
    | .inappropriateType none .. => return .directory
    | .inappropriateType (some _) .. =>
        return if path.endsWith "/" then .slashedFile else .belowFile
    | .invalidArgument .. =>
        return if isMalformedPath path then .missing else .nameTooLong
    | other => throw other

/-- The exit status of a command that ended. A failure that was not reported yet
is reported now. -/
def Ending.perform : Ending → IO UInt32
  | .finished => return 0
  | .exit status => return status.toUInt32
  | .failed e => do
      (← IO.getStderr).putStrLn e.message
      return 1

/-- Run the command with the console and the files of the system. -/
def CommandLine.perform (arguments : List String) : IO UInt32 := do
  let document ←
    match CommandLine.scriptPath? arguments with
    | some path => Document.load path
    | none => pure .missing
  match CommandLine.task arguments fun _ => document with
  | .shell debug =>
      (Shell.banner debug).perform
      Shell.perform { debug }
      return 0
  | .dialogue steps => do
      let ending ← steps.perform
      ending.perform

end Calc

def main (arguments : List String) : IO UInt32 :=
  Calc.CommandLine.perform arguments
