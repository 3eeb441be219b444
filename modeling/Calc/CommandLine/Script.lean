/-
# Scripts

A script is a file that holds a program. It can be run, its program can be shown
as it was read, or shown with its names resolved. A script that fails is reported
on standard error and ends the command with status 1; nothing but a script that
is run reads standard input.
-/

import Calc.Session
import Calc.Text.Utf8

namespace Calc

/-- What is found under a path. There are no permissions: what is found can be read,
unless it is no file. -/
inductive Document where
  | missing
  | directory
  /-- a file whose name is followed by a slash: it exists, but the slash keeps it
  from being read -/
  | slashedFile
  /-- nothing, because the path goes on below a file -/
  | belowFile
  /-- a name in the path is longer than the system allows -/
  | nameTooLong
  | file (bytes : List UInt8)

/-- Why nothing can be read from a path. -/
inductive FileError where
  | missing (path : String)
  | directory (path : String)
  | notDirectory (path : String)
  | nameTooLong (path : String)
  /-- the path holds the character U+0000 -/
  | malformedPath
  deriving DecidableEq, Repr

/-- The text of the error, with the number of the system error if it is one. -/
def FileError.message : FileError → String
  | missing path => "[Errno 2] No such file or directory: " ++ Text.quoted path
  | directory path => "[Errno 21] Is a directory: " ++ Text.quoted path
  | notDirectory path => "[Errno 20] Not a directory: " ++ Text.quoted path
  | nameTooLong path => "[Errno 36] File name too long: " ++ Text.quoted path
  | malformedPath => "embedded null byte"

/-- Why there is no source text. -/
inductive SourceError where
  | file (error : FileError)
  | encoding (error : Text.Utf8Error)
  deriving DecidableEq, Repr

/-- The text of the error. -/
def SourceError.message : SourceError → String
  | file error => error.message
  | encoding error => error.message

/-- Whether a path holds the character U+0000, which no path may. -/
def isMalformedPath (path : String) : Bool :=
  path.toList.contains '\x00'

/-- Whether there is something under a path, unless that cannot be found out. A
slash behind the name of a file is overlooked. -/
def Document.isPresent (path : String) (document : Document) : Except FileError Bool :=
  if isMalformedPath path then .ok false
  else
    match document with
    | .missing | .belowFile => .ok false
    | .directory | .slashedFile | .file _ => .ok true
    | .nameTooLong => .error (.nameTooLong path)

/-- The bytes of a file. -/
def Document.bytes (path : String) (document : Document) : Except FileError (List UInt8) :=
  if isMalformedPath path then .error .malformedPath
  else
    match document with
    | .missing => .error (.missing path)
    | .directory => .error (.directory path)
    | .slashedFile | .belowFile => .error (.notDirectory path)
    | .nameTooLong => .error (.nameTooLong path)
    | .file bytes => .ok bytes

/-- The source text of a script: UTF-8, with line breaks of any kind. -/
def Document.source (path : String) (document : Document) : Except SourceError String :=
  match document.bytes path with
  | .error e => .error (.file e)
  | .ok bytes =>
      match Text.decodeUtf8 bytes with
      | .error e => .error (.encoding e)
      | .ok text => .ok (String.ofList (Text.unifyBreaks text))

/-- Failures that are not reported but passed on to the caller. -/
inductive Failure where
  | file (error : FileError)
  | run (error : RunError)
  deriving DecidableEq, Repr

/-- The text of the failure. -/
def Failure.message : Failure → String
  | file error => error.message
  | run error => error.message

/-- How a command ends. -/
inductive Ending where
  | finished
  | exit (status : Nat)
  /-- by a failure that is left to the caller -/
  | failed (error : Failure)
  deriving DecidableEq, Repr

namespace Script

/-- Report a failure and end with status 1. When debugging, the calls that led to
the failure are pointed out in a line of their own. -/
def fail (debug : Bool) (message : String) : Interaction Ending := do
  Interaction.report message
  if debug then Interaction.report "<traceback>"
  return .exit 1

/-- Report that the text of a script is no program. -/
def failParse (debug : Bool) (path : String) (e : ParseError) : Interaction Ending :=
  fail debug ("Parse error in '" ++ path ++ "': " ++ e.message)

/-- Report that a name in a script cannot be resolved. -/
def failName (debug : Bool) (path : String) (e : NameError) : Interaction Ending :=
  fail debug ("Semantic analysis error in '" ++ path ++ "': " ++ e.message)

/-- Report that a script that is to be shown has no text. -/
def failRead (debug : Bool) (path : String) : SourceError → Interaction Ending
  | .file .malformedPath => return .failed (.file .malformedPath)
  | e => fail debug ("Error: Cannot read '" ++ path ++ "': " ++ e.message)

/-- Report that a script that is to be run has no text. Of the ways in which a
path can be no file, only its absence is reported. -/
def failRun (debug : Bool) (path : String) : SourceError → Interaction Ending
  | .file (.missing _) => fail debug ("Error: Script file '" ++ path ++ "' not found")
  | .file e => return .failed (.file e)
  | .encoding e => fail debug ("Error: Cannot decode file '" ++ path ++ "': " ++ e.message)

/-- Run a script. When debugging, its variables are listed at the end. -/
def run (debug : Bool) (path : String) (document : Document) : Interaction Ending :=
  match document.source path with
  | .error e => failRun debug path e
  | .ok source => do
      match ← runSource debug source with
      | .error (.parse e) => failParse debug path e
      | .error (.name e) => failName debug path e
      | .error (.run e) => return .failed (.run e)
      | .ok table =>
          if debug then Interaction.report table.listing
          return .finished

/-- Show the program of a script. -/
def showParsed (debug : Bool) (path : String) (document : Document) : Interaction Ending :=
  match document.source path with
  | .error e => failRead debug path e
  | .ok source => do
      match ← Program.read debug source with
      | .error e => failParse debug path e
      | .ok program =>
          Interaction.print ("Parsed " ++ toString program.length ++ " statements:\n")
          Interaction.print program.outline
          return .finished

/-- The slots of a table, one to a line, with their names. -/
def slotLines (table : SymbolTable) : String :=
  String.join (table.names.zipIdx.map fun (name, slot) =>
    "  " ++ toString slot ++ ": " ++ name ++ "\n")

/-- Show the program of a script with its names resolved, and the slots of its
variables. -/
def showResolved (debug : Bool) (path : String) (document : Document) : Interaction Ending :=
  match document.source path with
  | .error e => failRead debug path e
  | .ok source => do
      match ← Program.read debug source with
      | .error e => failParse debug path e
      | .ok program =>
          let resolution := program.resolve ∅
          resolution.trace debug (·.toNode.inline) program
          match resolution.error with
          | some e => failName debug path e
          | none =>
              Interaction.print
                ("Resolved " ++ toString resolution.resolved.length ++ " statements:\n")
              Interaction.print resolution.resolved.outline
              Interaction.print ("Slots (" ++ toString resolution.table.size ++ "):\n")
              Interaction.print (slotLines resolution.table)
              return .finished

end Script

end Calc
