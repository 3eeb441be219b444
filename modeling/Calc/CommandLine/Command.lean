/-
# The command

Without any argument the command is the interactive shell. A script that is given
is run or shown, whatever else is asked for; without one, the shell is started on
demand, and otherwise the help is printed.
-/

import Calc.CommandLine.Arguments
import Calc.CommandLine.Script
import Calc.Shell

namespace Calc.CommandLine

/-- The name and the version of the command. -/
def version : String := "Calc v0.1.0"

/-- How the command is called. -/
def usage : String :=
  "usage: calc [-h] [-i] [--parse] [--analyze] [--debug] [--version] [script]\n"

/-- The help text. -/
def help : String :=
  usage ++ "\n".intercalate
    ["",
      "Calc - declare, read, compute and print floating point variables",
      "",
      "positional arguments:",
      "  script             Calc script file to execute",
      "",
      "options:",
      "  -h, --help         show this help message and exit",
      "  -i, --interactive  Start interactive mode",
      "  --parse            Parse file and show the syntax tree (for debugging)",
      "  --analyze          Parse and analyze file, show the resolved tree (for",
      "                     debugging)",
      "  --debug            Enable debug output for all stages",
      "  --version          show program's version number and exit",
      "",
      "Examples:",
      "  calc script.calc            # Run a Calc script",
      "  calc -i                     # Interactive mode",
      "  calc --parse script.calc    # Parse and show the syntax tree",
      "  calc --analyze script.calc  # Parse, resolve names and show the resolved tree",
      "  calc --debug script.calc    # Run with debug output on stderr",
      "        ",
      ""]

/-- What a call of the command comes to: a finite dialogue, or the shell, which
goes on for as long as there is input. -/
inductive Task where
  | dialogue (steps : Interaction Ending)
  | shell (debug : Bool)

/-- Report a misuse of the command, with a reminder of its usage. -/
def refuse (misuse : Misuse) : Interaction Ending := do
  Interaction.report (usage ++ "calc: error: " ++ misuse.message)
  return .exit 2

/-- Print a text and end. -/
def answer (text : String) (ending : Ending) : Interaction Ending := do
  Interaction.print text
  return ending

/-- Deal with the script that was asked for. -/
def onScript (options : Options) (path : String) (document : Document) : Interaction Ending :=
  match document.isPresent path with
  | .error e => return .failed (.file e)
  | .ok false => Script.fail false ("Error: Script file '" ++ path ++ "' does not exist")
  | .ok true =>
      if options.parse then Script.showParsed options.debug path document
      else if options.analyze then Script.showResolved options.debug path document
      else Script.run options.debug path document

/-- The script that arguments name, if they name one. The empty path is none. -/
def scriptPath? (arguments : List String) : Option String :=
  match Request.ofArguments arguments with
  | .proceed options => options.script.filter (· ≠ "")
  | _ => none

/-- What to do about the arguments, given what is found under a path. -/
def task (arguments : List String) (disk : String → Document) : Task :=
  match Request.ofArguments arguments with
  | .help => .dialogue (answer help (.exit 0))
  | .version => .dialogue (answer (version ++ "\n") (.exit 0))
  | .refuse misuse => .dialogue (refuse misuse)
  | .proceed options =>
      if arguments.isEmpty then .shell false
      else
        match options.script.filter (· ≠ "") with
        | some path => .dialogue (onScript options path (disk path))
        | none =>
            if options.interactive then .shell options.debug
            else .dialogue (answer help .finished)

/-- Run the command at a console. -/
def run (arguments : List String) (disk : String → Document) (console : Console) :
    Ending × Console :=
  match task arguments disk with
  | .dialogue steps => steps.run console
  | .shell debug => (.finished, (Shell.run debug console).2)

end Calc.CommandLine
