/-
# Command line arguments

Six options and at most one script may be given. A long option may be shortened
as far as it stays the only one with that beginning; short options may be joined
behind one hyphen. After `--` every argument is a script. Arguments are first
told apart one by one, and then used from left to right, so that the options for
help and for the version take effect before anything wrong that follows them.
-/

import Calc.Text.DecimalDigit
import Calc.Text.Quoted

namespace Calc.CommandLine

/-- What an option stands for. -/
inductive Flag where
  | help
  | interactive
  | parse
  | analyze
  | debug
  | version
  deriving DecidableEq, Repr

/-- The spellings of all options. -/
def spellings : List (String × Flag) :=
  [("-h", .help), ("--help", .help), ("-i", .interactive), ("--interactive", .interactive),
    ("--parse", .parse), ("--analyze", .analyze), ("--debug", .debug), ("--version", .version)]

/-- The option with exactly this spelling. -/
def flag? (spelling : String) : Option Flag :=
  (spellings.find? (·.1 = spelling)).map Prod.snd

/-- All spellings of an option, as they are named in errors. -/
def Flag.title (flag : Flag) : String :=
  "/".intercalate ((spellings.filter (·.2 = flag)).map Prod.fst)

/-- Why arguments are refused. -/
inductive Misuse where
  /-- a shortened option may stand for several -/
  | ambiguous (argument : String) (candidates : List String)
  /-- a value is attached to an option, and none takes one -/
  | attachedValue (flag : Flag) (value : String)
  /-- arguments that are neither options nor the script -/
  | unrecognized (arguments : List String)
  deriving DecidableEq, Repr

/-- The text of the error. -/
def Misuse.message : Misuse → String
  | ambiguous argument candidates =>
      "ambiguous option: " ++ argument ++ " could match " ++ ", ".intercalate candidates
  | attachedValue flag value =>
      "argument " ++ flag.title ++ ": ignored explicit argument " ++ Text.quoted value
  | unrecognized arguments => "unrecognized arguments: " ++ " ".intercalate arguments

/-- What a single argument is. -/
inductive Argument where
  /-- an option with one hyphen or two, and the text attached to it -/
  | option (flag : Flag) (long : Bool) (attached : Option (List Char))
  | unknown (text : String)
  | plain (text : String)
  /-- the first `--` -/
  | separator
  deriving DecidableEq, Repr

/-- Whether an argument that starts with a hyphen is a negative number, with
digits of any script, an optional point, and a line feed at most at its end. -/
def isNegativeNumber (argument : List Char) : Bool :=
  let isDigit := fun c => (Text.digitValue? c).isSome
  let body := argument.drop 1
  let number := if body.getLast? = some '\n' then body.dropLast else body
  let whole := number.takeWhile isDigit
  match number.dropWhile isDigit with
  | [] => !whole.isEmpty
  | '.' :: fraction => !fraction.isEmpty && fraction.all isDigit
  | _ => false

/-- The text before the first equals sign, and the text after it if there is one. -/
def splitAtEquals (s : List Char) : List Char × Option (List Char) :=
  match s.dropWhile (· != '=') with
  | [] => (s, none)
  | _ :: after => (s.takeWhile (· != '='), some after)

/-- The options that an argument may abbreviate, or start with. -/
def candidates (s : List Char) : List (String × Argument) :=
  match s with
  | '-' :: '-' :: _ =>
      let (start, attached) := splitAtEquals s
      (spellings.filter fun (spelling, _) => start.isPrefixOf spelling.toList).map
        fun (spelling, flag) => (spelling, .option flag true attached)
  | _ =>
      (spellings.filter fun (spelling, _) => spelling.toList = s.take 2).map
        fun (spelling, flag) => (spelling, .option flag false (some (s.drop 2)))

/-- Tell what an argument is, other than the first `--`. -/
def classify (argument : String) : Except Misuse Argument :=
  let s := argument.toList
  let isLong := fun (spelling : List Char) => ['-', '-'].isPrefixOf spelling
  let (start, attached) := splitAtEquals s
  match s with
  | [] | ['-'] => .ok (.plain argument)
  | '-' :: _ =>
      match flag? argument, attached, flag? (String.ofList start) with
      | some flag, _, _ => .ok (.option flag (isLong s) none)
      | none, some value, some flag => .ok (.option flag (isLong start) (some value))
      | none, _, _ =>
          match candidates s with
          | [(_, option)] => .ok option
          | [] =>
              if isNegativeNumber s || s.contains ' ' then .ok (.plain argument)
              else .ok (.unknown argument)
          | several => .error (.ambiguous argument (several.map Prod.fst))
  | _ => .ok (.plain argument)

/-- Tell what all arguments are; those after the first `--` are plain. -/
def classifyAll : List String → Except Misuse (List Argument)
  | [] => .ok []
  | argument :: rest =>
      if argument = "--" then .ok (.separator :: rest.map .plain)
      else do
        let first ← classify argument
        return first :: (← classifyAll rest)

/-- A short option, and the further short options that are written behind it. -/
def shortFlags (flag : Flag) : List Char → Except Misuse (List Flag)
  | [] => .ok [flag]
  | c :: rest =>
      match flag? (String.ofList ['-', c]) with
      | none => .error (.attachedValue flag (String.ofList (c :: rest)))
      | some next => do
          let others ← shortFlags next rest
          return flag :: others

/-- The options that are joined in one argument. Only a short option may have
text attached to it, and that text has to be further short options. -/
def joinedFlags (flag : Flag) (long : Bool) (attached : Option (List Char)) :
    Except Misuse (List Flag) :=
  match attached with
  | none => .ok [flag]
  | some text =>
      if long ∨ text = [] then .error (.attachedValue flag (String.ofList text))
      else shortFlags flag text

/-- What the arguments ask for. -/
structure Options where
  script : Option String := none
  interactive : Bool := false
  parse : Bool := false
  analyze : Bool := false
  debug : Bool := false
  deriving DecidableEq, Repr

/-- What to do about the arguments as a whole. -/
inductive Request where
  | help
  | version
  | refuse (misuse : Misuse)
  | proceed (options : Options)
  deriving DecidableEq, Repr

/-- Note options from left to right. The first one that asks for help or for the
version decides the request. -/
def Options.note (options : Options) : List Flag → Except Request Options
  | [] => .ok options
  | .help :: _ => .error .help
  | .version :: _ => .error .version
  | .interactive :: rest => { options with interactive := true }.note rest
  | .parse :: rest => { options with parse := true }.note rest
  | .analyze :: rest => { options with analyze := true }.note rest
  | .debug :: rest => { options with debug := true }.note rest

/-- Whether the script was given yet. -/
inductive ScriptState where
  | awaited
  /-- it is the argument just used -/
  | justGiven
  | given
  deriving DecidableEq, Repr

/-- The state after an argument that is not the script. -/
def ScriptState.next : ScriptState → ScriptState
  | awaited => awaited
  | justGiven => given
  | given => given

/-- Use the arguments from left to right. The first plain one is the script, and a
separator next to it is dropped; all other plain arguments are left over, as
unknown ones are. -/
def useArguments (options : Options) (script : ScriptState) (leftover : List String) :
    List Argument → Request
  | [] => if leftover.isEmpty then .proceed options else .refuse (.unrecognized leftover)
  | .option flag long attached :: rest =>
      match joinedFlags flag long attached with
      | .error misuse => .refuse misuse
      | .ok flags =>
          match options.note flags with
          | .error request => request
          | .ok noted => useArguments noted script.next leftover rest
  | .unknown text :: rest => useArguments options script.next (leftover ++ [text]) rest
  | .plain text :: rest =>
      if script = .awaited then
        useArguments { options with script := some text } .justGiven leftover rest
      else useArguments options .given (leftover ++ [text]) rest
  | .separator :: rest =>
      if script = .given then useArguments options .given (leftover ++ ["--"]) rest
      else useArguments options script leftover rest

/-- What a list of arguments asks for. -/
def Request.ofArguments (arguments : List String) : Request :=
  match classifyAll arguments with
  | .error misuse => .refuse misuse
  | .ok told => useArguments {} .awaited [] told

end Calc.CommandLine
