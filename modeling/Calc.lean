import Calc.Main
import Calc.Program.Foreign
import Calc.Proofs.Grammar.NumeralWord
import Calc.Proofs.Grammar.Spelling
import Calc.Proofs.Parser.Tokens
import Calc.Proofs.Parser.Values
import Calc.Proofs.Parser.Soundness
import Calc.Proofs.Grammar.Follow
import Calc.Proofs.Parser.Completeness
import Calc.Proofs.Parser.Acceptance
import Calc.Proofs.Console.Agreement
import Calc.Proofs.Resolution.Relation
import Calc.Proofs.Resolution.Tables
import Calc.Proofs.Resolution.Occurrences
import Calc.Proofs.Resolution.Slots
import Calc.Proofs.Grammar.Formula
import Calc.Proofs.Grammar.OpenParentheses
import Calc.Proofs.Execution.Precedence
import Calc.Proofs.Number.Value
import Calc.Proofs.Number.Rounding
import Calc.Proofs.Number.Shortest
import Calc.Proofs.Number.Words
import Calc.Proofs.Number.Entered
import Calc.Proofs.Number.Printed
import Calc.Proofs.Number.Literals
import Calc.Proofs.Execution.Interpreter
import Calc.Proofs.Execution.Refinement
import Calc.Proofs.Session.Fragment
import Calc.Proofs.Parser.Joining
import Calc.Proofs.Session.Turns
import Calc.Proofs.Session.History
import Calc.Proofs.Session.Listing
import Calc.Proofs.SymbolTable.Calls
import Calc.Proofs.Execution.Division
import Calc.Proofs.Execution.Handover
import Calc.Proofs.Execution.Frame
import Calc.Proofs.Session.Outcome
import Calc.Proofs.CommandLine.Modes
import Calc.Proofs.Console.Transcript
import Calc.Proofs.Session.Transcript
import Calc.Proofs.Execution.Answers
import Calc.Proofs.Shell.Course
import Calc.Proofs.Console.Untraced
import Calc.Proofs.Session.Debugging
import Calc.Proofs.CommandLine.Failures
import Calc.Proofs.Parser.Operands
import Calc.Proofs.Parser.LastFactor
import Calc.Proofs.Parser.Longest
import Calc.Proofs.Parser.Numerals
import Calc.Proofs.Parser.Names
import Calc.Proofs.Parser.Nesting
import Calc.Proofs.Parser.TooDeep
import Calc.Proofs.Text.Places
import Calc.Proofs.Text.Context
import Calc.Proofs.Parser.Leftover
import Calc.Proofs.SymbolTable.Renaming
import Calc.Proofs.Execution.Renaming
import Calc.Proofs.Execution.Naturality
import Calc.Proofs.Outline.Headers
import Calc.Proofs.Outline.Trees
import Calc.Proofs.Outline.Programs
