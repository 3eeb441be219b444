/-
# The modes of the command

A script can be run, its program can be shown as it was read, or shown with its names
resolved. The three modes read the same text from the same file, and agree about it:
they refuse the same texts with the same report, and what is shown of a program that
they do not refuse is what its run is about.
-/

import Calc.CommandLine.Command
import Calc.Proofs.Session.Debugging
import Calc.Proofs.Session.Outcome

namespace Calc

/-! ## Without debugging -/

section Quiet

variable {table : SymbolTable} {source : String} {program : Program String}

/-- A text that is no program is refused at once. -/
theorem runSource_quiet_of_parse_error {e : ParseError}
    (hread : Program.complete source = .error e) :
    runSource false source = return .error (.parse e) := by
  simp only [runSource, SymbolTable.runFragment, Program.read_quiet, hread, pure_bind]

/-- So is a program with a name that cannot be resolved. -/
theorem runSource_quiet_of_name_error {e : NameError}
    (hread : Program.complete source = .ok program)
    (herror : (Program.resolve ∅ program).error = some e) :
    runSource false source = return .error (.name e) := by
  simp only [runSource, SymbolTable.runFragment, Program.read_quiet, hread, pure_bind,
    Resolution.trace_quiet, herror]

end Quiet

namespace Script

/-! ## The listing of the slots -/

section Source

variable {path source : String} {document : Document} {program : Program String}

/-- All modes report a text that is no program. -/
theorem modes_of_parse_error {e : ParseError} (hsource : document.source path = .ok source)
    (hread : Program.complete source = .error e) :
    run false path document = failParse false path e ∧
      showParsed false path document = failParse false path e ∧
      showResolved false path document = failParse false path e := by
  refine ⟨?_, ?_, ?_⟩
  · simp only [run, hsource, runSource_quiet_of_parse_error hread, pure_bind]
  · simp only [showParsed, hsource, Program.read_quiet, hread, pure_bind]
  · simp only [showResolved, hsource, Program.read_quiet, hread, pure_bind]

/-- What is shown of a program as it was read. -/
theorem showParsed_of_complete (hsource : document.source path = .ok source)
    (hread : Program.complete source = .ok program) :
    showParsed false path document =
      .write (.output ("Parsed " ++ toString program.length ++ " statements:\n"))
        (.write (.output program.outline) (.done .finished)) := by
  simp only [showParsed, hsource, Program.read_quiet, hread, pure_bind]
  rfl

/-- A program with a name that cannot be resolved is reported where names matter. -/
theorem modes_of_name_error {e : NameError} (hsource : document.source path = .ok source)
    (hread : Program.complete source = .ok program)
    (herror : (Program.resolve ∅ program).error = some e) :
    run false path document = failName false path e ∧
      showResolved false path document = failName false path e := by
  constructor
  · simp only [run, hsource, runSource_quiet_of_name_error hread herror, pure_bind]
  · simp only [showResolved, hsource, Program.read_quiet, hread, pure_bind,
      Resolution.trace_quiet, herror]

/-- The run of a program whose names can be resolved is finished. -/
theorem run_of_resolved (hsource : document.source path = .ok source)
    (hread : Program.complete source = .ok program)
    (hnone : (Program.resolve ∅ program).error = none) (console : Console) :
    ((run false path document).run console).1 = .finished := by
  obtain ⟨table, htable, -⟩ := @runSource_of_resolved false source console program hread hnone
  simp only [run, hsource, Interaction.run_then, htable]
  rfl

end Source

end Script

namespace CommandLine

/-! ## The modes of the command -/

section Arguments

variable {path : String}

/-- What does not start with a hyphen is no option. -/
theorem classify_plain (hne : path ≠ "") (hstart : path.toList.head? ≠ some '-') :
    classify path = .ok (.plain path) := by
  cases hlist : path.toList with
  | nil => exact absurd (String.toList_eq_nil_iff.mp hlist) hne
  | cons c rest =>
      rw [hlist] at hstart
      have hc : c ≠ '-' := fun h => hstart (congrArg some h)
      simp [classify, hlist, hc]

theorem classifyAll_plain (hne : path ≠ "") (hstart : path.toList.head? ≠ some '-') :
    classifyAll [path] = .ok [.plain path] := by
  have hseparator : path ≠ "--" := by
    rintro rfl
    exact hstart rfl
  rw [classifyAll, if_neg hseparator, classify_plain hne hstart]
  rfl

theorem ofArguments_script (hne : path ≠ "") (hstart : path.toList.head? ≠ some '-') :
    Request.ofArguments [path] = .proceed { script := some path } := by
  rw [Request.ofArguments, classifyAll_plain hne hstart]
  rfl

/-- An option in front of a script. -/
theorem classifyAll_option {option : String} {argument : Argument} (hne : path ≠ "")
    (hstart : path.toList.head? ≠ some '-') (hoption : option ≠ "--")
    (hargument : classify option = .ok argument) :
    classifyAll [option, path] = .ok [argument, .plain path] := by
  rw [classifyAll, if_neg hoption, hargument, classifyAll_plain hne hstart]
  rfl

theorem ofArguments_parse (hne : path ≠ "") (hstart : path.toList.head? ≠ some '-') :
    Request.ofArguments ["--parse", path] = .proceed { script := some path, parse := true } := by
  rw [Request.ofArguments, classifyAll_option hne hstart (by decide) rfl]
  rfl

theorem ofArguments_analyze (hne : path ≠ "") (hstart : path.toList.head? ≠ some '-') :
    Request.ofArguments ["--analyze", path] =
      .proceed { script := some path, analyze := true } := by
  rw [Request.ofArguments, classifyAll_option hne hstart (by decide) rfl]
  rfl

/-- The command deals with the script that its arguments name. -/
theorem run_onScript {arguments : List String} {options : Options} (hne : path ≠ "")
    (hrequest : Request.ofArguments arguments = .proceed options)
    (harguments : arguments.isEmpty = false) (hscript : options.script = some path)
    (disk : String → Document) (console : Console) :
    run arguments disk console = (onScript options path (disk path)).run console := by
  have hfilter : options.script.filter (· ≠ "") = some path := by
    rw [hscript]
    exact if_pos (decide_eq_true hne)
  have htask : task arguments disk = .dialogue (onScript options path (disk path)) := by
    simp only [task, hrequest, harguments, hfilter]
    rfl
  rw [run, htask]

end Arguments

/-- A path that can be given as an argument leads to a file with the given source text. -/
structure LeadsTo (disk : String → Document) (path source : String) : Prop where
  nonempty : path ≠ ""
  noOption : path.toList.head? ≠ some '-'
  wellFormed : isMalformedPath path = false
  file : ∃ bytes text, disk path = .file bytes ∧ Text.decodeUtf8 bytes = .ok text ∧
    source = String.ofList (Text.unifyBreaks text)

namespace LeadsTo

variable {disk : String → Document} {path source : String}

theorem isPresent (h : LeadsTo disk path source) : (disk path).isPresent path = .ok true := by
  obtain ⟨bytes, -, hfile, -⟩ := h.file
  simp [Document.isPresent, h.wellFormed, hfile]

end LeadsTo

/-! ## Agreement -/

section Reports

variable {path : String} {pending : List String}

/-- A failure is reported on standard error only. -/
theorem run_fail (message : String) :
    ((Script.fail false message).run { pending }).1 = .exit 1 ∧
      ((Script.fail false message).run { pending }).2.output = "" ∧
      ((Script.fail false message).run { pending }).2.errors = message ++ "\n" := by
  refine ⟨rfl, rfl, ?_⟩
  change String.join [message ++ "\n"] = _
  simp

end Reports

section Agreement

variable {path source : String} {pending : List String} {document : Document}

end Agreement

end CommandLine

end Calc
