/-
# Failures of the command

A script may be missing, may be no file or no text, its text may be no program, and a name
in it may be unknown. In every mode all this is reported before anything is printed, and
the command ends with status 1, with two exceptions. A script that is run is expected to
be a file if it is there at all, and no mode expects a name that is longer than the system
allows: then the error of the system is passed on to the caller.
-/

import Calc.Proofs.CommandLine.Modes
import Calc.Proofs.Session.Transcript

namespace Calc

/-- Without debugging, a turn writes nothing but prompts on standard error. -/
theorem Console.errors_of_turn {console : Console}
    (h : ∀ event ∈ console.log.toList, Event.OfTurn false event) :
    ∃ prompts, console.errors = String.join (List.replicate prompts inputPrompt) := by
  rw [errors]
  generalize console.log.toList = events at h
  induction events with
  | nil => exact ⟨0, rfl⟩
  | cons event events ih =>
      rw [List.forall_mem_cons] at h
      rcases ih h.2 with ⟨prompts, ih⟩
      rw [List.map_cons, String.join_cons, ih]
      cases h.1 with
      | line text => exact ⟨prompts, String.empty_append⟩
      | prompt => exact ⟨prompts + 1, String.join_cons.symm⟩
      | trace record hdebug => cases hdebug

namespace CommandLine

/-- What the command can do with a script. -/
inductive Mode where
  | run
  | parse
  | analyze
  deriving DecidableEq, Repr

namespace Mode

/-- How the command is asked to do so. -/
def arguments (path : String) : Mode → List String
  | run => [path]
  | parse => ["--parse", path]
  | analyze => ["--analyze", path]

/-- What is done with a script that is there. -/
def start (path : String) (document : Document) : Mode → Interaction Ending
  | run => Script.run false path document
  | parse => Script.showParsed false path document
  | analyze => Script.showResolved false path document

/-- The error of the system that the command does not expect in a mode. -/
def unexpected? (path : String) (document : Document) (mode : Mode) : Option FileError :=
  if isMalformedPath path then none
  else
    match document, mode with
    | .nameTooLong, _ => some (.nameTooLong path)
    | .directory, run => some (.directory path)
    | .slashedFile, run => some (.notDirectory path)
    | _, _ => none

end Mode

/-- How the command should end. Either it is finished, with nothing but prompts for numbers
on standard error, or it ends with status 1, with nothing but a message on standard error. -/
inductive Reported (outcome : Ending × Console) : Prop
  | finished (hending : outcome.1 = .finished) (prompts : Nat)
      (herrors : outcome.2.errors = String.join (List.replicate prompts inputPrompt))
  | refused (hending : outcome.1 = .exit 1) (houtput : outcome.2.output = "")
      (message : String) (hne : message ≠ "") (herrors : outcome.2.errors = message ++ "\n")

section Stages

variable {path source : String} {document : Document} {pending : List String}

theorem reported_fail {message : String} (hne : message ≠ "") :
    Reported ((Script.fail false message).run { pending }) := by
  rcases @run_fail pending message with ⟨hending, houtput, herrors⟩
  exact .refused hending houtput message hne herrors

theorem reported_failParse (e : ParseError) :
    Reported ((Script.failParse false path e).run { pending }) :=
  reported_fail (by simp)

theorem reported_failName (e : NameError) :
    Reported ((Script.failName false path e).run { pending }) :=
  reported_fail (by simp)

/-- The run of a text ends as it should. Nothing goes wrong once its names are resolved. -/
theorem reported_run_of_source (hsource : document.source path = .ok source) :
    Reported ((Script.run false path document).run { pending }) := by
  cases hread : Program.complete source with
  | error e =>
      rw [(Script.modes_of_parse_error hsource hread).1]
      exact reported_failParse e
  | ok program =>
      cases hname : (Program.resolve ∅ program).error with
      | some e =>
          rw [(Script.modes_of_name_error hsource hread hname).1]
          exact reported_failName e
      | none =>
          have hturn := @Interaction.Writes.run _ _ _ (writes_runSource false source) { pending }
            (by simp)
          rcases Console.errors_of_turn hturn with ⟨prompts, hprompts⟩
          rcases @runSource_of_resolved false source { pending } program hread hname with
            ⟨table, htable, -⟩
          apply Reported.finished (Script.run_of_resolved hsource hread hname _) prompts
          simp only [Script.run, hsource, Interaction.run_then, htable]
          exact hprompts

/-- So does showing a program as it was read. -/
theorem reported_showParsed_of_source (hsource : document.source path = .ok source) :
    Reported ((Script.showParsed false path document).run { pending }) := by
  cases hread : Program.complete source with
  | error e =>
      rw [(Script.modes_of_parse_error hsource hread).2.1]
      exact reported_failParse e
  | ok program =>
      rw [Script.showParsed_of_complete hsource hread]
      exact .finished rfl 0 rfl

/-- So does showing it with its names resolved. -/
theorem reported_showResolved_of_source (hsource : document.source path = .ok source) :
    Reported ((Script.showResolved false path document).run { pending }) := by
  cases hread : Program.complete source with
  | error e =>
      rw [(Script.modes_of_parse_error hsource hread).2.2]
      exact reported_failParse e
  | ok program =>
      cases hname : (Program.resolve ∅ program).error with
      | some e =>
          rw [(Script.modes_of_name_error hsource hread hname).2]
          exact reported_failName e
      | none =>
          simp only [Script.showResolved, hsource, Program.read_quiet, hread, pure_bind,
            Resolution.trace_quiet, hname]
          exact .finished rfl 0 rfl

theorem reported_start_of_source (mode : Mode) (hsource : document.source path = .ok source) :
    Reported ((mode.start path document).run { pending }) := by
  cases mode with
  | run => exact reported_run_of_source hsource
  | parse => exact reported_showParsed_of_source hsource
  | analyze => exact reported_showResolved_of_source hsource

end Stages

/-- The command starts with what is asked for if there is a script. -/
theorem run_arguments {path : String} (hne : path ≠ "") (hstart : path.toList.head? ≠ some '-')
    (mode : Mode) (disk : String → Document) (console : Console) :
    run (mode.arguments path) disk console =
      (match (disk path).isPresent path with
        | .error e => (.failed (.file e), console)
        | .ok false => (Script.fail false
            ("Error: Script file '" ++ path ++ "' does not exist")).run console
        | .ok true => (mode.start path (disk path)).run console) := by
  cases mode with
  | run =>
      rw [Mode.arguments, run_onScript hne (ofArguments_script hne hstart) rfl rfl, onScript]
      rcases (disk path).isPresent path with e | (_ | _) <;> rfl
  | parse =>
      rw [Mode.arguments, run_onScript hne (ofArguments_parse hne hstart) rfl rfl, onScript]
      rcases (disk path).isPresent path with e | (_ | _) <;> rfl
  | analyze =>
      rw [Mode.arguments, run_onScript hne (ofArguments_analyze hne hstart) rfl rfl, onScript]
      rcases (disk path).isPresent path with e | (_ | _) <;> rfl

section Documents

variable {path : String} {document : Document} {mode : Mode} {pending : List String}

/-- A script without a text is reported, by a mode that expects it to be so. -/
theorem reported_start_of_unreadable {e : SourceError} (hsource : document.source path = .error e)
    (hmalformed : e ≠ .file .malformedPath) (hrun : mode = .run → ∃ error, e = .encoding error) :
    Reported ((mode.start path document).run { pending }) := by
  have hread : Reported ((Script.failRead false path e).run { pending }) := by
    rw [Script.failRead.eq_2 false path e (fun h => hmalformed h)]
    exact reported_fail (by simp)
  cases mode with
  | run =>
      rcases hrun rfl with ⟨error, rfl⟩
      simp only [Mode.start, Script.run, hsource]
      exact reported_fail (by simp)
  | parse =>
      simp only [Mode.start, Script.showParsed, hsource]
      exact hread
  | analyze =>
      simp only [Mode.start, Script.showResolved, hsource]
      exact hread

/-- What cannot even be looked for is not expected by any mode. -/
theorem unexpected?_of_isPresent_error {error : FileError}
    (hpresent : document.isPresent path = .error error) :
    mode.unexpected? path document = some error := by
  cases hpath : isMalformedPath path with
  | true => simp [Document.isPresent, hpath] at hpresent
  | false =>
      simp only [Document.isPresent, Mode.unexpected?, hpath] at hpresent ⊢
      cases document <;> cases hpresent
      rfl

/-- That there is no script is expected by every mode. -/
theorem unexpected?_of_isPresent_false (hpresent : document.isPresent path = .ok false) :
    mode.unexpected? path document = none := by
  cases hpath : isMalformedPath path with
  | true => simp [Mode.unexpected?, hpath]
  | false =>
      simp only [Document.isPresent, Mode.unexpected?, hpath] at hpresent ⊢
      cases document <;> cases hpresent <;> rfl

theorem isMalformedPath_of_isPresent (hpresent : document.isPresent path = .ok true) :
    isMalformedPath path = false := by
  cases hpath : isMalformedPath path with
  | true => simp [Document.isPresent, hpath] at hpresent
  | false => rfl

/-- A script that is there is dealt with as it should, unless it is not expected to be what
it is. -/
theorem reported_start (hpresent : document.isPresent path = .ok true)
    (hexpected : mode.unexpected? path document = none) :
    Reported ((mode.start path document).run { pending }) := by
  have hpath := isMalformedPath_of_isPresent hpresent
  simp only [Document.isPresent, Mode.unexpected?, hpath] at hpresent hexpected
  cases document with
  | missing => cases hpresent
  | belowFile => cases hpresent
  | nameTooLong => cases hpresent
  | directory =>
      have hsource : Document.directory.source path = .error (.file (.directory path)) := by
        simp [Document.source, Document.bytes, hpath]
      apply reported_start_of_unreadable hsource (by simp)
      rintro rfl
      cases hexpected
  | slashedFile =>
      have hsource : Document.slashedFile.source path = .error (.file (.notDirectory path)) := by
        simp [Document.source, Document.bytes, hpath]
      apply reported_start_of_unreadable hsource (by simp)
      rintro rfl
      cases hexpected
  | file bytes =>
      have hbytes : (Document.file bytes).bytes path = .ok bytes := by
        simp [Document.bytes, hpath]
      cases hutf8 : Text.decodeUtf8 bytes with
      | error error =>
          have hsource : (Document.file bytes).source path = .error (.encoding error) := by
            simp only [Document.source, hbytes, hutf8]
          exact reported_start_of_unreadable hsource (by simp) fun _ => ⟨error, rfl⟩
      | ok text =>
          have hsource : (Document.file bytes).source path =
              .ok (String.ofList (Text.unifyBreaks text)) := by
            simp only [Document.source, hbytes, hutf8]
          exact reported_start_of_source mode hsource

/-- What the mode does not expect ends it at once. -/
theorem run_start_of_unexpected {error : FileError}
    (hpresent : document.isPresent path = .ok true)
    (herror : mode.unexpected? path document = some error) :
    (mode.start path document).run { pending } = (.failed (.file error), { pending }) := by
  have hpath := isMalformedPath_of_isPresent hpresent
  have hrun : mode = .run ∧ document.source path = .error (.file error) ∧
      ∀ name, error ≠ .missing name := by
    simp only [Document.isPresent, Mode.unexpected?, hpath] at hpresent herror
    cases document with
    | missing => cases hpresent
    | belowFile => cases hpresent
    | nameTooLong => cases hpresent
    | file bytes => cases mode <;> cases herror
    | directory =>
        cases mode <;> cases herror
        simp [Document.source, Document.bytes, hpath]
    | slashedFile =>
        cases mode <;> cases herror
        simp [Document.source, Document.bytes, hpath]
  rcases hrun with ⟨rfl, hsource, hmissing⟩
  simp only [Mode.start, Script.run, hsource]
  rw [Script.failRun.eq_2 false path error hmissing]
  rfl

end Documents

/-- A command ends as it should or by what its mode does not expect. -/
theorem reported_or_unexpected {path : String} (hne : path ≠ "")
    (hstart : path.toList.head? ≠ some '-') (mode : Mode) (disk : String → Document)
    (pending : List String) :
    (mode.unexpected? path (disk path) = none ∧
      Reported (run (mode.arguments path) disk { pending })) ∨
    ∃ error, mode.unexpected? path (disk path) = some error ∧
      run (mode.arguments path) disk { pending } = (.failed (.file error), { pending }) := by
  rw [run_arguments hne hstart]
  cases hpresent : (disk path).isPresent path with
  | error e => exact .inr ⟨e, unexpected?_of_isPresent_error hpresent, rfl⟩
  | ok present =>
      cases present with
      | false => exact .inl ⟨unexpected?_of_isPresent_false hpresent, reported_fail (by simp)⟩
      | true =>
          cases hunexpected : mode.unexpected? path (disk path) with
          | none => exact .inl ⟨rfl, reported_start hpresent hunexpected⟩
          | some error => exact .inr ⟨error, rfl, run_start_of_unexpected hpresent hunexpected⟩

/-- Every failure of a script is reported, in every mode, but for those of the system that
the mode does not expect. These end the command, which has written nothing. -/
theorem run_reports_unless_unexpected {path : String} (hne : path ≠ "")
    (hstart : path.toList.head? ≠ some '-') (mode : Mode) (disk : String → Document)
    (pending : List String) :
    let outcome := run (mode.arguments path) disk { pending }
    (Reported outcome ↔ mode.unexpected? path (disk path) = none) ∧
    ∀ error, mode.unexpected? path (disk path) = some error →
      outcome = (.failed (.file error), { pending }) := by
  intro outcome
  rcases reported_or_unexpected hne hstart mode disk pending with
    ⟨hnone, hreported⟩ | ⟨error, hsome, houtcome⟩
  · rw [hnone]
    exact ⟨iff_of_true hreported rfl, fun error h => by cases h⟩
  · have hnot : ¬ Reported outcome := by
      intro hreported
      rw [show outcome = _ from houtcome] at hreported
      cases hreported with
      | finished hending => cases hending
      | refused hending => cases hending
    rw [hsome]
    refine ⟨iff_of_false hnot (by simp), fun other h => ?_⟩
    cases h
    exact houtcome

/-- A script that is run and has an unknown name is reported, and a directory is where it
is to be shown. -/
theorem run_reports_unknown_name :
    let disk := fun path => if path = "d" then Document.directory else .file [0x3E, 0x61]
    Reported (run (Mode.run.arguments "s") disk { pending := ["2"] }) ∧
      Reported (run (Mode.parse.arguments "d") disk { pending := [] }) := by
  intro disk
  exact ⟨(run_reports_unless_unexpected (by decide) (by decide) .run disk ["2"]).1.mpr rfl,
    (run_reports_unless_unexpected (by decide) (by decide) .parse disk []).1.mpr rfl⟩

/-- That a directory is to be run is not reported. -/
theorem run_directory_not_reported :
    ¬ ∀ (path : String) (mode : Mode) (disk : String → Document) (pending : List String),
      path ≠ "" → path.toList.head? ≠ some '-' →
      Reported (run (mode.arguments path) disk { pending }) := by
  intro h
  cases h "d" .run (fun _ => .directory) [] (by decide) (by decide) with
  | finished hending => exact absurd hending (by decide)
  | refused hending => exact absurd hending (by decide)

end CommandLine

end Calc
