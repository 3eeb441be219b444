/-
# Failed turns

A turn that is refused, because its fragment is no program or has a name that
cannot be resolved, is as good as not taken: the session is the same as before,
and nothing was read or written, but for what is written when debugging. So the
refused turns of a session can be left out afterwards. What every other step came
to, all that it wrote, and the table that it left stay exactly what they were.
-/

import Calc.Proofs.Parser.Joining
import Calc.Proofs.Session.Fragment

namespace Calc

open Interaction (Agree)

/-- The fragment was refused before anything of it was carried out. -/
def TurnError.refused : TurnError → Bool
  | parse _ => true
  | name _ => true
  | run _ => false

namespace Session

variable {session : Session} {fragment : String}

/-- A turn that is refused looks like no turn at all. -/
theorem run_of_refused {console : Console} {error : TurnError}
    (herror : ((session.run fragment).run console).1.2 = some error)
    (hrefused : error.refused = true) :
    ((session.run fragment).run console).1.1 = session ∧
      ((session.run fragment).run console).2.visible = console.visible := by
  have hnothing : ∀ error, Agree Eq (session.run fragment) (.done (session, some error)) →
      ((session.run fragment).run console).1.1 = session ∧
        ((session.run fragment).run console).2.visible = console.visible := by
    intro error h
    obtain ⟨hresult, hvisible⟩ := h console console rfl
    rw [hresult]
    exact ⟨rfl, hvisible⟩
  cases hread : Program.complete fragment with
  | error e =>
      exact hnothing _ (run_agree_of_parse_error hread)
  | ok program =>
      cases hname : (Program.resolve session.table program).error with
      | some e =>
          exact hnothing _ (run_agree_of_name_error hread hname)
      | none =>
          -- The program was carried out, so that an error would be no refusal.
          have hturn := (run_agree_of_resolved hread hname console console rfl).1
          rw [hturn] at herror
          obtain ⟨fault, -, rfl⟩ := Option.map_eq_some_iff.mp herror
          cases hrefused

/-! ## Histories -/

/-- What can be done with a session. -/
inductive Step where
  | run (fragment : String)
  | clear
  | list
  deriving DecidableEq, Repr

/-- What a step comes to. -/
inductive Result where
  /-- a turn, with the reason why it failed if it did -/
  | turn (error : Option TurnError)
  | cleared
  /-- the listing of the variables -/
  | listing (text : String)
  deriving DecidableEq, Repr

/-- The step was a turn that was refused. -/
def Result.refused : Result → Bool
  | turn (some error) => error.refused
  | _ => false

/-- Take a step. -/
def perform (session : Session) : Step → Interaction (Session × Result)
  | .run fragment => do
      let (after, error) ← session.run fragment
      return (after, .turn error)
  | .clear => return (session.clear, .cleared)
  | .list => return (session, .listing session.table.listing)

/-- A step that was taken. -/
structure Record where
  step : Step
  result : Result
  /-- the session behind the step -/
  after : Session
  /-- what the step wrote, and the lines that it left -/
  console : Console

/-- Steps that were taken one after another, and what they left. -/
structure History where
  records : List Record
  /-- the session behind the last step -/
  final : Session
  /-- the lines that no step has read -/
  pending : List String

/-- Take a step while lines are waiting. -/
def record (session : Session) (pending : List String) (step : Step) : Record :=
  let ((after, result), console) := (session.perform step).run { pending }
  { step, result, after, console }

theorem record_step (session : Session) (pending : List String) (step : Step) :
    (session.record pending step).step = step := rfl

/-- A history with one more step in front. -/
def History.cons (first : Record) (later : History) : History :=
  { later with records := first :: later.records }

/-- Take steps one after another while lines are waiting. -/
def history (session : Session) (pending : List String) : List Step → History
  | [] => ⟨[], session, pending⟩
  | step :: rest =>
      let first := session.record pending step
      .cons first (history first.after first.console.pending rest)

/-- The steps of a history that were not refused. -/
def History.remaining (history : History) : List Record :=
  history.records.filter fun record => !record.result.refused

theorem History.remaining_cons (first : Record) (later : History) :
    (History.cons first later).remaining =
      if first.result.refused then later.remaining else first :: later.remaining := by
  rw [remaining, cons, List.filter_cons]
  cases first.result.refused <;> rfl

/-- A refused step leaves the session and all lines. -/
theorem record_of_refused {pending : List String} {step : Step}
    (h : (session.record pending step).result.refused = true) :
    (session.record pending step).after = session ∧
      (session.record pending step).console.pending = pending := by
  cases step with
  | clear => cases h
  | list => cases h
  | run fragment =>
      rw [record, perform, Interaction.run_then] at h ⊢
      change (Result.turn ((session.run fragment).run { pending }).1.2).refused = true at h
      cases herror : ((session.run fragment).run { pending }).1.2 with
      | none =>
          rw [herror] at h
          cases h
      | some error =>
          rw [herror] at h
          obtain ⟨hsession, hvisible⟩ := run_of_refused herror h
          exact ⟨hsession, (Console.eq_of_visible_eq hvisible).1⟩

/-- A turn keeps the table coherent, whatever becomes of it. -/
theorem coherent_run (hcoherent : session.table.Coherent) (fragment : String)
    (console : Console) : ((session.run fragment).run console).1.1.table.Coherent := by
  cases hread : Program.complete fragment with
  | error e =>
      rw [(run_agree_of_parse_error hread console console rfl).1]
      exact hcoherent
  | ok program =>
      cases hname : (Program.resolve session.table program).error with
      | some e =>
          rw [(run_agree_of_name_error hread hname console console rfl).1]
          exact hcoherent
      | none => exact (run_completes hcoherent hread hname console console rfl).1.2.coherent

/-- Without the refused steps a history is the same but for their records. The
induction follows the steps: a refused one leaves the session and the lines with
which the rest starts. -/
theorem history_remaining (session : Session) (pending : List String) (steps : List Step) :
    session.history pending ((session.history pending steps).remaining.map Record.step) =
      { session.history pending steps with
        records := (session.history pending steps).remaining } := by
  induction steps generalizing session pending with
  | nil => rfl
  | cons step rest ih =>
      have hlater := ih (session.record pending step).after
        (session.record pending step).console.pending
      rw [history, History.remaining_cons]
      by_cases hrefused : (session.record pending step).result.refused = true
      · obtain ⟨hsession, hpending⟩ := record_of_refused hrefused
        rw [hsession, hpending] at hlater
        rw [if_pos hrefused, hsession, hpending, hlater]
        rfl
      · rw [if_neg hrefused, List.map_cons, record_step, history, hlater]
        rfl

/-- A refused turn leaves the session as it was and shows nothing, in whatever state
the session is. Therefore the refused turns of a history of turns, clearings and
listings can be left out: the same session and the same lines are left at the end,
and every other step has the same record, with the result, the session behind it
and everything that it wrote. -/
theorem refused_turns_change_nothing (session : Session) :
    (∀ (fragment : String) (console : Console) (error : TurnError),
      ((session.run fragment).run console).1.2 = some error → error.refused = true →
      ((session.run fragment).run console).1.1 = session ∧
      ((session.run fragment).run console).2.pending = console.pending ∧
      ((session.run fragment).run console).2.output = console.output ∧
      ((session.run fragment).run console).2.prompts = console.prompts) ∧
    (∀ (pending : List String) (steps : List Step),
      let whole := session.history pending steps
      session.history pending (whole.remaining.map Record.step) =
        { records := whole.remaining, final := whole.final, pending := whole.pending }) := by
  refine ⟨fun fragment console error herror hrefused => ?_, fun pending steps => ?_⟩
  · obtain ⟨hsession, hvisible⟩ := run_of_refused herror hrefused
    exact ⟨hsession, Console.eq_of_visible_eq hvisible⟩
  · exact history_remaining session pending steps

/-- The second declaration of a turn is refused, and the first one is taken back. -/
theorem run_duplicate_changes_nothing :
    ((({ table := (∅ : SymbolTable).push "a" } : Session).run "@b @a").run { pending := [] }).1.1 =
      { table := (∅ : SymbolTable).push "a" } := by
  have hfirst : Program.Fills [.declaration "b"] ['@', 'b'] :=
    @Program.fills_declaration [] ['b'] (List.cons_ne_nil _ _) (by simp) Text.isGap_nil
  have hsecond : Program.Fills [.declaration "a"] ['@', 'a'] :=
    @Program.fills_declaration [] ['a'] (List.cons_ne_nil _ _) (by simp) Text.isGap_nil
  have hboth : Program.Fills [.declaration "b", .declaration "a"] "@b @a".toList :=
    @Program.Fills.append _ _ _ _ [' '] hfirst hsecond
      (by simp [Text.IsGap, Text.isSeparator]) (by simp)
  have herror := @run_eq_name_error { table := (∅ : SymbolTable).push "a" } _ _
    (.duplicate "a") (hboth.complete (by decide)) (by decide) { pending := [] }
  exact ((refused_turns_change_nothing _).1 _ _ _ herror rfl).1

end Session

end Calc
