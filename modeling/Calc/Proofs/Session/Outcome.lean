/-
# What becomes of a program that is run

A program that is run on its own is refused or ends with a table. It is refused
exactly if its text is no program or a name in it cannot be resolved, and then nothing
was shown and no line was read. There is no other way to fail: what was read and
resolved has operators of the language and slots of the table only, so that carrying it
out comes to its end whatever the lines of input are and whatever numbers it meets.
-/

import Calc.Proofs.Execution.Division
import Calc.Proofs.Execution.Frame
import Calc.Proofs.Execution.Handover
import Calc.Proofs.Session.History
import Calc.Proofs.Session.Turns

namespace Calc

/-! ## Resolved programs -/

/-- Resolving changes no operator. -/
theorem Expr.Resolves.arithmetic {table : SymbolTable} {level : Level} {e : Expr String level}
    {e' : Expr Int level} (hresolves : e.Resolves table e') (h : e.Arithmetic) :
    e'.Arithmetic := by
  induction hresolves with
  | ref => trivial
  | literal => trivial
  | group _ ih => exact ih h
  | factor _ ih => exact ih h
  | term _ ih => exact ih h
  | product _ _ ihleft ihright => exact ⟨ihleft h.1, h.2.1, ihright h.2.2⟩
  | sum _ _ ihleft ihright => exact ⟨ihleft h.1, h.2.1, ihright h.2.2⟩

theorem Statement.Resolves.arithmetic {table extended : SymbolTable}
    {statement : Statement String} {statement' : Statement Int}
    (hresolves : statement.Resolves table statement' extended) (h : statement.Arithmetic) :
    statement'.Arithmetic := by
  cases hresolves with
  | declaration => trivial
  | input => trivial
  | output value => exact value.arithmetic h
  | assignment _ value => exact value.arithmetic h

namespace Program

variable {table before : SymbolTable} {program : Program String} {resolved : Program Int}

theorem Resolves.arithmetic (hresolves : Resolves table program resolved before)
    (h : ∀ s ∈ program, s.Arithmetic) : ∀ s ∈ resolved, s.Arithmetic := by
  induction hresolves with
  | nil => simp
  | cons first _ ih =>
      rw [List.forall_mem_cons] at h ⊢
      exact ⟨first.arithmetic h.1, ih h.2⟩

/-- A resolved program is carried out to its end, and writes to its targets only. -/
theorem Resolves.run_execute (hresolves : Resolves table program resolved before)
    (hcoherent : table.Coherent) (hknown : ∀ s ∈ program, s.Arithmetic) (debug : Bool)
    (console : Console) :
    ∃ final left, (Program.execute debug before resolved).run console = ((final, none), left) ∧
      SymbolTable.ChangedAt (Program.targets resolved) before final := by
  have hmeaning := hresolves.execute_agree debug hknown (hresolves.tracks hcoherent)
  have hchanged := execute_changedAt debug before resolved console
  have hnone := (hmeaning console console rfl).1.noFault
  generalize (Program.execute debug before resolved).run console = outcome at hchanged hnone ⊢
  obtain ⟨⟨final, fault⟩, left⟩ := outcome
  obtain rfl : fault = none := hnone
  exact ⟨final, left, rfl, hchanged⟩

/-- Its trees are carried out to the same end. -/
theorem Resolves.run_executeForeign (hresolves : Resolves table program resolved before)
    (hknown : ∀ s ∈ program, s.Arithmetic) {debug : Bool} {console left : Console}
    {final : SymbolTable}
    (hrun : (Program.execute debug before resolved).run console = ((final, none), left)) :
    (executeForeign debug before (resolved.map Statement.toNode)).run console =
      ((final, none), left) := by
  rw [executeForeign_toNode debug before resolved (hresolves.arithmetic hknown),
    Interaction.run_then, hrun]
  rfl

end Program

/-! ## Programs that are run -/

/-- Operators of the language have a result for every two numbers, and it is the one that
division gives when it is kept from zero divisors. -/
theorem Operator.Known.apply_guarded {op : Operator} (h : op.Known) (x y : Float) :
    ∃ z, op.apply x y = .ok z ∧ op.guarded? x y = some z := by
  obtain ⟨z, hz, -⟩ := h.apply x y
  refine ⟨z, hz, ?_⟩
  rw [← op.toOption_apply, hz]
  rfl

namespace Session

variable {session : Session} {fragment : String}

/-- A turn fails only by being refused. -/
theorem refused_of_run (hcoherent : session.table.Coherent) {console : Console}
    {error : TurnError} (h : ((session.run fragment).run console).1.2 = some error) :
    error.refused = true := by
  cases hread : Program.complete fragment with
  | error e =>
      rw [(run_agree_of_parse_error hread console console rfl).1] at h
      cases h
      rfl
  | ok program =>
      cases hname : (Program.resolve session.table program).error with
      | some e =>
          rw [run_eq_name_error hread hname] at h
          cases h
          rfl
      | none =>
          rw [(run_eq_none_iff hcoherent hread console).mpr hname] at h
          cases h

end Session

section RunSource

variable {debug : Bool} {source : String} {console : Console}

/-- A program that fails was refused, and showed nothing. -/
theorem runSource_of_error {error : TurnError}
    (h : ((runSource debug source).run console).1 = .error error) :
    error.refused = true ∧ ((runSource debug source).run console).2.visible = console.visible := by
  rw [@Session.runSource_run { debug } rfl] at h ⊢
  cases hturn : ((Session.run { debug } source).run console).1.2 with
  | none =>
      rw [hturn] at h
      cases h
  | some e =>
      rw [hturn] at h
      obtain rfl : e = error := Except.error.inj h
      have hrefused := Session.refused_of_run SymbolTable.coherent_empty hturn
      exact ⟨hrefused, (Session.run_of_refused hturn hrefused).2⟩

/-- A program whose names can be resolved ends with a table of the names that they were
resolved to. -/
theorem runSource_of_resolved {program : Program String}
    (hread : Program.complete source = .ok program)
    (hnone : (Program.resolve ∅ program).error = none) :
    ∃ table, ((runSource debug source).run console).1 = .ok table ∧
      table.names = (Program.resolve ∅ program).table.names := by
  have hturn := @Session.run_completes { debug } _ _ SymbolTable.coherent_empty hread hnone
    console console rfl
  obtain ⟨⟨-, hcompletes⟩, -⟩ := hturn
  rw [@Session.runSource_run { debug } rfl]
  have herror : ((Session.run { debug } source).run console).1.2 = none := hcompletes.noFault
  rw [herror]
  exact ⟨_, rfl, hcompletes.names⟩

/-- A program ends with a table exactly if it is one and its names can be resolved. -/
theorem runSource_eq_ok_iff :
    (∃ table, ((runSource debug source).run console).1 = .ok table) ↔
      ∃ program, Program.complete source = .ok program ∧
        (Program.resolve ∅ program).error = none := by
  constructor
  · rintro ⟨table, h⟩
    rw [@Session.runSource_run { debug } rfl] at h
    have hnone : ((Session.run { debug } source).run console).1.2 = none := by
      cases hturn : ((Session.run { debug } source).run console).1.2 with
      | none => rfl
      | some e =>
          rw [hturn] at h
          cases h
    cases hread : Program.complete source with
    | error e =>
        rw [(Session.run_agree_of_parse_error hread console console rfl).1] at hnone
        cases hnone
    | ok program =>
        exact ⟨program, rfl,
          (Session.run_eq_none_iff SymbolTable.coherent_empty hread console).mp hnone⟩
  · rintro ⟨program, hread, hnone⟩
    obtain ⟨table, h, -⟩ := runSource_of_resolved hread hnone
    exact ⟨table, h⟩

/-- Running a program on its own has exactly two ends. Either it is refused, and then
nothing was shown and no line was read; or there is a table at its end. What was read can
be handed over as trees without another failure than a name that cannot be resolved, and
what was resolved can be carried out, as a program or as trees, without any failure: no
slot is out of range, no node misplaced, no operator unknown, and operators have a result
for every two numbers even where division has to be kept from zero divisors. Carrying it
out keeps the names in their order, and the values of all variables that no input
statement and no assignment names. The table may be any coherent one, and every table that
calls make is. -/
theorem runSource_completes_or_shows_nothing (debug : Bool) :
    (∀ (source : String) (console : Console),
      let outcome := (runSource debug source).run console
      ((¬ ∃ table, outcome.1 = .ok table) ↔
        ∃ error, outcome.1 = .error error ∧ error.refused = true ∧
          outcome.2.pending = console.pending ∧ outcome.2.output = console.output ∧
          outcome.2.prompts = console.prompts) ∧
      ((∃ table, outcome.1 = .ok table) ↔
        ∃ program, Program.complete source = .ok program ∧
          (Program.resolve ∅ program).error = none)) ∧
    (∀ (text : String) (program : Program String) (table : SymbolTable),
      Program.complete text = .ok program → table.Coherent →
      let resolution := Program.resolve table program
      let before := resolution.table
      let resolved := resolution.resolved
      resolveForeign table (program.map Statement.toNode) =
        ⟨resolved, before, resolution.error.map .name⟩ ∧
      (resolution.error = none → ∀ console, ∃ final left,
        (Program.execute debug before resolved).run console = ((final, none), left) ∧
        (executeForeign debug before (resolved.map Statement.toNode)).run console =
          ((final, none), left) ∧
        final.names = before.names ∧ final.slots = before.slots ∧
        ∀ slot : Nat, (slot : Int) ∉ Program.targets resolved →
          final.get slot = before.get slot)) ∧
    ∀ (op : Operator) (x y : Float), op.Known →
      ∃ z, op.apply x y = .ok z ∧ op.guarded? x y = some z := by
  refine ⟨fun source console => ⟨⟨fun hnone => ?_, ?_⟩, runSource_eq_ok_iff⟩,
    fun text program table hread hcoherent => ?_, fun op x y h => h.apply_guarded x y⟩
  · cases herror : ((runSource debug source).run console).1 with
    | ok table => exact absurd ⟨table, herror⟩ hnone
    | error e =>
        obtain ⟨hrefused, hvisible⟩ := runSource_of_error herror
        exact ⟨e, rfl, hrefused, Console.eq_of_visible_eq hvisible⟩
  · rintro ⟨error, herror, -⟩ ⟨table, htable⟩
    rw [herror] at htable
    cases htable
  · have hknown := Program.arithmetic_of_complete hread
    refine ⟨Program.resolveForeign_toNode table program hknown, fun hnone console => ?_⟩
    have hresolves := Program.resolves_of_error_eq_none hnone
    obtain ⟨final, left, hrun, hchanged⟩ :=
      hresolves.run_execute hcoherent hknown debug console
    exact ⟨final, left, hrun, hresolves.run_executeForeign hknown hrun, hchanged.names,
      hchanged.slots, fun slot hslot => hresolves.get_eq hchanged hslot⟩

/-- Dividing by a variable that is still zero is no failure. -/
theorem execute_reciprocal_of_zero :
    ∃ program final left, Program.complete "@y y := 1 / x" = .ok program ∧
      (Program.execute true (Program.resolve ((∅ : SymbolTable).push "x") program).table
        (Program.resolve ((∅ : SymbolTable).push "x") program).resolved).run { pending := [] } =
        ((final, none), left) ∧
      final.names = ["x", "y"] := by
  have hcheck : ((Program.complete "@y y := 1 / x").toOption.any fun program =>
      let resolution := Program.resolve ((∅ : SymbolTable).push "x") program
      resolution.error.isNone && resolution.table.names = ["x", "y"]) = true := by
    decide +kernel
  have hcoherent : ((∅ : SymbolTable).push "x").Coherent :=
    SymbolTable.coherent_empty.push (by decide)
  cases hread : Program.complete "@y y := 1 / x" with
  | error e =>
      rw [hread] at hcheck
      cases hcheck
  | ok program =>
      simp only [hread, Except.toOption, Option.any_some, Bool.and_eq_true,
        Option.isNone_iff_eq_none, decide_eq_true_eq] at hcheck
      obtain ⟨final, left, hrun, -, hnames, -⟩ :=
        ((runSource_completes_or_shows_nothing true).2.1 _ program _ hread hcoherent).2
          hcheck.1 { pending := [] }
      exact ⟨program, final, left, rfl, hrun, hnames.trans hcheck.2⟩

end RunSource

end Calc
