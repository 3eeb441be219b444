/-
# The first name that cannot be resolved

The names of a program text are read in one order: statement after statement, in an
assignment the target before the expression, and an expression from left to right,
into parentheses. A name that is declared has to be new where it stands, and a name
that is used has to be declared further up, or before the program.

Resolving goes wrong exactly if some name breaks this rule, and it is the first one
that is reported. What the statements before it declared is in the table, and
nothing else happened to the table.
-/

import Calc.Proofs.Resolution.Tables

namespace Calc

open SymbolTable (zeros pushAll_append)

/-! ## Names in the order in which they are read -/

/-- The references of an expression from left to right. -/
def Expr.refs {ρ : Type} : {level : Level} → Expr ρ level → List ρ
  | _, .ref r => [r]
  | _, .literal _ => []
  | _, .group inner => inner.refs
  | _, .factor f => f.refs
  | _, .product t _ f => t.refs ++ f.refs
  | _, .term t => t.refs
  | _, .sum e _ t => e.refs ++ t.refs

/-- A name in a program text, as what it stands there. -/
inductive Occurrence where
  /-- a variable of the name is made -/
  | declaring (name : String)
  /-- a variable of the name is meant -/
  | naming (name : String)
  deriving DecidableEq, Repr

namespace Occurrence

/-- Where the variables have the given names, the occurrence cannot be resolved. -/
def Fails (visible : List String) : Occurrence → Prop
  | declaring name => name ∈ visible
  | naming name => name ∉ visible

instance (visible : List String) : DecidablePred (Fails visible)
  | declaring name => inferInstanceAs (Decidable (name ∈ visible))
  | naming name => inferInstanceAs (Decidable (name ∉ visible))

/-- What is reported about an occurrence that cannot be resolved. -/
def error : Occurrence → NameError
  | declaring name => .duplicate name
  | naming name => .undefined name

/-- What is reported about an occurrence, if anything is. -/
def failure? (visible : List String) (occurrence : Occurrence) : Option NameError :=
  if occurrence.Fails visible then some occurrence.error else none

variable {visible : List String} {occurrence : Occurrence}

theorem failure?_of_fails (h : occurrence.Fails visible) :
    occurrence.failure? visible = some occurrence.error :=
  if_pos h

theorem failure?_eq_none_iff : occurrence.failure? visible = none ↔ ¬ occurrence.Fails visible := by
  simp [failure?]

end Occurrence

/-- The occurrences of names in a statement. -/
def Statement.occurrences : Statement String → List Occurrence
  | .declaration name => [.declaring name]
  | .input name => [.naming name]
  | .output value => value.refs.map .naming
  | .assignment name value => .naming name :: value.refs.map .naming

/-- An occurrence in a program, with the statements before its own. -/
structure Place where
  earlier : Program String
  occurrence : Occurrence

namespace Place

/-- In a program that starts from the given table, the occurrence cannot be resolved. -/
def Fails (table : SymbolTable) (place : Place) : Prop :=
  place.occurrence.Fails (table.names ++ place.earlier.declared)

instance (table : SymbolTable) : DecidablePred (Fails table) := fun place =>
  inferInstanceAs (Decidable (place.occurrence.Fails (table.names ++ place.earlier.declared)))

end Place

/-- The occurrences in the rest of a program, behind the given statements. -/
def Program.placesBehind (earlier : Program String) : Program String → List Place
  | [] => []
  | statement :: rest =>
      statement.occurrences.map (Place.mk earlier) ++ placesBehind (earlier ++ [statement]) rest

/-- The occurrences in a program, in the order in which they are read. -/
def Program.places (program : Program String) : List Place :=
  placesBehind [] program

/-! ## Statements -/

/-- The error of a computation that failed. -/
def errorOf {ε α : Type} : Except ε α → Option ε
  | .error e => some e
  | .ok _ => none

/-- Of two steps the first one that fails decides the error. -/
theorem errorOf_bind {ε α β : Type} {x : Except ε α} {f : α → Except ε β} {later : Option ε}
    (h : ∀ a, x = .ok a → errorOf (f a) = later) : errorOf (x >>= f) = (errorOf x).or later := by
  cases x with
  | error e => rfl
  | ok a => exact h a rfl

/-- A step that cannot fail does not matter. -/
theorem errorOf_bind_pure {ε α β : Type} (x : Except ε α) (f : α → β) :
    errorOf (x >>= fun a => pure (f a)) = errorOf x := by
  cases x <;> rfl

theorem errorOf_map {ε α β : Type} (x : Except ε α) (f : α → β) :
    errorOf (x.map f) = errorOf x := by
  cases x <;> rfl

/-- Replacing all references fails as replacing the first one does that has no
replacement. -/
theorem Expr.errorOf_traverse {ρ σ ε : Type} (f : ρ → Except ε σ) {level : Level}
    (e : Expr ρ level) : errorOf (e.traverse f) = e.refs.findSome? fun r => errorOf (f r) := by
  induction e with
  | ref r => rw [traverse, errorOf_bind_pure, refs, List.findSome?_singleton]
  | literal value => rfl
  | group inner ih => rw [traverse, errorOf_bind_pure, ih, refs]
  | factor g ih => rw [traverse, errorOf_bind_pure, ih, refs]
  | term t ih => rw [traverse, errorOf_bind_pure, ih, refs]
  | product t op g iht ihg =>
      rw [traverse, refs, List.findSome?_append, ← iht, ← ihg]
      exact errorOf_bind fun _ _ => errorOf_bind_pure _ _
  | sum e op t ihe iht =>
      rw [traverse, refs, List.findSome?_append, ← ihe, ← iht]
      exact errorOf_bind fun _ _ => errorOf_bind_pure _ _

section Statement

variable {table : SymbolTable}

/-- Looking a name up fails unless it is the name of a variable. -/
theorem SymbolTable.Coherent.errorOf_slotOf (h : table.Coherent) (name : String) :
    errorOf (table.slotOf name) = (Occurrence.naming name).failure? table.names := by
  by_cases hfails : (Occurrence.naming name).Fails table.names
  · have habsent : table.slots[name]? = none := by
      rw [← Option.not_isSome_iff_eq_none, ← contains_eq, h.contains_iff]
      exact hfails
    rw [slotOf, habsent, Occurrence.failure?_of_fails hfails]
    rfl
  · have hcontains : table.contains name = true := h.contains_iff.mpr (not_not.mp hfails)
    rw [contains_eq, Option.isSome_iff_exists] at hcontains
    obtain ⟨slot, hslot⟩ := hcontains
    rw [slotOf_eq_ok_iff.mpr hslot, Occurrence.failure?_eq_none_iff.mpr hfails]
    rfl

/-- Declaring a name fails if it is the name of a variable. -/
theorem SymbolTable.Coherent.errorOf_declare (h : table.Coherent) (name : String) :
    errorOf (table.declare name) = (Occurrence.declaring name).failure? table.names := by
  rw [declare_eq]
  by_cases hfails : (Occurrence.declaring name).Fails table.names
  · rw [if_pos (h.contains_iff.mpr hfails), Occurrence.failure?_of_fails hfails]
    rfl
  · rw [if_neg (mt h.contains_iff.mp hfails), Occurrence.failure?_eq_none_iff.mpr hfails]
    rfl

/-- An expression fails with its first name that is no variable. -/
theorem Expr.errorOf_traverse_slotOf (h : table.Coherent) {level : Level}
    (e : Expr String level) :
    errorOf (e.traverse fun name => (table.slotOf name).map Int.ofNat) =
      (e.refs.map Occurrence.naming).findSome? (Occurrence.failure? table.names) := by
  rw [errorOf_traverse, List.findSome?_map]
  congr
  funext name
  rw [errorOf_map, h.errorOf_slotOf]
  rfl

/-- A statement fails with the first of its names that cannot be resolved. -/
theorem Statement.errorOf_resolve (h : table.Coherent) (statement : Statement String) :
    errorOf (statement.resolve table) =
      statement.occurrences.findSome? (Occurrence.failure? table.names) := by
  cases statement with
  | declaration name =>
      rw [resolve, resolveWith, errorOf_bind_pure, h.errorOf_declare, occurrences,
        List.findSome?_singleton]
  | input name =>
      rw [resolve, resolveWith, errorOf_bind_pure, h.errorOf_slotOf, occurrences,
        List.findSome?_singleton]
  | output value =>
      rw [resolve, resolveWith, errorOf_bind_pure, value.errorOf_traverse_slotOf h, occurrences]
  | assignment name value =>
      rw [resolve, resolveWith, occurrences, ← List.singleton_append, List.findSome?_append,
        List.findSome?_singleton, ← h.errorOf_slotOf, ← value.errorOf_traverse_slotOf h]
      exact errorOf_bind fun _ _ => errorOf_bind_pure _ _

end Statement

/-! ## Programs -/

namespace Program

variable {table : SymbolTable}

/-- How resolving a program ended, if it failed: what is reported, and the table it
left. -/
def failure? (table : SymbolTable) (program : Program String) : Option (NameError × SymbolTable) :=
  (resolve table program).error.map fun e => (e, (resolve table program).table)

theorem failure?_cons_error {statement : Statement String} {rest : Program String} {e : NameError}
    (h : statement.resolve table = .error e) :
    failure? table (statement :: rest) = some (e, table) := by
  rw [failure?, resolve_cons_error h]
  rfl

theorem failure?_cons_ok {extended : SymbolTable} {statement : Statement String}
    {statement' : Statement Int} {rest : Program String}
    (h : statement.resolve table = .ok (statement', extended)) :
    failure? table (statement :: rest) = failure? extended rest := by
  rw [failure?, resolve_cons_ok h]
  rfl

/-- How resolving fails at a place, if it does. -/
def placeFailure? (table : SymbolTable) (place : Place) : Option (NameError × SymbolTable) :=
  (place.occurrence.failure? (table.names ++ declared place.earlier)).map fun e =>
    (e, table.pushAll (declared place.earlier))

theorem placeFailure?_of_fails {place : Place} (h : place.Fails table) :
    placeFailure? table place =
      some (place.occurrence.error, table.pushAll (declared place.earlier)) := by
  rw [placeFailure?, Occurrence.failure?_of_fails h, Option.map_some]

theorem placeFailure?_eq_none_iff {place : Place} :
    placeFailure? table place = none ↔ ¬ place.Fails table := by
  rw [placeFailure?, Option.map_eq_none_iff, Occurrence.failure?_eq_none_iff]
  rfl

theorem names_pushAll (table : SymbolTable) (names : List String) :
    (table.pushAll names).names = table.names ++ names := by
  rw [SymbolTable.names, SymbolTable.entries_pushAll]
  simp [zeros, SymbolTable.names, Function.comp_def]

/-- Resolving the rest of a program, behind statements that were resolved, fails at the
first place where that is possible. The induction is over the rest. -/
theorem failure?_pushAll (earlier program : Program String)
    (hcoherent : (table.pushAll (declared earlier)).Coherent) :
    failure? (table.pushAll (declared earlier)) program =
      (placesBehind earlier program).findSome? (placeFailure? table) := by
  induction program generalizing earlier with
  | nil => rfl
  | cons statement rest ih =>
      have hplaces : (statement.occurrences.map (Place.mk earlier)).findSome?
          (placeFailure? table) =
          (errorOf (statement.resolve (table.pushAll (declared earlier)))).map
            fun e => (e, table.pushAll (declared earlier)) := by
        rw [statement.errorOf_resolve hcoherent, List.findSome?_map, names_pushAll,
          List.map_findSome?]
        rfl
      rw [placesBehind, List.findSome?_append, hplaces]
      cases hstep : statement.resolve (table.pushAll (declared earlier)) with
      | error e =>
          rw [failure?_cons_error hstep]
          rfl
      | ok result =>
          obtain ⟨statement', middle⟩ := result
          have hresolves := Statement.resolve_eq_ok_iff.mp hstep
          have hmiddle : middle = table.pushAll (declared (earlier ++ [statement])) := by
            rw [hresolves.table_eq, ← pushAll_append]
            simp [declared]
          subst hmiddle
          rw [failure?_cons_ok hstep, ih _ (hresolves.coherent hcoherent)]
          rfl

/-- Resolving a program fails exactly if some occurrence of a name in it cannot be
resolved: one that declares a variable which exists, or one that means a variable
which does not, counting those of the statements before. The first such occurrence
decides the error, and the table is then the one from before with the variables that
the statements before it declare, all of them zero. -/
theorem resolve_fails_at_first_place (hcoherent : table.Coherent) (program : Program String) :
    ((resolve table program).error ≠ none ↔ ∃ place ∈ program.places, place.Fails table) ∧
    ∀ before place behind, program.places = before ++ place :: behind →
      (∀ other ∈ before, ¬ other.Fails table) → place.Fails table →
      (resolve table program).error = some place.occurrence.error ∧
      (resolve table program).table.Coherent ∧
      (resolve table program).table.entries.toList =
        table.entries.toList ++ zeros (declared place.earlier) := by
  have hfailure : failure? table program = program.places.findSome? (placeFailure? table) :=
    failure?_pushAll [] program hcoherent
  constructor
  · have hnone : failure? table program = none ↔ (resolve table program).error = none :=
      Option.map_eq_none_iff
    rw [Ne, ← hnone, hfailure, List.findSome?_eq_none_iff]
    simp only [placeFailure?_eq_none_iff, not_forall, not_not, exists_prop]
  · intro before place behind hplaces hbefore hfails
    have hfirst : failure? table program =
        some (place.occurrence.error, table.pushAll (declared place.earlier)) := by
      have hnone : before.findSome? (placeFailure? table) = none :=
        List.findSome?_eq_none_iff.mpr fun other h =>
          placeFailure?_eq_none_iff.mpr (hbefore other h)
      rw [hfailure, hplaces, List.findSome?_append, hnone, Option.none_or, List.findSome?_cons,
        placeFailure?_of_fails hfails]
    obtain ⟨error, herror, hpair⟩ := Option.map_eq_some_iff.mp hfirst
    obtain ⟨rfl, htable⟩ := Prod.mk.inj hpair
    obtain ⟨resolved, behind, -, hresolves⟩ := exists_resolved_prefix table program
    exact ⟨herror, hresolves.coherent hcoherent,
      htable ▸ SymbolTable.entries_pushAll table (declared place.earlier)⟩

/-- A name that is used in parentheses, behind a declaration and in front of a
duplicate one. -/
def usedTooEarly : Program String :=
  [.declaration "a",
    .assignment "a" (.sum (.term (.factor (.ref "x"))) .subtract
      (.factor (.group (.term (.factor (.ref "b")))))),
    .declaration "x"]

/-- The use is reported, and not the duplicate behind it. -/
theorem resolve_usedTooEarly :
    (resolve ((∅ : SymbolTable).push "x") usedTooEarly).error = some (.undefined "b") ∧
    (resolve ((∅ : SymbolTable).push "x") usedTooEarly).table.entries.toList =
      [("x", 0.0), ("a", 0.0)] := by
  have hcoherent : ((∅ : SymbolTable).push "x").Coherent :=
    SymbolTable.coherent_empty.push (by decide)
  obtain ⟨herror, -, htable⟩ :=
    (resolve_fails_at_first_place hcoherent usedTooEarly).2
      [⟨[], .declaring "a"⟩, ⟨[.declaration "a"], .naming "a"⟩, ⟨[.declaration "a"], .naming "x"⟩]
      ⟨[.declaration "a"], .naming "b"⟩ [⟨usedTooEarly.take 2, .declaring "x"⟩] rfl
      (by decide) (by decide)
  exact ⟨herror, htable⟩

end Program

end Calc
