/-
# Resolved programs are program texts with slots for names

A slot of a resolved program stands for a name, the one that the table has in that
slot once all of the program is resolved. Put back, the names make the program text
again, down to the last parenthesis; so resolving changes nothing but references, and
a slot that was handed out early is not moved by later declarations.

The slots that a program declares are the next free ones in their order.
-/

import Calc.Proofs.Resolution.Occurrences

namespace Calc

open SymbolTable (zeros)

/-- The references of a statement, the one it declares, reads or assigns to first. -/
def Statement.refs {ρ : Type} : Statement ρ → List ρ
  | .declaration target => [target]
  | .input target => [target]
  | .output value => value.refs
  | .assignment target value => target :: value.refs

/-- The references of a program, in the order of its statements. -/
def Program.refs {ρ : Type} (program : Program ρ) : List ρ :=
  program.flatMap Statement.refs

/-! ## Names in slots -/

namespace SymbolTable

variable {table final : SymbolTable} {name : String} {slot : Nat}

/-- The name of the variable in a slot, counted from the front only. -/
def name? (table : SymbolTable) (slot : Int) : Option String :=
  if slot < 0 then none else table.names[slot.toNat]?

theorem name?_ofNat (table : SymbolTable) (slot : Nat) :
    table.name? slot = table.names[slot]? :=
  if_neg (by omega)

/-- The slots that have a name are those of the table. -/
theorem name?_isSome_iff {slot : Int} :
    (table.name? slot).isSome = true ↔ 0 ≤ slot ∧ slot < table.size := by
  rw [name?]
  split
  case isTrue hneg =>
    exact iff_of_false Bool.false_ne_true (by omega)
  case isFalse hneg =>
    rw [isSome_getElem?, length_names]
    omega

/-- Whatever has a slot in the first table has the same slot in the second one. -/
def Keeps (table final : SymbolTable) : Prop :=
  table.names <+: final.names

theorem Keeps.name? (h : table.Keeps final) (hname : table.names[slot]? = some name) :
    final.name? slot = some name := by
  obtain ⟨later, hnames⟩ := h
  have hlt : slot < table.names.length := (List.getElem?_eq_some_iff.mp hname).1
  rw [name?_ofNat, ← hnames, List.getElem?_append_left hlt, hname]

theorem Coherent.name?_of_found (hcoherent : table.Coherent) (h : table.Keeps final)
    (found : table.slots[name]? = some slot) : final.name? slot = some name :=
  h.name? ((hcoherent.slots_eq_some_iff name slot).mp found)

end SymbolTable

/-! ## Putting names back -/

section Names

variable {table middle final : SymbolTable}

/-- Putting names into the slots of an expression gives back its text. -/
theorem Expr.Resolves.map_name? (hcoherent : table.Coherent) (h : table.Keeps final)
    {level : Level} {e : Expr String level} {e' : Expr Int level}
    (hresolves : e.Resolves table e') : e'.map final.name? = e.map some := by
  induction hresolves with
  | ref found => rw [map, map, hcoherent.name?_of_found h found]
  | literal => rfl
  | group _ ih => rw [map, map, ih]
  | factor _ ih => rw [map, map, ih]
  | product _ _ ihleft ihright => rw [map, map, ihleft, ihright]
  | term _ ih => rw [map, map, ih]
  | sum _ _ ihleft ihright => rw [map, map, ihleft, ihright]

/-- Putting names into the slots of a statement gives back its text, also when the
table has become longer since. -/
theorem Statement.Resolves.map_name? {statement : Statement String} {statement' : Statement Int}
    (hresolves : statement.Resolves table statement' middle) (hcoherent : table.Coherent)
    (h : middle.Keeps final) : statement'.map final.name? = statement.map some := by
  cases hresolves with
  | @declaration name new =>
      have hname : (table.push name).names[table.size]? = some name := by
        rw [SymbolTable.names_push, ← SymbolTable.length_names, List.getElem?_concat_length]
      rw [Statement.map, Statement.map, h.name? hname]
  | input found => rw [Statement.map, Statement.map, hcoherent.name?_of_found h found]
  | output value => rw [Statement.map, Statement.map, value.map_name? hcoherent h]
  | assignment found value =>
      rw [Statement.map, Statement.map, hcoherent.name?_of_found h found,
        value.map_name? hcoherent h]

theorem Program.Resolves.keeps {program : Program String} {resolved : Program Int}
    (hresolves : Resolves table program resolved final) : table.Keeps final := by
  rw [hresolves.table_eq, SymbolTable.Keeps, names_pushAll]
  exact List.prefix_append _ _

/-- The names in the final table are put back into all statements. -/
theorem Program.Resolves.map_name? {program : Program String} {resolved : Program Int}
    (hresolves : Resolves table program resolved final) (hcoherent : table.Coherent) :
    resolved.map (Statement.map final.name?) = program.map (Statement.map some) := by
  induction hresolves with
  | nil => rfl
  | cons first others ih =>
      rw [List.map_cons, List.map_cons, first.map_name? hcoherent others.keeps,
        ih (first.coherent hcoherent)]

end Names

/-! ## References and their replacements -/

section Refs

variable {ρ σ : Type} (f : ρ → σ)

theorem Expr.refs_map {level : Level} (e : Expr ρ level) : (e.map f).refs = e.refs.map f := by
  induction e with
  | ref r => rfl
  | literal value => rfl
  | group inner ih => exact ih
  | factor g ih => exact ih
  | term t ih => exact ih
  | product t op g iht ihg => rw [map, refs, refs, iht, ihg, List.map_append]
  | sum e op t ihe iht => rw [map, refs, refs, ihe, iht, List.map_append]

theorem Statement.refs_map (statement : Statement ρ) :
    (statement.map f).refs = statement.refs.map f := by
  cases statement with
  | declaration target => rfl
  | input target => rfl
  | output value => exact value.refs_map f
  | assignment target value => exact congrArg (f target :: ·) (value.refs_map f)

theorem Program.refs_map (program : Program ρ) :
    Program.refs (program.map (Statement.map f)) = (Program.refs program).map f := by
  rw [refs, refs, List.flatMap_map, List.map_flatMap]
  simp only [Statement.refs_map]

end Refs

/-! ## Slots of declarations -/

namespace Program

variable {table final : SymbolTable} {program : Program String} {resolved : Program Int}

theorem Resolves.declared_eq (hresolves : Resolves table program resolved final) :
    declared resolved =
      (List.range' table.size (declared program).length).map fun slot : Nat => (slot : Int) := by
  induction hresolves with
  | nil => rfl
  | cons first _ ih =>
      rw [declared_cons, declared_cons, ih]
      cases first with
      | declaration new =>
          simp [Statement.declared, SymbolTable.size, SymbolTable.push, List.range'_succ]
      | _ => rfl

/-- A program that can be resolved is the resolved program with names for slots: the
names that the final table has in the slots, put back, make the program again. All
slots are slots of this table, counted from the front. The table keeps all variables
that it had, and behind them are those that the program declares, all of them zero; so
the slots of the declarations are the ones behind the earlier variables, one after
another. -/
theorem resolve_replaces_names (hcoherent : table.Coherent)
    (hresolves : (resolve table program).error = none) :
    let resolution := resolve table program
    resolution.resolved.map (Statement.map resolution.table.name?) =
        program.map (Statement.map some) ∧
      (∀ slot ∈ refs resolution.resolved, 0 ≤ slot ∧ slot < resolution.table.size) ∧
      resolution.table.entries.toList = table.entries.toList ++ zeros (declared program) ∧
      resolution.table.Coherent ∧
      declared resolution.resolved =
        (List.range (declared program).length).map fun k => ((table.size + k : Nat) : Int) := by
  have h := resolves_of_error_eq_none hresolves
  have hnames := h.map_name? hcoherent
  refine ⟨hnames, fun slot hslot => ?_, h.entries, h.coherent hcoherent, ?_⟩
  · have hrefs := congrArg refs hnames
    rw [refs_map, refs_map] at hrefs
    have hmem : (resolve table program).table.name? slot ∈ (refs program).map some :=
      hrefs ▸ List.mem_map_of_mem hslot
    obtain ⟨name, -, hname⟩ := List.mem_map.mp hmem
    rw [← SymbolTable.name?_isSome_iff, ← hname, Option.isSome_some]
  · rw [h.declared_eq, List.range'_eq_map_range, List.map_map]
    rfl

/-- A program that declares a variable behind the use of another one in parentheses. -/
def declaresInBetween : Program String :=
  [.declaration "a",
    .assignment "a" (.term (.product (.factor (.ref "x")) .divide
      (.group (.sum (.term (.factor (.ref "a"))) .subtract (.factor (.literal 2.0)))))),
    .declaration "b",
    .output (.sum (.term (.factor (.ref "b"))) .add (.factor (.ref "a")))]

theorem resolve_declaresInBetween :
    let resolution := resolve ((∅ : SymbolTable).push "x") declaresInBetween
    resolution.resolved.map (Statement.map resolution.table.name?) =
        declaresInBetween.map (Statement.map some) ∧
      resolution.table.entries.toList = [("x", 0.0), ("a", 0.0), ("b", 0.0)] ∧
      declared resolution.resolved = [1, 2] := by
  have hcoherent : ((∅ : SymbolTable).push "x").Coherent :=
    SymbolTable.coherent_empty.push (by decide)
  obtain ⟨hnames, -, hentries, -, hdeclared⟩ :=
    resolve_replaces_names hcoherent (by decide : (resolve _ declaresInBetween).error = none)
  exact ⟨hnames, hentries, hdeclared⟩

end Program

end Calc
