/-
# What a run leaves alone

A program writes to the variables that its input statements and its assignments name,
and to nothing else: whatever its slots are, and whether or not it runs to its end,
the names of the variables and their slots stay as they are, and so does the value of
every variable that no such statement names.
-/

import Calc.Proofs.Console.Agreement
import Calc.Proofs.Resolution.Relation
import Calc.Proofs.SymbolTable.Calls
import Calc.Execution

namespace Calc

variable {ρ : Type}

/-- The variable that a statement writes to, if there is one. -/
def Statement.targets : Statement ρ → List ρ
  | .declaration _ => []
  | .input target => [target]
  | .output _ => []
  | .assignment target _ => [target]

/-- The variables that a program writes to. -/
def Program.targets (program : Program ρ) : List ρ :=
  program.flatMap Statement.targets

namespace SymbolTable

variable {table before middle after : SymbolTable} {first second : List Int}

@[simp]
theorem size_modify (table : SymbolTable) (slot : Nat) (value : Float) :
    (table.modify slot value).size = table.size := by
  rw [← length_names, names_modify, length_names]

/-- Storing a value changes no other one. -/
theorem get_modify_of_ne {i slot : Nat} (h : i ≠ slot) (value : Float) :
    (table.modify i value).get slot = table.get slot := by
  rw [get, get, size_modify]
  cases hslot : Text.elementAt table.size slot with
  | none => rfl
  | some j =>
      obtain ⟨hlt, hj⟩ := elementAt_eq_some_iff.mp hslot
      have hne : i ≠ j := by omega
      have hentry : (table.modify i value).entries[j]? = table.entries[j]? := by
        rw [modify, Array.getElem?_modify, if_neg hne]
      simp only [hentry]

/-- The second table differs from the first one at most in the values of the variables
that the given slots name. -/
structure ChangedAt (written : List Int) (before after : SymbolTable) : Prop where
  slots : after.slots = before.slots
  names : after.names = before.names
  get : ∀ slot : Nat, (∀ target ∈ written, ¬ before.Denotes target slot) →
    after.get slot = before.get slot

theorem ChangedAt.refl (written : List Int) (table : SymbolTable) :
    ChangedAt written table table where
  slots := rfl
  names := rfl
  get _ _ := rfl

theorem ChangedAt.size (h : ChangedAt first before after) : after.size = before.size := by
  rw [← length_names, h.names, length_names]

theorem ChangedAt.trans (h : ChangedAt first before middle) (h' : ChangedAt second middle after) :
    ChangedAt (first ++ second) before after where
  slots := h'.slots.trans h.slots
  names := h'.names.trans h.names
  get := by
    intro slot hslot
    rw [List.forall_mem_append] at hslot
    have hsecond : ∀ target ∈ second, ¬ middle.Denotes target slot := by
      simp only [Denotes, h.size]
      exact hslot.2
    rw [h'.get slot hsecond, h.get slot hslot.1]

/-- Storing a value writes to its slot only. -/
theorem changedAt_of_store {target : Int} {value : Float} {changed : SymbolTable}
    (h : table.store target value = .ok changed) : ChangedAt [target] table changed := by
  have hset : table.set target value = .ok changed := by
    rw [store] at h
    cases hset : table.set target value with
    | error e =>
        rw [hset] at h
        cases h
    | ok other =>
        rw [hset] at h
        cases h
        rfl
  obtain ⟨i, hi, rfl⟩ := set_eq_ok_iff.mp hset
  refine ⟨rfl, names_modify table i value, fun slot hslot => get_modify_of_ne ?_ value⟩
  rintro rfl
  exact hslot target List.mem_cons_self (elementAt_eq_some_iff.mp hi)

end SymbolTable

open SymbolTable (ChangedAt)

/-- A statement that was carried out wrote to its target only. -/
theorem Statement.execute_changedAt {table changed : SymbolTable} {statement : Statement Int}
    {console : Console} (h : ((statement.execute table).run console).1 = .ok changed) :
    ChangedAt statement.targets table changed := by
  cases statement with
  | declaration target =>
      cases h
      exact .refl _ _
  | input target =>
      rw [execute, executeWith, Interaction.run_then] at h
      exact SymbolTable.changedAt_of_store h
  | output e =>
      rw [execute, executeWith] at h
      cases hvalue : e.value table with
      | error fault =>
          rw [hvalue] at h
          cases h
      | ok x =>
          rw [hvalue] at h
          cases h
          exact .refl _ _
  | assignment target e =>
      rw [execute, executeWith] at h
      cases hvalue : e.value table with
      | error fault =>
          rw [hvalue] at h
          cases h
      | ok x =>
          rw [hvalue] at h
          exact SymbolTable.changedAt_of_store h

/-- A program writes to its targets only, also when it fails on the way. The induction
follows the statements that were carried out. -/
theorem Program.execute_changedAt (debug : Bool) (table : SymbolTable) (program : Program Int)
    (console : Console) :
    ChangedAt program.targets table ((Program.execute debug table program).run console).1.1 := by
  rw [execute]
  induction program generalizing table console with
  | nil => exact .refl _ _
  | cons statement program ih =>
      rw [executeAll, Interaction.run_then, Interaction.run_then]
      generalize (Interaction.run _ console).2 = traced
      cases houtcome : ((statement.execute table).run traced).1 with
      | error fault => exact .refl _ _
      | ok changed => exact (Statement.execute_changedAt houtcome).trans (ih _ _)

/-! ## Slots of resolved programs -/

/-- A slot that is not negative names the entry at its position. -/
theorem SymbolTable.denotes_ofNat_iff {table : SymbolTable} {n slot : Nat} :
    table.Denotes n slot ↔ slot < table.size ∧ slot = n := by
  rw [Denotes]
  omega

/-- The slots that names are resolved to are not negative. -/
theorem Program.Resolves.targets {table final : SymbolTable} {program : Program String}
    {resolved : Program Int} (h : Resolves table program resolved final) :
    ∀ target ∈ Program.targets resolved, ∃ n : Nat, target = n := by
  induction h with
  | nil => simp [Program.targets]
  | @cons _ _ _ _ statement' _ _ first _ ih =>
      rw [Program.targets, List.flatMap_cons, List.forall_mem_append]
      refine ⟨?_, ih⟩
      cases first with
      | declaration => simp [Statement.targets]
      | input => simp [Statement.targets]
      | output => simp [Statement.targets]
      | assignment => simp [Statement.targets]

/-- What is carried out of a resolved program leaves the values of all variables that
are not among its targets. -/
theorem Program.Resolves.get_eq {table final before after : SymbolTable}
    {program : Program String} {resolved : Program Int}
    (h : Resolves table program resolved final)
    (hchanged : ChangedAt (Program.targets resolved) before after) {slot : Nat}
    (hslot : (slot : Int) ∉ Program.targets resolved) : after.get slot = before.get slot := by
  refine hchanged.get slot fun target htarget hdenotes => hslot ?_
  obtain ⟨n, rfl⟩ := h.targets target htarget
  rwa [(SymbolTable.denotes_ofNat_iff.mp hdenotes).2]

end Calc
