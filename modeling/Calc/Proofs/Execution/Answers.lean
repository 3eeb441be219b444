/-
# Answers to input statements

What a program leaves depends on the lines that are entered, and on nothing else of
the console. Every input statement that is carried out takes the next line; where no
line is left, it takes none and stores zero. So a program that is carried out to its
end has taken as many lines as it has input statements, or all there were.
-/

import Calc.Proofs.Console.Transcript
import Calc.Proofs.Execution.Refinement

namespace Calc

variable {ρ : Type}

/-- How many lines a statement takes. -/
def Statement.inputs : Statement ρ → Nat
  | .declaration _ => 0
  | .input _ => 1
  | .output _ => 0
  | .assignment _ _ => 0

/-- An input statement at the end of input takes no line and stores zero. -/
theorem Statement.run_interpret_input (store : Store) (name : String) (log : Array Event) :
    (Statement.interpret store (.input name)).run ⟨[], log⟩ =
      (some (store.assign name 0.0), ⟨[], log.push (.prompt "? ")⟩) := by
  have hempty : enteredNumber "" 0.0 = 0.0 := rfl
  rw [← hempty]
  rfl

namespace Program

/-- How many lines a program takes if there are enough. -/
def inputs : Program ρ → Nat
  | [] => 0
  | statement :: rest => statement.inputs + inputs rest

/-- The variables behind a program text if these lines are entered. Input statements
store the numbers on the lines in their order, and zero when no line is left. -/
def storeAfter (store : Store) (answers : List String) : Program String → Option Store
  | [] => some store
  | .declaration name :: rest => storeAfter (store ++ [(name, 0.0)]) answers rest
  | .input name :: rest =>
      match answers with
      | [] => storeAfter (store.assign name 0.0) [] rest
      | answer :: later => storeAfter (store.assign name (enteredNumber answer 0.0)) later rest
  | .output e :: rest => do
      let _ ← e.valueIn store
      storeAfter store answers rest
  | .assignment name e :: rest => do
      let x ← e.valueIn store
      storeAfter (store.assign name x) answers rest

/-- A program text leaves these variables, and the lines that its input statements did not
take. The induction follows the statements, with any lines waiting in front of each. -/
theorem interpret_run (store : Store) (program : Program String) (console : Console) :
    ((interpret store program).run console).1 = storeAfter store console.pending program ∧
      (((interpret store program).run console).1.isSome →
        ((interpret store program).run console).2.pending =
          console.pending.drop program.inputs) := by
  induction program generalizing store console with
  | nil => exact ⟨rfl, fun _ => rfl⟩
  | cons statement rest ih =>
      rw [interpret, Interaction.run_then]
      cases statement with
      | declaration name =>
          rw [inputs, Statement.inputs, Nat.zero_add]
          exact ih _ _
      | input name =>
          rw [inputs, Statement.inputs]
          obtain ⟨pending, log⟩ := console
          cases pending with
          | nil =>
              have hnone := ih (store.assign name 0.0) ⟨[], log.push (.prompt "? ")⟩
              rw [Statement.run_interpret_input]
              simp only [List.drop_nil] at hnone ⊢
              exact hnone
          | cons line later =>
              rw [Nat.add_comm, List.drop_succ_cons]
              exact ih (store.assign name (enteredNumber line 0.0))
                ⟨later, log.push (.prompt "? ")⟩
      | output e =>
          rw [inputs, Statement.inputs, Nat.zero_add,
            Statement.interpret, storeAfter]
          cases e.valueIn store with
          | none => exact ⟨rfl, fun h => by cases h⟩
          | some x => exact ih _ _
      | assignment name e =>
          rw [inputs, Statement.inputs, Nat.zero_add,
            Statement.interpret, storeAfter]
          cases e.valueIn store with
          | none => exact ⟨rfl, fun h => by cases h⟩
          | some x => exact ih _ _

/-- Lines that no input statement takes do not matter. -/
theorem storeAfter_take (store : Store) (answers : List String) (program : Program String) :
    storeAfter store (answers.take program.inputs) program =
      storeAfter store answers program := by
  induction program generalizing store answers with
  | nil => rfl
  | cons statement rest ih =>
      rw [inputs]
      cases statement with
      | declaration name =>
          rw [Statement.inputs, Nat.zero_add]
          exact ih _ _
      | input name =>
          rw [Statement.inputs, Nat.add_comm]
          cases answers with
          | nil => rw [List.take_nil]
          | cons answer later => exact ih _ _
      | output e =>
          rw [Statement.inputs, Nat.zero_add, storeAfter, storeAfter]
          cases e.valueIn store with
          | none => rfl
          | some x => exact ih _ _
      | assignment name e =>
          rw [Statement.inputs, Nat.zero_add, storeAfter, storeAfter]
          cases e.valueIn store with
          | none => rfl
          | some x => exact ih _ _

end Program

end Calc
