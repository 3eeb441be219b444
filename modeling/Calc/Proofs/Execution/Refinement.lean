/-
# Resolved programs do what program texts mean

All variables of a program exist before any of its statements is carried out, and
they are found by slot; in the meaning of the program text a variable exists from
its declaration on, and it is found by name. Both do the same at every console.

While the two run, the table holds the variables that exist by now and behind them
those that are still to be declared, which are zero. That is what `Tracks` states,
and every statement preserves it.
-/

import Calc.Proofs.Console.Agreement
import Calc.Proofs.Execution.Interpreter
import Calc.Proofs.Resolution.Tables

namespace Calc

open Interaction (Agree)
open SymbolTable (zeros)

/-! ## Slots in a list of variables -/

namespace Store

variable {store : Store} {name : String} {slot : Nat}

/-- The first variable of a name is the one in its slot, since there is no other. -/
theorem value?_eq_some (hnodup : store.names.Nodup) (hslot : store.names[slot]? = some name) :
    ∃ value, store[slot]? = some (name, value) ∧ store.value? name = some value := by
  induction store generalizing slot with
  | nil => simp [names] at hslot
  | cons entry rest ih =>
      obtain ⟨first, value⟩ := entry
      rw [names, List.map_cons, List.nodup_cons] at hnodup
      cases slot with
      | zero =>
          obtain rfl : first = name := by simpa [names] using hslot
          exact ⟨value, rfl, if_pos rfl⟩
      | succ slot =>
          have hrest : (names rest)[slot]? = some name := by simpa [names] using hslot
          obtain ⟨value', hentry, hvalue⟩ := ih hnodup.2 hrest
          have hne : first ≠ name := by
            rintro rfl
            exact hnodup.1 (List.mem_of_getElem? hrest)
          refine ⟨value', hentry, ?_⟩
          rw [value?, if_neg hne, hvalue]

/-- Assigning by name is assigning by slot. -/
theorem assign_eq_modify (hnodup : store.names.Nodup) (hslot : store.names[slot]? = some name)
    (value : Float) :
    store.assign name value = store.modify slot fun entry => (entry.1, value) := by
  induction store generalizing slot with
  | nil => simp [names] at hslot
  | cons entry rest ih =>
      obtain ⟨first, old⟩ := entry
      rw [names, List.map_cons, List.nodup_cons] at hnodup
      cases slot with
      | zero =>
          obtain rfl : first = name := by simpa [names] using hslot
          exact if_pos rfl
      | succ slot =>
          have hrest : (names rest)[slot]? = some name := by simpa [names] using hslot
          have hne : first ≠ name := by
            rintro rfl
            exact hnodup.1 (List.mem_of_getElem? hrest)
          rw [assign, if_neg hne, ih hnodup.2 hrest]
          rfl

end Store

/-! ## The invariant -/

/-- A change in front leaves what stands behind. -/
private theorem modify_append {α : Type} {f : α → α} {front behind : List α} {i : Nat}
    (h : i < front.length) : (front ++ behind).modify i f = front.modify i f ++ behind := by
  induction front generalizing i with
  | nil => exact absurd h (Nat.not_lt_zero i)
  | cons a front ih =>
      cases i with
      | zero => rfl
      | succ i =>
          rw [List.cons_append, List.modify_succ_cons, List.modify_succ_cons, List.cons_append,
            ih (Nat.lt_of_succ_lt_succ h)]

/-- At some point of a run, `scope` is the table against which the rest of the
program was resolved, and `later` are the names that the rest declares: the table
of the run holds the variables that exist by now, and the later ones behind them. -/
structure Tracks (scope : SymbolTable) (later : List String) (table : SymbolTable)
    (store : Store) : Prop where
  coherentScope : scope.Coherent
  coherent : table.Coherent
  names : scope.names = store.names
  entries : table.entries.toList = store ++ zeros later

namespace Tracks

variable {scope table : SymbolTable} {later : List String} {store : Store} {name : String}
  {slot : Nat}

/-- A slot that a name was resolved to is the slot of the variable. -/
theorem names_slot (h : Tracks scope later table store)
    (found : scope.slots[name]? = some slot) : store.names[slot]? = some name := by
  rw [← h.names]
  exact (h.coherentScope.slots_eq_some_iff name slot).mp found

theorem nodup (h : Tracks scope later table store) : store.names.Nodup :=
  h.names ▸ h.coherentScope.nodup

/-- The value in the slot of a name is the value of the name. -/
theorem get (h : Tracks scope later table store)
    (found : scope.slots[name]? = some slot) :
    ∃ value, table.get slot = .ok value ∧ store.value? name = some value := by
  obtain ⟨value, hentry, hvalue⟩ := Store.value?_eq_some h.nodup (h.names_slot found)
  have hlt := (List.getElem?_eq_some_iff.mp hentry).1
  refine ⟨value, @SymbolTable.get_ofNat _ name _ _ ?_, hvalue⟩
  rw [h.entries, List.getElem?_append_left hlt]
  exact hentry

/-- Storing a value in the slot of a name gives it to the name. -/
theorem set (h : Tracks scope later table store)
    (found : scope.slots[name]? = some slot) (value : Float) :
    table.set slot value = .ok (table.modify slot value) ∧
      Tracks scope later (table.modify slot value) (store.assign name value) := by
  have hname := h.names_slot found
  have hlt : slot < store.length := by
    have hslot := (List.getElem?_eq_some_iff.mp hname).1
    rwa [Store.names, List.length_map] at hslot
  constructor
  · refine SymbolTable.set_ofNat ?_ value
    rw [SymbolTable.size, ← Array.length_toList, h.entries, List.length_append]
    omega
  · refine ⟨h.coherentScope, h.coherent.modify slot value, ?_, ?_⟩
    · rw [Store.names_assign, h.names]
    · rw [SymbolTable.entries_modify, h.entries, Store.assign_eq_modify h.nodup hname,
        modify_append hlt]

/-- A declaration finds its variable in the table already. -/
theorem declare (h : Tracks scope (name :: later) table store)
    (new : scope.contains name = false) :
    Tracks (scope.push name) later table (store ++ [(name, 0.0)]) where
  coherentScope := h.coherentScope.push new
  coherent := h.coherent
  names := by rw [SymbolTable.names_push, h.names]; simp [Store.names]
  entries := by rw [h.entries]; simp [zeros]

end Tracks

/-! ## Expressions -/

/-- Operators of the language always have a result, and the same one. -/
theorem Operator.Known.apply {op : Operator} (h : op.Known) (x y : Float) :
    ∃ z, op.apply x y = .ok z ∧ op.result? x y = some z := by
  cases op with
  | unknown symbol => exact absurd rfl (h symbol)
  | _ => exact ⟨_, rfl, rfl⟩

/-- An expression has the same value by slot as by name. -/
theorem Expr.Resolves.value {scope table : SymbolTable} {later : List String} {store : Store}
    (h : Tracks scope later table store) {level : Level} {e : Expr String level}
    {e' : Expr Int level} (hresolves : e.Resolves scope e') (hknown : e.Arithmetic) :
    ∃ x, e'.value table = .ok x ∧ e.valueIn store = some x := by
  induction hresolves with
  | ref found =>
      obtain ⟨x, hget, hvalue⟩ := h.get found
      refine ⟨x, ?_, hvalue⟩
      rw [Expr.value, evaluate, SymbolTable.valueAt, hget]
      rfl
  | @literal x => exact ⟨x, rfl, rfl⟩
  | group _ ih => exact ih hknown
  | factor _ ih => exact ih hknown
  | term _ ih => exact ih hknown
  | product _ _ ihleft ihright =>
      obtain ⟨x, hx, hx'⟩ := ihleft hknown.1
      obtain ⟨y, hy, hy'⟩ := ihright hknown.2.2
      obtain ⟨z, hz, hz'⟩ := hknown.2.1.apply x y
      rw [Expr.value] at hx hy ⊢
      rw [evaluate, valueIn, hx, hx', hy, hy']
      exact ⟨z, hz, hz'⟩
  | sum _ _ ihleft ihright =>
      obtain ⟨x, hx, hx'⟩ := ihleft hknown.1
      obtain ⟨y, hy, hy'⟩ := ihright hknown.2.2
      obtain ⟨z, hz, hz'⟩ := hknown.2.1.apply x y
      rw [Expr.value] at hx hy ⊢
      rw [evaluate, valueIn, hx, hx', hy, hy']
      exact ⟨z, hz, hz'⟩

/-! ## Statements and programs -/

/-- Carrying out a statement did not fail: the invariant holds behind it, and the
names in the table are what they were. -/
def Continues (scope : SymbolTable) (later : List String) (before : SymbolTable)
    (outcome : Except RunError SymbolTable) (result : Option Store) : Prop :=
  ∃ table store, outcome = .ok table ∧ result = some store ∧ table.names = before.names ∧
    Tracks scope later table store

/-- A resolved statement does what the statement means. -/
theorem Statement.Resolves.execute_agree {scope extended table : SymbolTable}
    {later : List String} {store : Store} {statement : Statement String}
    {statement' : Statement Int} (hresolves : statement.Resolves scope statement' extended)
    (hknown : statement.Arithmetic)
    (h : Tracks scope (statement.declared ++ later) table store) :
    Agree (Continues extended later table) (statement'.execute table)
      (statement.interpret store) := by
  cases hresolves with
  | declaration new =>
      exact Agree.done ⟨table, _, rfl, rfl, rfl, h.declare new⟩
  | @input name slot found =>
      refine Agree.bind (Agree.refl readNumber) (g := fun x =>
        return some (store.assign name x)) fun x x' hx => ?_
      subst hx
      obtain ⟨hset, htracks⟩ := h.set found x
      have hnames := SymbolTable.names_modify table slot x
      refine Agree.done ⟨table.modify slot x, _, ?_, rfl, hnames, htracks⟩
      rw [SymbolTable.store, hset]
      rfl
  | output value =>
      obtain ⟨x, hvalue, hvalueIn⟩ := value.value h hknown
      rw [execute, executeWith, interpret, hvalue, hvalueIn]
      exact (Agree.done ⟨table, store, rfl, rfl, rfl, h⟩).write _
  | @assignment name slot _ _ found value =>
      obtain ⟨x, hvalue, hvalueIn⟩ := value.value h hknown
      obtain ⟨hset, htracks⟩ := h.set found x
      rw [execute, executeWith, interpret, hvalue, hvalueIn]
      have hnames := SymbolTable.names_modify table slot x
      refine Agree.done ⟨table.modify slot x, _, ?_, rfl, hnames, htracks⟩
      rw [SymbolTable.store, hset]
      rfl

/-- Carrying out a program did not fail: the table holds exactly the variables
that the program text ends with, under the names that it started with. -/
structure Completes {ε : Type} (before : SymbolTable) (outcome : SymbolTable × Option ε)
    (result : Option Store) : Prop where
  noFault : outcome.2 = none
  coherent : outcome.1.Coherent
  names : outcome.1.names = before.names
  store : result = some outcome.1.entries.toList

/-- A resolved program does what the program text means. The induction follows
the statements, with the invariant between any two. -/
theorem Program.Resolves.execute_agree {scope final table : SymbolTable} {store : Store}
    {program : Program String} {resolved : Program Int} (debug : Bool)
    (hresolves : Resolves scope program resolved final)
    (hknown : ∀ statement ∈ program, statement.Arithmetic)
    (h : Tracks scope (declared program) table store) :
    Agree (Completes table) (Program.execute debug table resolved)
      (Program.interpret store program) := by
  induction hresolves generalizing table store with
  | nil =>
      refine Agree.done ⟨rfl, h.coherent, rfl, ?_⟩
      rw [h.entries]
      simp [zeros, declared]
  | cons first others ih =>
      rw [declared_cons] at h
      rw [List.forall_mem_cons] at hknown
      rw [Program.execute, executeAll, interpret]
      refine Agree.trace_left debug _ (Agree.bind (first.execute_agree hknown.1 h) ?_)
      rintro outcome result ⟨changed, store', rfl, rfl, hnames, htracks⟩
      refine (ih hknown.2 htracks).mono fun outcome result hcompletes => ?_
      exact ⟨hcompletes.noFault, hcompletes.coherent, hcompletes.names.trans hnames,
        hcompletes.store⟩

/-! ## Resolving and carrying out -/

/-- Resolve a program and carry it out, whether or not all of it could be resolved. -/
def Program.resolveAndExecute (debug : Bool) (table : SymbolTable) (program : Program String) :
    Interaction (SymbolTable × Option RunError) := do
  let resolution := Program.resolve table program
  resolution.trace debug (·.toNode.inline) program
  resolution.resolved.execute debug resolution.table

/-- At the start of a run, the variables that exist are those of the table against
which the program was resolved. -/
theorem Program.Resolves.tracks {table final : SymbolTable} {program : Program String}
    {resolved : Program Int} (hresolves : Resolves table program resolved final)
    (hcoherent : table.Coherent) :
    Tracks table (declared program) final table.entries.toList where
  coherentScope := hcoherent
  coherent := hresolves.coherent hcoherent
  names := rfl
  entries := hresolves.entries

theorem Program.resolveAndExecute_agree (debug : Bool) {table : SymbolTable}
    (hcoherent : table.Coherent) {program : Program String}
    (hknown : ∀ statement ∈ program, statement.Arithmetic)
    (hresolves : (Program.resolve table program).error = none) :
    Agree (Completes (Program.resolve table program).table)
      (Program.resolveAndExecute debug table program)
      (Program.interpret table.entries.toList program) := by
  have hprogram := resolves_of_error_eq_none hresolves
  exact Agree.traces_left debug _ _
    (hprogram.execute_agree debug hknown (hprogram.tracks hcoherent))

/-- A program that can be resolved against a coherent table does, once it is
resolved, what its text means: at every console, both come to the same end with
the same variables and values in the same order, have read the same lines, and
have written the same, but for what is written when debugging. -/
theorem Program.resolveAndExecute_refines_interpret (debug : Bool) {table : SymbolTable}
    (hcoherent : table.Coherent) {program : Program String}
    (hknown : ∀ statement ∈ program, statement.Arithmetic)
    (hresolves : (Program.resolve table program).error = none) (console : Console) :
    ∃ final left left',
      (Program.resolveAndExecute debug table program).run console = ((final, none), left) ∧
      (Program.interpret table.entries.toList program).run console =
        (some final.entries.toList, left') ∧
      final.Coherent ∧ left.pending = left'.pending ∧ left.output = left'.output ∧
      left.prompts = left'.prompts ∧ left.visible = left'.visible := by
  obtain ⟨hcompletes, hvisible⟩ :=
    resolveAndExecute_agree debug hcoherent hknown hresolves console console rfl
  generalize hrun : (Program.resolveAndExecute debug table program).run console = outcome
    at hcompletes hvisible
  generalize hmeaning : (Program.interpret table.entries.toList program).run console = meaning
    at hcompletes hvisible
  obtain ⟨⟨final, fault⟩, left⟩ := outcome
  obtain ⟨result, left'⟩ := meaning
  obtain rfl : fault = none := hcompletes.noFault
  obtain rfl : result = some final.entries.toList := hcompletes.store
  obtain ⟨hpending, houtput, hprompts⟩ := Console.eq_of_visible_eq hvisible
  exact ⟨final, left, left', rfl, rfl, hcompletes.coherent, hpending, houtput, hprompts, hvisible⟩

/-- A program that reads a number, and divides it by a variable that it does not
declare. -/
def Program.readAndDivide : Program String :=
  [.declaration "a", .input "a",
    .output (.term (.product (.factor (.ref "a")) .divide (.ref "x")))]

/-- Also where the variable of an earlier program is still zero. -/
theorem Program.readAndDivide_refines_interpret :
    ∃ final left left',
      (Program.resolveAndExecute true ((∅ : SymbolTable).push "x") readAndDivide).run
        { pending := ["3"] } = ((final, none), left) ∧
      (Program.interpret [("x", 0.0)] readAndDivide).run { pending := ["3"] } =
        (some final.entries.toList, left') ∧
      left.output = left'.output ∧ left.prompts = left'.prompts := by
  have hnew : (∅ : SymbolTable).contains "x" = false := by decide
  have hknown : ∀ statement ∈ readAndDivide, statement.Arithmetic := by
    simp [readAndDivide, Statement.Arithmetic, Expr.Arithmetic, Operator.Known]
  obtain ⟨final, left, left', hrun, hmeaning, -, -, houtput, hprompts, -⟩ :=
    Program.resolveAndExecute_refines_interpret true (SymbolTable.coherent_empty.push hnew)
      hknown (by decide) { pending := ["3"] }
  exact ⟨final, left, left', hrun, hmeaning, houtput, hprompts⟩

end Calc
