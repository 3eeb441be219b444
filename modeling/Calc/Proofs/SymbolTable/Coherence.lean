/-
# Coherent tables

In a coherent table the slot of a name is a function of the names in their order.
Declaring a name appends it, and storing a value changes no name, so both keep a
table coherent; and two coherent tables with the same entries are the same table.
-/

import Calc.SymbolTable
import Mathlib.Data.List.Nodup

namespace Calc.SymbolTable

variable {table other : SymbolTable} {name : String}

@[simp]
theorem length_names (table : SymbolTable) : table.names.length = table.size := by
  simp [names, size]

/-- A name stands where an entry has it. -/
theorem getElem?_names_eq_some_iff {slot : Nat} :
    table.names[slot]? = some name ↔ ∃ value, table.entries[slot]? = some (name, value) := by
  simp [names]

/-- The table without variables is coherent. -/
theorem coherent_empty : (∅ : SymbolTable).Coherent where
  nodup := List.nodup_nil
  slots_eq_some_iff name slot := by
    change (∅ : Std.ExtTreeMap String Nat)[name]? = some slot ↔
      ([] : List String)[slot]? = some name
    simp

/-! ## Looking names up -/

theorem contains_eq (table : SymbolTable) (name : String) :
    table.contains name = table.slots[name]?.isSome :=
  Std.ExtTreeMap.contains_eq_isSome_getElem?

theorem slotOf_eq_ok_iff {slot : Nat} :
    table.slotOf name = .ok slot ↔ table.slots[name]? = some slot := by
  rw [slotOf]
  cases table.slots[name]? <;> simp

theorem Coherent.contains_iff (h : table.Coherent) :
    table.contains name = true ↔ name ∈ table.names := by
  rw [contains_eq, Option.isSome_iff_exists, List.mem_iff_getElem?]
  exact exists_congr (h.slots_eq_some_iff name)

/-- The slots of a coherent table are determined by its names. -/
theorem Coherent.slots_eq (h : table.Coherent) (h' : other.Coherent)
    (hnames : table.names = other.names) : table.slots = other.slots := by
  ext name slot
  rw [h.slots_eq_some_iff, h'.slots_eq_some_iff, hnames]

/-- Coherent tables with the same entries are equal. -/
theorem Coherent.ext (h : table.Coherent) (h' : other.Coherent)
    (hentries : table.entries.toList = other.entries.toList) : table = other := by
  have hnames : table.names = other.names := congrArg (List.map Prod.fst) hentries
  have hslots := h.slots_eq h' hnames
  cases table
  cases other
  congr
  exact Array.toList_inj.mp hentries

/-! ## Declaring names -/

/-- The table with one more variable, which is zero. -/
def push (table : SymbolTable) (name : String) : SymbolTable :=
  { entries := table.entries.push (name, 0.0), slots := table.slots.insert name table.size }

theorem declare_eq (table : SymbolTable) (name : String) :
    table.declare name =
      if table.contains name then .error (.duplicate name) else .ok (table.size, table.push name) :=
  rfl

@[simp]
theorem names_push (table : SymbolTable) (name : String) :
    (table.push name).names = table.names ++ [name] := by
  simp [names, push]

theorem slots_push (table : SymbolTable) (name later : String) :
    (table.push name).slots[later]? =
      if name = later then some table.size else table.slots[later]? := by
  rw [push, Std.ExtTreeMap.getElem?_insert]
  simp

/-- Where a name stands behind others among which it is not. -/
private theorem getElem?_append_new {names : List String} (hnew : name ∉ names) (later : String)
    (slot : Nat) : (names ++ [name])[slot]? = some later ↔
      if name = later then names.length = slot else names[slot]? = some later := by
  rw [List.getElem?_append, List.getElem?_singleton]
  by_cases hlt : slot < names.length
  · rw [if_pos hlt]
    split
    case isTrue heq =>
      subst heq
      have hne : names[slot]? ≠ some name := fun hslot => hnew (List.mem_of_getElem? hslot)
      exact iff_of_false hne (by omega)
    case isFalse => rfl
  · rw [if_neg hlt, List.getElem?_eq_none (by omega)]
    split
    case isTrue hzero =>
      have hlast : names.length = slot := by omega
      simp [hlast]
    case isFalse hzero =>
      have hlast : names.length ≠ slot := by omega
      simp [hlast]

/-- A new name keeps a table coherent. -/
theorem Coherent.push (h : table.Coherent) (hnew : table.contains name = false) :
    (table.push name).Coherent := by
  have hfresh : name ∉ table.names := by
    rw [← h.contains_iff, hnew]
    exact Bool.false_ne_true
  constructor
  · rw [names_push, ← List.concat_eq_append]
    exact (List.nodup_concat _ _).mpr ⟨hfresh, h.nodup⟩
  · intro later slot
    rw [slots_push, names_push, getElem?_append_new hfresh, length_names]
    split
    case isTrue => exact Option.some_inj
    case isFalse => exact h.slots_eq_some_iff later slot

/-- The table with more variables, in their order. -/
def pushAll (table : SymbolTable) (names : List String) : SymbolTable :=
  names.foldl push table

/-- The entries of variables that were only declared. -/
def zeros (names : List String) : List (String × Float) :=
  names.map fun name => (name, 0.0)

theorem pushAll_append (table : SymbolTable) (first second : List String) :
    table.pushAll (first ++ second) = (table.pushAll first).pushAll second :=
  List.foldl_append

theorem entries_pushAll (table : SymbolTable) (names : List String) :
    (table.pushAll names).entries.toList = table.entries.toList ++ zeros names := by
  induction names generalizing table with
  | nil => simp [pushAll, zeros]
  | cons name names ih =>
      rw [← List.singleton_append, pushAll_append, ih]
      simp [pushAll, push, zeros]

theorem contains_push (table : SymbolTable) (name other : String) :
    (table.push name).contains other = (name == other || table.contains other) := by
  rw [contains, push, Std.ExtTreeMap.contains_insert, contains]
  congr 1
  rw [Bool.eq_iff_iff]
  simp

/-! ## Values -/

/-- The table with another value at a slot. -/
def modify (table : SymbolTable) (slot : Nat) (value : Float) : SymbolTable :=
  { table with entries := table.entries.modify slot fun entry => (entry.1, value) }

theorem entries_modify (table : SymbolTable) (slot : Nat) (value : Float) :
    (table.modify slot value).entries.toList =
      table.entries.toList.modify slot fun entry => (entry.1, value) := by
  rw [modify, Array.toList_modify]

@[simp]
theorem names_modify (table : SymbolTable) (slot : Nat) (value : Float) :
    (table.modify slot value).names = table.names := by
  rw [names, entries_modify]
  apply List.ext_getElem?
  intro i
  rw [List.getElem?_map, List.getElem?_modify, names, List.getElem?_map]
  by_cases hi : slot = i <;> cases table.entries.toList[i]? <;> simp [hi]

theorem set_eq_ok_iff {slot : Int} {value : Float} :
    table.set slot value = .ok other ↔
      ∃ i, Text.elementAt table.size slot = some i ∧ other = table.modify i value := by
  rw [set]
  cases Text.elementAt table.size slot with
  | none => simp
  | some i => simp [modify, eq_comm]

/-- Storing a value keeps a table coherent. -/
theorem Coherent.modify (h : table.Coherent) (slot : Nat) (value : Float) :
    (table.modify slot value).Coherent := by
  constructor
  · rw [names_modify]
    exact h.nodup
  · rw [names_modify]
    exact h.slots_eq_some_iff

/-- A slot inside the table is found, and counts from the front. -/
theorem elementAt_ofNat {size slot : Nat} (h : slot < size) :
    Text.elementAt size (slot : Int) = some slot := by
  have hnat : ¬ (slot : Int) < 0 := by omega
  simp [Text.elementAt, hnat, h]

theorem get_ofNat {slot : Nat} {value : Float}
    (h : table.entries.toList[slot]? = some (name, value)) :
    table.get slot = .ok value := by
  have hlt : slot < table.size := (List.getElem?_eq_some_iff.mp h).1
  rw [Array.getElem?_toList] at h
  rw [get, elementAt_ofNat hlt]
  simp [h]

theorem set_ofNat {slot : Nat} (h : slot < table.size) (value : Float) :
    table.set slot value = .ok (table.modify slot value) :=
  set_eq_ok_iff.mpr ⟨slot, elementAt_ofNat h, rfl⟩

end Calc.SymbolTable
