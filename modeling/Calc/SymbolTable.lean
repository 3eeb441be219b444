/-
# The symbol table

Variables stand in the order of their declaration; the slot of a variable is its
position there, and it does not change while the variable is kept. The slot of a
name is looked up in a map. The two parts belong together: the names of the
entries are pairwise distinct, and the map sends exactly these names to their
positions. Every operation keeps that (`SymbolTable.Coherent`).

Slots and sizes may be negative and then count from the end.
-/

import Calc.Number.Layout
import Calc.Text.Position
import Calc.Text.Quoted
import Std.Data.ExtTreeMap

namespace Calc

/-- The variables that are declared, with their values. -/
structure SymbolTable where
  /-- names and values in the order of declaration -/
  entries : Array (String × Float) := #[]
  /-- the slot of every declared name -/
  slots : Std.ExtTreeMap String Nat := ∅

/-- Why a name cannot be resolved. -/
inductive NameError where
  /-- the name is declared, and a variable of that name exists -/
  | duplicate (name : String)
  /-- the name is used, and no variable of that name exists -/
  | undefined (name : String)
  deriving DecidableEq, Repr

namespace NameError

/-- The name in question. -/
def name : NameError → String
  | duplicate name => name
  | undefined name => name

/-- The text of the error. -/
def message : NameError → String
  | duplicate name => "Identifier '" ++ name ++ "' already declared"
  | undefined name => "Undefined identifier '" ++ name ++ "'"

end NameError

/-- No entry has the given slot. -/
inductive SlotError where
  | outOfRange
  deriving DecidableEq, Repr

/-- The text of the error. -/
def SlotError.message : SlotError → String
  | outOfRange => "list index out of range"

namespace SymbolTable

/-- The table without variables. -/
def empty : SymbolTable := {}

instance : EmptyCollection SymbolTable := ⟨empty⟩

/-- How many variables there are. -/
def size (table : SymbolTable) : Nat :=
  table.entries.size

/-- Whether there are no variables. -/
def isEmpty (table : SymbolTable) : Bool :=
  table.entries.isEmpty

/-- The names in the order of declaration. -/
def names (table : SymbolTable) : List String :=
  table.entries.toList.map Prod.fst

/-- Whether a variable of that name is declared. -/
def contains (table : SymbolTable) (name : String) : Bool :=
  table.slots.contains name

/-- Declare a variable, with the value zero, behind all others. -/
def declare (table : SymbolTable) (name : String) : Except NameError (Nat × SymbolTable) :=
  if table.contains name then .error (.duplicate name)
  else .ok (table.size,
    { entries := table.entries.push (name, 0.0), slots := table.slots.insert name table.size })

/-- The slot of a name. -/
def slotOf (table : SymbolTable) (name : String) : Except NameError Nat :=
  match table.slots[name]? with
  | some slot => .ok slot
  | none => .error (.undefined name)

/-- The value of a variable. -/
def get (table : SymbolTable) (slot : Int) : Except SlotError Float :=
  match Text.elementAt table.size slot with
  | none => .error .outOfRange
  | some i =>
      match table.entries[i]? with
      | none => .error .outOfRange
      | some (_, value) => .ok value

/-- Give a variable another value. -/
def set (table : SymbolTable) (slot : Int) (value : Float) : Except SlotError SymbolTable :=
  match Text.elementAt table.size slot with
  | none => .error .outOfRange
  | some i => .ok { table with entries := table.entries.modify i fun entry => (entry.1, value) }

/-- Keep only the first `size` variables, and forget the names of the others. -/
def truncate (table : SymbolTable) (size : Int) : SymbolTable :=
  let kept := Text.endAt table.size size
  let forgotten := table.entries.toList.drop kept
  { entries := table.entries.take kept
    slots := forgotten.foldl (fun slots entry => slots.erase entry.1) table.slots }

/-- The line of a variable in the listing. -/
def listingLine (entry : String × Float) : String :=
  entry.1 ++ ": " ++ printedNumber entry.2

/-- The listing of all variables with their values. -/
def listing (table : SymbolTable) : String :=
  if table.isEmpty then "No variables assigned yet"
  else "\n".intercalate ("Variables:" :: table.entries.toList.map listingLine)

/-- A variable on one line, in the way trees are shown. -/
def inlineEntry (entry : String × Float) : String :=
  "(" ++ Text.quoted entry.1 ++ ", " ++ Layout.tree.render entry.2 ++ ")"

/-- A table on one line, in the way trees are shown. -/
def inline (table : SymbolTable) : String :=
  "SymbolTable([" ++ ", ".intercalate (table.entries.toList.map inlineEntry) ++ "])"

/-- The names of the variables are pairwise distinct, and exactly they have a
slot, which is their position. -/
structure Coherent (table : SymbolTable) : Prop where
  nodup : table.names.Nodup
  slots_eq_some_iff : ∀ (name : String) (slot : Nat),
    table.slots[name]? = some slot ↔ table.names[slot]? = some name

end SymbolTable

end Calc
