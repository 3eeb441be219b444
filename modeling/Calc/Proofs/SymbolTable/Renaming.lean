/-
# Tables under other names

A table is renamed by giving every variable another name; the variables keep their
order, their slots and their values. If distinct names stay distinct, the renamed
table has the same slots for the new names as the table had for the old ones, and no
slot for any other name. So declaring and looking up a new name does on the renamed
table what the old name does on the table, whether it succeeds or fails, and values
are not touched by names at all.
-/

import Calc.Execution
import Calc.Proofs.SymbolTable.Coherence

namespace Calc

/-- The same error for another name. -/
def NameError.rename (f : String → String) : NameError → NameError
  | duplicate name => duplicate (f name)
  | undefined name => undefined (f name)

namespace SymbolTable

/-- The table with other names for its variables. -/
def rename (f : String → String) (table : SymbolTable) : SymbolTable where
  entries := table.entries.map (Prod.map f id)
  slots := Std.ExtTreeMap.ofList (table.slots.toList.map (Prod.map f id))

variable {f : String → String} {table : SymbolTable} {name : String} {slot : Nat}

theorem entries_rename (f : String → String) (table : SymbolTable) :
    (table.rename f).entries.toList = table.entries.toList.map (Prod.map f id) := by
  rw [rename, Array.toList_map]

@[simp]
theorem size_rename (f : String → String) (table : SymbolTable) :
    (table.rename f).size = table.size := by
  rw [size, rename, Array.size_map, size]

@[simp]
theorem names_rename (f : String → String) (table : SymbolTable) :
    (table.rename f).names = table.names.map f := by
  rw [names, entries_rename, names, List.map_map, List.map_map]
  rfl

section Injective

variable (hf : Function.Injective f)

include hf

/-! ## Looking names up -/

/-- What has a slot has it under its new name. -/
theorem slots_rename_of_eq_some (h : table.slots[name]? = some slot) :
    (table.rename f).slots[f name]? = some slot := by
  have hdistinct : (table.slots.toList.map (Prod.map f id)).Pairwise
      fun a b => ¬ compare a.1 b.1 = .eq := by
    rw [List.pairwise_map]
    refine table.slots.distinct_keys_toList.imp fun {a b} hne heq => hne ?_
    rw [Std.LawfulEqCmp.compare_eq_iff_eq] at heq ⊢
    exact hf heq
  have hmem : (name, slot) ∈ table.slots.toList :=
    Std.ExtTreeMap.mem_toList_iff_getElem?_eq_some.mpr h
  exact Std.ExtTreeMap.getElem?_ofList_of_mem (by simp) hdistinct (List.mem_map_of_mem hmem)

/-- The renamed table has a slot for a name if the table has this slot for a name that
becomes it. -/
theorem slots_rename_eq_some_iff :
    (table.rename f).slots[name]? = some slot ↔
      ∃ old, f old = name ∧ table.slots[old]? = some slot := by
  constructor
  · intro h
    have hmem : name ∈ (table.rename f).slots := by
      rw [Std.ExtTreeMap.mem_iff_isSome_getElem?, h, Option.isSome_some]
    rw [rename, Std.ExtTreeMap.mem_ofList, List.contains_iff_mem, List.map_map] at hmem
    obtain ⟨⟨old, oldSlot⟩, hold, rfl⟩ := List.mem_map.mp hmem
    have hslots := Std.ExtTreeMap.mem_toList_iff_getElem?_eq_some.mp hold
    have hboth := (slots_rename_of_eq_some hf hslots).symm.trans h
    exact ⟨old, rfl, hslots.trans hboth⟩
  · rintro ⟨old, rfl, hold⟩
    exact slots_rename_of_eq_some hf hold

/-- The slot of a name is found under its new name, and if it has none, neither has
the new name. -/
theorem slots_rename (table : SymbolTable) (name : String) :
    (table.rename f).slots[f name]? = table.slots[name]? := by
  apply Option.ext
  intro slot
  rw [slots_rename_eq_some_iff hf]
  constructor
  · rintro ⟨old, heq, hold⟩
    exact hf heq ▸ hold
  · exact fun h => ⟨name, rfl, h⟩

theorem contains_rename (table : SymbolTable) (name : String) :
    (table.rename f).contains (f name) = table.contains name := by
  rw [contains_eq, slots_rename hf, ← contains_eq]

theorem slotOf_rename (table : SymbolTable) (name : String) :
    (table.rename f).slotOf (f name) = (table.slotOf name).mapError (NameError.rename f) := by
  rw [slotOf, slotOf, slots_rename hf]
  cases table.slots[name]? <;> rfl

/-- Other names keep a table coherent. -/
theorem Coherent.rename (h : table.Coherent) : (table.rename f).Coherent := by
  constructor
  · rw [names_rename]
    exact h.nodup.map hf
  · intro name slot
    rw [slots_rename_eq_some_iff hf, names_rename, List.getElem?_map, Option.map_eq_some_iff]
    simp only [h.slots_eq_some_iff, and_comm]

/-! ## Declaring names -/

/-- The name of a new variable can be exchanged before or after it is declared. -/
theorem rename_push (table : SymbolTable) (name : String) :
    (table.push name).rename f = (table.rename f).push (f name) := by
  have hslots : ((table.push name).rename f).slots = ((table.rename f).push (f name)).slots := by
    apply Std.ExtTreeMap.ext_getElem?
    intro later
    rw [slots_push, size_rename]
    split
    case isTrue heq =>
      rw [← heq, slots_rename hf, slots_push, if_pos rfl]
    case isFalse hne =>
      apply Option.ext
      intro slot
      rw [slots_rename_eq_some_iff hf, slots_rename_eq_some_iff hf]
      refine exists_congr fun old => and_congr_right ?_
      rintro rfl
      rw [slots_push, if_neg fun heq => hne (congrArg f heq)]
  have hentries : ((table.push name).rename f).entries =
      ((table.rename f).push (f name)).entries := by
    rw [rename, push, Array.map_push]
    rfl
  exact congrArg₂ SymbolTable.mk hentries hslots

theorem declare_rename (table : SymbolTable) (name : String) :
    (table.rename f).declare (f name) =
      ((table.declare name).map (Prod.map id (rename f))).mapError (NameError.rename f) := by
  rw [declare_eq, declare_eq, contains_rename hf, size_rename, ← rename_push hf]
  cases table.contains name <;> rfl

end Injective

/-! ## Values -/

theorem getElem?_entries_rename (table : SymbolTable) (i : Nat) :
    (table.rename f).entries[i]? = table.entries[i]?.map (Prod.map f id) := by
  rw [rename, Array.getElem?_map]

/-- No value depends on the names. -/
@[simp]
theorem get_rename (f : String → String) (table : SymbolTable) (slot : Int) :
    (table.rename f).get slot = table.get slot := by
  rw [get, get, size_rename]
  cases Text.elementAt table.size slot with
  | none => rfl
  | some i =>
      simp only [getElem?_entries_rename]
      cases table.entries[i]? <;> rfl

theorem rename_modify (f : String → String) (table : SymbolTable) (slot : Nat) (value : Float) :
    (table.modify slot value).rename f = (table.rename f).modify slot value := by
  have hentries : ((table.modify slot value).rename f).entries =
      ((table.rename f).modify slot value).entries := by
    apply Array.ext_getElem?
    intro i
    rw [getElem?_entries_rename, modify, modify, Array.getElem?_modify, Array.getElem?_modify,
      getElem?_entries_rename]
    split <;> cases table.entries[i]? <;> rfl
  exact congrArg₂ SymbolTable.mk hentries rfl

theorem set_rename (f : String → String) (table : SymbolTable) (slot : Int) (value : Float) :
    (table.rename f).set slot value = (table.set slot value).map (rename f) := by
  rw [set, set, size_rename]
  cases Text.elementAt table.size slot with
  | none => rfl
  | some i => exact congrArg Except.ok (rename_modify f table i value).symm

end SymbolTable

end Calc
