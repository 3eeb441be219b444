/-
# Cutting tables back

Cutting a table back to a size keeps the entries in front and forgets the names of
all others. The names are forgotten one after another, and each of them still has
its slot when its turn comes, because no name stands in two entries. What is left
is coherent: exactly the names that were kept have a slot, and it is the old one.
-/

import Calc.Proofs.SymbolTable.Rollback

namespace Calc.SymbolTable

variable {table : SymbolTable} {names : List String} {name : String}

/-- A position stands in front of the end that an integer names. -/
theorem lt_endAt_iff {size i : Nat} {bound : Int} :
    i < Text.endAt size bound ↔
      i < size ∧ (i : Int) < if bound < 0 then size + bound else bound := by
  unfold Text.endAt
  split <;> omega

theorem entries_truncate (table : SymbolTable) (size : Int) :
    (table.truncate size).entries.toList =
      table.entries.toList.take (Text.endAt table.size size) := by
  rw [truncate, Array.take_eq_extract, Array.toList_extract, List.extract_eq_take_drop,
    List.drop_zero, Nat.sub_zero]

theorem names_truncate (table : SymbolTable) (size : Int) :
    (table.truncate size).names = table.names.take (Text.endAt table.size size) := by
  rw [names, entries_truncate, List.map_take, names]

theorem size_truncate (table : SymbolTable) (size : Int) :
    (table.truncate size).size = Text.endAt table.size size := by
  rw [← length_names, names_truncate, List.length_take, length_names]
  exact Nat.min_eq_left (Text.endAt_le table.size size)

/-- An entry is kept where it stands in front of the size, counted from the end if
the size is negative. -/
theorem getElem?_entries_truncate (table : SymbolTable) (size : Int) (i : Nat) :
    (table.truncate size).entries[i]? =
      if (i : Int) < (if size < 0 then table.size + size else size) then table.entries[i]?
      else none := by
  rw [← Array.getElem?_toList, entries_truncate, List.getElem?_take, Array.getElem?_toList]
  by_cases hsize : i < table.size
  · simp only [lt_endAt_iff, hsize, true_and]
  · have hnone : table.entries[i]? = none := Array.getElem?_eq_none (Nat.le_of_not_lt hsize)
    rw [hnone, ite_self, ite_self]

/-! ## Names that are forgotten -/

/-- Forget the slots of names one after another. A name without a slot cannot be
forgotten. -/
def forgetAll? (slots : Std.ExtTreeMap String Nat) :
    List String → Option (Std.ExtTreeMap String Nat)
  | [] => some slots
  | name :: rest => if slots.contains name then forgetAll? (slots.erase name) rest else none

/-- Distinct names with slots can all be forgotten. -/
theorem forgetAll?_eq_some {slots : Std.ExtTreeMap String Nat} (hnodup : names.Nodup)
    (hslots : ∀ name ∈ names, slots.contains name = true) :
    forgetAll? slots names = some (names.foldl (fun slots name => slots.erase name) slots) := by
  induction names generalizing slots with
  | nil => rfl
  | cons name names ih =>
      rw [List.nodup_cons] at hnodup
      rw [List.forall_mem_cons] at hslots
      have hothers : ∀ other ∈ names, (slots.erase name).contains other = true := by
        intro other hother
        have hne : name ≠ other := fun heq => hnodup.1 (heq ▸ hother)
        rw [Std.ExtTreeMap.contains_erase, hslots.2 other hother, Bool.and_true]
        simpa using hne
      rw [forgetAll?, if_pos hslots.1, ih hnodup.2 hothers, List.foldl_cons]

/-- Where a table is cut back, every name behind the cut has its slot until it is
forgotten. -/
theorem Coherent.forgetAll?_truncate (h : table.Coherent) (size : Int) :
    forgetAll? table.slots (table.names.drop (table.truncate size).size) =
      some (table.truncate size).slots := by
  have hmem : ∀ name ∈ table.names.drop (table.truncate size).size,
      table.slots.contains name = true := by
    intro name hname
    exact h.contains_iff.mpr (List.mem_of_mem_drop hname)
  rw [forgetAll?_eq_some (h.nodup.sublist (List.drop_sublist _ _)) hmem, size_truncate, names,
    ← List.map_drop, List.foldl_map]
  rfl

/-- A name has a slot after the cut if it had one in front of the cut. -/
theorem slots_truncate (table : SymbolTable) (size : Int) (name : String) :
    (table.truncate size).slots[name]? =
      if name ∈ table.names.drop (Text.endAt table.size size) then none
      else table.slots[name]? := by
  rw [truncate, getElem?_foldl_erase, List.map_drop]
  rfl

/-- Cutting a table back keeps it coherent. -/
theorem Coherent.truncate (h : table.Coherent) (size : Int) : (table.truncate size).Coherent := by
  constructor
  · rw [names_truncate]
    exact h.nodup.sublist (List.take_sublist _ _)
  · intro name slot
    rw [slots_truncate, names_truncate, List.getElem?_take]
    generalize Text.endAt table.size size = kept
    split
    case isTrue hdropped =>
      -- The name stands behind the cut, and therefore not in front of it as well.
      refine iff_of_false (by simp) fun hfront => ?_
      have htaken : name ∈ table.names.take kept := by
        rw [← List.getElem?_take] at hfront
        exact List.mem_of_getElem? hfront
      exact List.disjoint_take_drop h.nodup (Nat.le_refl kept) htaken hdropped
    case isFalse hkept =>
      rw [h.slots_eq_some_iff]
      split
      case isTrue => rfl
      case isFalse hbehind =>
        refine iff_of_false (fun hslot => hkept ?_) (by simp)
        apply @List.mem_of_getElem? _ _ (slot - kept)
        rw [List.getElem?_drop, Nat.add_sub_cancel' (Nat.le_of_not_lt hbehind)]
        exact hslot

end Calc.SymbolTable
