/-
# Taking declarations back

Cutting a table back to an earlier size undoes the declarations that were made
since: the entries behind are dropped, and their names lose their slots. For names
that were new the table is the earlier one again, in both of its parts, whatever
else it holds.
-/

import Calc.Proofs.Resolution.Tables

namespace Calc

namespace SymbolTable

variable {table : SymbolTable}

/-- Names that are forgotten have no slot, and all others keep theirs. -/
theorem getElem?_foldl_erase (entries : List (String × Float))
    (slots : Std.ExtTreeMap String Nat) (name : String) :
    (entries.foldl (fun slots entry => slots.erase entry.1) slots)[name]? =
      if name ∈ entries.map Prod.fst then none else slots[name]? := by
  induction entries generalizing slots with
  | nil => rfl
  | cons entry entries ih =>
      rw [List.foldl_cons, ih, Std.ExtTreeMap.getElem?_erase, List.map_cons]
      by_cases hfirst : entry.1 = name
      · simp [hfirst]
      · have hne : ¬ name = entry.1 := fun h => hfirst h.symm
        simp only [List.mem_cons, hne, false_or, Std.LawfulEqCmp.compare_eq_iff_eq, hfirst,
          if_false]

/-- A declaration changes the slot of its own name only. -/
theorem getElem?_slots_pushAll {names : List String} {name : String} (h : name ∉ names)
    (table : SymbolTable) : (table.pushAll names).slots[name]? = table.slots[name]? := by
  induction names generalizing table with
  | nil => rfl
  | cons first names ih =>
      rw [List.mem_cons, not_or] at h
      have hne : first ≠ name := fun heq => h.1 heq.symm
      have hrest : (table.push first).slots[name]? = table.slots[name]? := by
        rw [slots_push, if_neg hne]
      exact (ih h.2 (table.push first)).trans hrest

/-- Cutting back to the size before new names were declared restores the table. -/
theorem truncate_pushAll {names : List String}
    (hnew : ∀ name ∈ names, table.contains name = false) :
    (table.pushAll names).truncate table.size = table := by
  have hentries := entries_pushAll table names
  have hsize : table.size ≤ (table.pushAll names).size := by
    rw [size, size, ← Array.length_toList, ← Array.length_toList, hentries, List.length_append]
    omega
  have hkept : Text.endAt (table.pushAll names).size table.size = table.size := by
    rw [Text.endAt, if_neg (by omega), Int.toNat_natCast]
    exact Nat.min_eq_left hsize
  have hfront : (table.pushAll names).entries.take table.size = table.entries := by
    apply Array.toList_inj.mp
    rw [Array.take_eq_extract, Array.toList_extract, List.extract_eq_take_drop, hentries,
      List.drop_zero, Nat.sub_zero]
    exact List.take_left' Array.length_toList
  have hback : (table.pushAll names).entries.toList.drop table.size = zeros names := by
    rw [hentries]
    exact List.drop_left' Array.length_toList
  have hslots : (zeros names).foldl (fun slots entry => slots.erase entry.1)
      (table.pushAll names).slots = table.slots := by
    ext name slot
    have hnames : (zeros names).map Prod.fst = names := by simp [zeros, Function.comp_def]
    rw [getElem?_foldl_erase, hnames]
    by_cases hname : name ∈ names
    · have hnone : table.slots[name]? = none := by
        rw [← Option.not_isSome_iff_eq_none, ← contains_eq, hnew name hname]
        exact Bool.false_ne_true
      rw [if_pos hname, hnone]
    · rw [if_neg hname, getElem?_slots_pushAll hname]
  rw [truncate, hkept, hfront, hback, hslots]

end SymbolTable

/-- Whether or not a program could be resolved, cutting the table back to its size
before undoes what resolving did to it. -/
theorem Program.truncate_resolve (table : SymbolTable) (program : Program String) :
    (Program.resolve table program).table.truncate table.size = table := by
  obtain ⟨before, behind, -, hresolves⟩ := exists_resolved_prefix table program
  rw [hresolves.table_eq]
  exact SymbolTable.truncate_pushAll hresolves.new

end Calc
