/-
# Calls of a symbol table

A table is used by five operations, in any order, with any names and with any
integers for slots and sizes. What a call answers and what it does to the list of
entries is stated apart from the table, without the map of slots: `Effect` has one
case for every way in which a call can end. The two parts of the table agree with
it through every sequence of calls: the map always holds exactly the names of the
entries with their positions.

A name has the slot that it was declared with for as long as its entry is kept. A
call that fails leaves the table as it was.
-/

import Calc.Proofs.SymbolTable.Truncation

namespace Calc.SymbolTable

/-- An operation with its arguments. -/
inductive Call where
  | declare (name : String)
  /-- look up the slot of a name -/
  | find (name : String)
  | get (slot : Int)
  | set (slot : Int) (value : Float)
  | truncate (size : Int)

/-- What a call returns. -/
inductive Answer where
  | slot (slot : Nat)
  | value (value : Float)
  | nothing

/-- Why a call fails. -/
inductive CallError where
  | name (error : NameError)
  | slot (error : SlotError)

/-- Make a call. -/
def call (table : SymbolTable) : Call → Except CallError Answer × SymbolTable
  | .declare name =>
      match table.declare name with
      | .error e => (.error (.name e), table)
      | .ok (slot, extended) => (.ok (.slot slot), extended)
  | .find name =>
      match table.slotOf name with
      | .error e => (.error (.name e), table)
      | .ok slot => (.ok (.slot slot), table)
  | .get slot =>
      match table.get slot with
      | .error e => (.error (.slot e), table)
      | .ok value => (.ok (.value value), table)
  | .set slot value =>
      match table.set slot value with
      | .error e => (.error (.slot e), table)
      | .ok changed => (.ok .nothing, changed)
  | .truncate size => (.ok .nothing, table.truncate size)

/-- The table after calls were made one after another, whether or not they failed. -/
def after (table : SymbolTable) (calls : List Call) : SymbolTable :=
  calls.foldl (fun table made => (table.call made).2) table

/-! ## What a call means -/

/-- A slot names the entry at its position; a negative one counts from the end. -/
def Denotes (table : SymbolTable) (slot : Int) (i : Nat) : Prop :=
  i < table.size ∧ ((i : Int) = slot ∨ (i : Int) = table.size + slot)

/-- The outcome of a call, and the table behind it, as far as the entries go. A call
that fails has no effect at all. -/
inductive Effect (before : SymbolTable) :
    Call → Except CallError Answer → SymbolTable → Prop
  | declare {name : String} {after : SymbolTable} (new : name ∉ before.names)
      (entries : after.entries.toList = before.entries.toList ++ [(name, 0.0)]) :
      Effect before (.declare name) (.ok (.slot before.size)) after
  | duplicate {name : String} (old : name ∈ before.names) :
      Effect before (.declare name) (.error (.name (.duplicate name))) before
  | find {name : String} {slot : Nat} (found : before.names[slot]? = some name) :
      Effect before (.find name) (.ok (.slot slot)) before
  | undefined {name : String} (missing : name ∉ before.names) :
      Effect before (.find name) (.error (.name (.undefined name))) before
  | get {slot : Int} {i : Nat} {name : String} {value : Float}
      (denotes : before.Denotes slot i) (entry : before.entries[i]? = some (name, value)) :
      Effect before (.get slot) (.ok (.value value)) before
  | getOutOfRange {slot : Int} (outside : ∀ i, ¬ before.Denotes slot i) :
      Effect before (.get slot) (.error (.slot .outOfRange)) before
  | set {slot : Int} {value : Float} {i : Nat} {name : String} {old : Float}
      {after : SymbolTable} (denotes : before.Denotes slot i)
      (entry : before.entries[i]? = some (name, old))
      (here : after.entries[i]? = some (name, value))
      (elsewhere : ∀ j, j ≠ i → after.entries[j]? = before.entries[j]?) :
      Effect before (.set slot value) (.ok .nothing) after
  | setOutOfRange {slot : Int} {value : Float} (outside : ∀ i, ¬ before.Denotes slot i) :
      Effect before (.set slot value) (.error (.slot .outOfRange)) before
  | truncate {size : Int} {after : SymbolTable}
      (kept : ∀ i : Nat, after.entries[i]? =
        if (i : Int) < (if size < 0 then before.size + size else size) then before.entries[i]?
        else none)
      (forgotten : forgetAll? before.slots (before.names.drop after.size) = some after.slots) :
      Effect before (.truncate size) (.ok .nothing) after

variable {table : SymbolTable}

theorem elementAt_eq_some_iff {slot : Int} {i : Nat} :
    Text.elementAt table.size slot = some i ↔ table.Denotes slot i := by
  simp only [Text.elementAt, Denotes]
  split <;> split <;> simp only [Option.some.injEq, reduceCtorEq, false_iff] <;> omega

theorem elementAt_eq_none_iff {slot : Int} :
    Text.elementAt table.size slot = none ↔ ∀ i, ¬ table.Denotes slot i := by
  rw [Option.eq_none_iff_forall_ne_some]
  exact forall_congr' fun i => not_congr elementAt_eq_some_iff

/-- A position in the table has an entry. -/
theorem exists_entry {i : Nat} (h : i < table.size) :
    ∃ name value, table.entries[i]? = some (name, value) :=
  ⟨_, _, Array.getElem?_eq_getElem h⟩

theorem effect_declare (h : table.Coherent) (name : String) :
    Effect table (.declare name) (table.call (.declare name)).1
      (table.call (.declare name)).2 := by
  rw [call, declare_eq]
  by_cases hname : name ∈ table.names
  · rw [h.contains_iff.mpr hname]
    exact .duplicate hname
  · rw [if_neg (mt h.contains_iff.mp hname)]
    exact .declare hname (by rw [push, Array.toList_push])

theorem effect_find (h : table.Coherent) (name : String) :
    Effect table (.find name) (table.call (.find name)).1 (table.call (.find name)).2 := by
  rw [call, slotOf]
  cases hslot : table.slots[name]? with
  | some slot => exact .find ((h.slots_eq_some_iff name slot).mp hslot)
  | none =>
      refine .undefined fun hname => ?_
      rw [← h.contains_iff, contains_eq, hslot] at hname
      cases hname

theorem effect_get (table : SymbolTable) (slot : Int) :
    Effect table (.get slot) (table.call (.get slot)).1 (table.call (.get slot)).2 := by
  rw [call, get]
  cases hslot : Text.elementAt table.size slot with
  | none => exact .getOutOfRange (elementAt_eq_none_iff.mp hslot)
  | some i =>
      obtain ⟨name, value, hentry⟩ := table.exists_entry (Text.elementAt_lt hslot)
      simp only [hentry]
      exact .get (elementAt_eq_some_iff.mp hslot) hentry

theorem effect_set (table : SymbolTable) (slot : Int) (value : Float) :
    Effect table (.set slot value) (table.call (.set slot value)).1
      (table.call (.set slot value)).2 := by
  rw [call, set]
  cases hslot : Text.elementAt table.size slot with
  | none => exact .setOutOfRange (elementAt_eq_none_iff.mp hslot)
  | some i =>
      obtain ⟨name, old, hentry⟩ := table.exists_entry (Text.elementAt_lt hslot)
      refine .set (elementAt_eq_some_iff.mp hslot) hentry ?_ fun j hj => ?_
      · rw [Array.getElem?_modify, if_pos rfl, hentry]
        rfl
      · rw [Array.getElem?_modify, if_neg hj.symm]

theorem effect_truncate (h : table.Coherent) (size : Int) :
    Effect table (.truncate size) (table.call (.truncate size)).1
      (table.call (.truncate size)).2 :=
  .truncate (table.getElem?_entries_truncate size) (h.forgetAll?_truncate size)

/-- A call of a coherent table does what it means. -/
theorem Coherent.effect (h : table.Coherent) (made : Call) :
    Effect table made (table.call made).1 (table.call made).2 := by
  cases made with
  | declare name => exact effect_declare h name
  | find name => exact effect_find h name
  | get slot => exact effect_get table slot
  | set slot value => exact effect_set table slot value
  | truncate size => exact effect_truncate h size

/-- A call keeps a table coherent. -/
theorem Coherent.call (h : table.Coherent) (made : Call) : (table.call made).2.Coherent := by
  cases made with
  | declare name =>
      rw [SymbolTable.call, declare_eq]
      cases hname : table.contains name with
      | true => exact h
      | false => exact h.push hname
  | find name =>
      rw [SymbolTable.call]
      split <;> exact h
  | get slot =>
      rw [SymbolTable.call]
      split <;> exact h
  | set slot value =>
      rw [SymbolTable.call]
      split
      case h_1 => exact h
      case h_2 changed hset =>
        obtain ⟨i, -, rfl⟩ := set_eq_ok_iff.mp hset
        exact h.modify i value
  | truncate size => exact h.truncate size

/-- Calls keep a table coherent. -/
theorem Coherent.after (h : table.Coherent) (calls : List Call) :
    (table.after calls).Coherent := by
  induction calls generalizing table with
  | nil => exact h
  | cons made calls ih => exact ih (h.call made)

/-- A call that fails leaves the table as it was. -/
theorem Effect.eq_of_error {made : Call} {error : CallError} {after : SymbolTable}
    (h : Effect table made (.error error) after) : after = table := by
  cases h <;> rfl

/-! ## Slots are kept -/

section Slots

variable {name : String} {slot : Nat}

theorem Coherent.find_eq_ok_iff (h : table.Coherent) :
    (table.call (.find name)).1 = .ok (.slot slot) ↔ table.names[slot]? = some name := by
  rw [← h.slots_eq_some_iff, SymbolTable.call, slotOf]
  cases table.slots[name]? <;> simp

/-- A declaration that succeeds puts the name at the slot that it returns. -/
theorem names_declare (h : (table.call (.declare name)).1 = .ok (.slot slot)) :
    (table.call (.declare name)).2.names[slot]? = some name := by
  rw [call, declare_eq] at h ⊢
  cases hname : table.contains name with
  | true =>
      rw [hname] at h
      cases h
  | false =>
      rw [hname] at h
      obtain rfl : table.size = slot := by cases h; rfl
      rw [if_neg Bool.false_ne_true]
      simp

/-- Only cutting the table back moves a name from its slot. -/
theorem names_call (h : table.names[slot]? = some name) (made : Call) :
    (table.call made).2.names[slot]? = some name ∨
      ∃ size, made = .truncate size ∧ (table.truncate size).size ≤ slot := by
  cases made with
  | declare other =>
      left
      have hlt : slot < table.names.length := (List.getElem?_eq_some_iff.mp h).1
      rw [call, declare_eq]
      cases table.contains other with
      | true => exact h
      | false =>
          change (table.push other).names[slot]? = some name
          rw [names_push, List.getElem?_append_left hlt, h]
  | find other =>
      left
      rw [call]
      split <;> exact h
  | get place =>
      left
      rw [call]
      split <;> exact h
  | set place value =>
      left
      rw [call]
      split
      case h_1 => exact h
      case h_2 changed hset =>
        obtain ⟨i, -, rfl⟩ := set_eq_ok_iff.mp hset
        rw [names_modify, h]
  | truncate size =>
      by_cases hlt : slot < Text.endAt table.size size
      · left
        change (table.truncate size).names[slot]? = some name
        rw [names_truncate, List.getElem?_take, if_pos hlt, h]
      · right
        exact ⟨size, rfl, size_truncate table size ▸ Nat.le_of_not_lt hlt⟩

/-- A name keeps its slot through any calls, until its entry is cut off. -/
theorem names_after (h : table.names[slot]? = some name) (later : List Call) :
    (table.after later).names[slot]? = some name ∨
      ∃ before size behind, later = before ++ .truncate size :: behind ∧
        (table.after before).names[slot]? = some name ∧
        ((table.after before).truncate size).size ≤ slot := by
  induction later generalizing table with
  | nil => exact .inl h
  | cons made later ih =>
      rcases names_call h made with hkept | ⟨size, rfl, hcut⟩
      · rcases ih hkept with hlater | ⟨before, size, behind, rfl, hbefore, hcut⟩
        · exact .inl hlater
        · exact .inr ⟨made :: before, size, behind, rfl, hbefore, hcut⟩
      · exact .inr ⟨[], size, later, rfl, h, hcut⟩

/-- A name whose entry is cut off has no other entry. -/
theorem Coherent.not_mem_truncate (h : table.Coherent) (hslot : table.names[slot]? = some name)
    {size : Int} (hcut : (table.truncate size).size ≤ slot) :
    name ∉ (table.truncate size).names := by
  rw [size_truncate] at hcut
  rw [names_truncate]
  refine fun htaken => List.disjoint_take_drop h.nodup hcut htaken ?_
  exact List.mem_of_mem_head? (by rw [List.head?_drop, hslot]; rfl)

/-- A name that is not in the table cannot be looked up, and it can be declared. -/
theorem Coherent.call_of_not_mem (h : table.Coherent) (hname : name ∉ table.names) :
    (table.call (.find name)).1 = .error (.name (.undefined name)) ∧
      (table.call (.declare name)).1 = .ok (.slot table.size) := by
  have hnone : table.contains name = false := by
    rw [← Bool.not_eq_true, h.contains_iff]
    exact hname
  constructor
  · rw [contains_eq, Option.isSome_eq_false_iff, Option.isNone_iff_eq_none] at hnone
    rw [SymbolTable.call, slotOf, hnone]
  · rw [SymbolTable.call, declare_eq, hnone]
    rfl

end Slots

/-- Through every sequence of calls on a table that was empty at first, with any names
and integers: the names of the entries are distinct, and the map sends exactly these
names to their positions; every further call does to the entries what it means, and
leaves the table as it was if it fails; a declared name keeps its slot until its entry
is cut off; and the names that are cut off are unknown, so that they can be declared
again, behind what is left. -/
theorem calls_keep_representation (calls : List Call) :
    let table := (∅ : SymbolTable).after calls
    (table.names.Nodup ∧
      ∀ (name : String) (slot : Nat),
        table.slots[name]? = some slot ↔ table.names[slot]? = some name) ∧
    (∀ made, Effect table made (table.call made).1 (table.call made).2) ∧
    (∀ made error, (table.call made).1 = .error error → (table.call made).2 = table) ∧
    (∀ name slot, (table.call (.declare name)).1 = .ok (.slot slot) → ∀ later,
      ((table.after (.declare name :: later)).call (.find name)).1 = .ok (.slot slot) ∨
      ∃ before size behind, later = before ++ .truncate size :: behind ∧
        let last := table.after (.declare name :: before)
        (last.call (.find name)).1 = .ok (.slot slot) ∧
        (last.call (.truncate size)).2.size ≤ slot ∧
        name ∉ (last.call (.truncate size)).2.names) ∧
    (∀ size, let cut := (table.call (.truncate size)).2
      ∀ name ∈ table.names, name ∉ cut.names →
        (cut.call (.find name)).1 = .error (.name (.undefined name)) ∧
        (cut.call (.declare name)).1 = .ok (.slot cut.size)) := by
  intro table
  have hcoherent : table.Coherent := coherent_empty.after calls
  refine ⟨⟨hcoherent.nodup, hcoherent.slots_eq_some_iff⟩, hcoherent.effect, ?_, ?_, ?_⟩
  · intro made error herror
    have heffect := hcoherent.effect made
    rw [herror] at heffect
    exact heffect.eq_of_error
  · intro name slot hdeclare later
    have hafter : ∀ calls, (table.after (.declare name :: calls)).Coherent := fun calls =>
      hcoherent.after _
    rcases names_after (names_declare hdeclare) later with
      hkept | ⟨before, size, behind, rfl, hbefore, hcut⟩
    · exact .inl ((hafter later).find_eq_ok_iff.mpr hkept)
    · exact .inr ⟨before, size, behind, rfl, (hafter before).find_eq_ok_iff.mpr hbefore, hcut,
        (hafter before).not_mem_truncate hbefore hcut⟩
  · intro size cut name _ hcut
    exact (hcoherent.truncate size).call_of_not_mem hcut

/-- Cut back by one from the end, a table of two variables has only the first one, and
the second one can be declared again. -/
theorem calls_declare_again :
    let table := (∅ : SymbolTable).after [.declare "a", .declare "b"]
    let cut := (table.call (.truncate (-1))).2
    (cut.call (.find "b")).1 = .error (.name (.undefined "b")) ∧
      (cut.call (.declare "b")).1 = .ok (.slot cut.size) :=
  (calls_keep_representation [.declare "a", .declare "b"]).2.2.2.2 (-1) "b"
    (by decide) (by decide)

end Calc.SymbolTable
