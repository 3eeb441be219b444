/-
# Positions given by integers

A position in a sequence may be given by a negative number, which counts from the
end. As the position of an element it has to exist; as the end of a part it is
moved to the nearest position there is.
-/

namespace Calc.Text

/-- The element that an integer names in a sequence of the given size. -/
def elementAt (size : Nat) (i : Int) : Option Nat :=
  let n := if i < 0 then size + i else i
  if 0 ≤ n ∧ n < size then some n.toNat else none

/-- How many elements stand before the end that an integer names. -/
def endAt (size : Nat) (i : Int) : Nat :=
  if i < 0 then (size + i).toNat else min i.toNat size

theorem elementAt_lt {size n : Nat} {i : Int} (h : elementAt size i = some n) : n < size := by
  simp only [elementAt] at h
  split at h
  · split at h
    · cases h; omega
    · cases h
  · split at h
    · cases h; omega
    · cases h

theorem endAt_le (size : Nat) (i : Int) : endAt size i ≤ size := by
  unfold endAt; split <;> omega

end Calc.Text
