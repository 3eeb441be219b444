/-
# The fewest digits read back

Whatever the search for the fewest digits returns reads back: a candidate is only
accepted if it does, and the exact expansion, which stands behind the search, does. For a
whole number the search never goes past the point, however large the number is: at the
point the number itself is a candidate. So the digits found end in front of the point
exactly if the number is whole.
-/

import Calc.Proofs.Number.Rounding
import Mathlib.Data.List.Basic

namespace Calc.Binary64

open Decimal (denominator)

/-! ## What the search returns -/

/-- The number found first by a search through the natural numbers is found by none
before it. -/
theorem exists_first_of_findSome? {α : Type} {f : ℕ → Option α} {m : ℕ} {a : α}
    (h : (List.range m).findSome? f = some a) :
    ∃ n, f n = some a ∧ ∀ k < n, f k = none := by
  rcases List.findSome?_eq_some_iff.mp h with ⟨before, n, behind, hrange, hfound, hbefore⟩
  refine ⟨n, hfound, fun k hk => hbefore k ?_⟩
  have hn : n < m := by
    rw [← List.mem_range, hrange]
    exact List.mem_append_right _ List.mem_cons_self
  have hmem : k ∈ before ++ n :: behind := hrange ▸ List.mem_range.mpr (hk.trans hn)
  have hsorted : (before ++ n :: behind).Pairwise (· < ·) := hrange ▸ List.pairwise_lt_range
  rw [List.pairwise_append, List.pairwise_cons] at hsorted
  rcases List.mem_append.mp hmem with hin | hin
  · exact hin
  · rcases List.mem_cons.mp hin with rfl | hin
    · exact absurd hk (lt_irrefl k)
    · exact absurd hk (hsorted.2.1.1 k hin).asymm

/-- The shortest digits stand on the coarsest grid that has digits which read back, unless
they are the exact expansion. -/
theorem shortest_cases {w : ℕ} (hne : w ≠ 0) :
    (∃ n : ℕ, readsBackOn w ((exact w).scale - (n + 1)) = some (shortest w) ∧
      ∀ k < n, readsBackOn w ((exact w).scale - (k + 1)) = none) ∨
    shortest w = (exact w).reduce := by
  have hshortest : shortest w = ((List.range 17).findSome? fun (n : ℕ) =>
      readsBackOn w ((exact w).scale - (n + 1))).getD (exact w).reduce := if_neg hne
  rw [hshortest]
  generalize hsearch : (List.range 17).findSome? _ = found
  cases found with
  | some d => exact .inl (exists_first_of_findSome? hsearch)
  | none => exact .inr Option.getD_none

/-! ## Reading back -/

theorem ofDecimal_of_readsBackOn {w : ℕ} {e : ℤ} {d : Decimal} (h : readsBackOn w e = some d) :
    ofDecimal d = w := by
  have hfound := List.find?_some h
  exact of_decide_eq_true hfound

/-- The shortest digits of a finite word read back as this word. -/
theorem ofDecimal_shortest {w : ℕ} (hfinite : w < infinity) : ofDecimal (shortest w) = w := by
  by_cases hzero : w = 0
  · rw [hzero]
    rfl
  rcases shortest_cases hzero with ⟨n, hfound, -⟩ | hexact
  · exact ofDecimal_of_readsBackOn hfound
  · rw [hexact, ofDecimal_eq_of_value_eq (Decimal.value_reduce _), ofDecimal_exact hfinite]

/-! ## Whole numbers -/

/-- What is found on a grid may end in front of its place, but not behind it. -/
theorem le_exponent_of_readsBackOn {w : ℕ} {e : ℤ} {d : Decimal}
    (h : readsBackOn w e = some d) : e ≤ d.exponent := by
  have hmem := List.mem_of_find?_eq_some h
  rw [List.mem_map] at hmem
  rcases hmem with ⟨candidate, hcandidate, rfl⟩
  have hexponent : candidate.exponent = e := by
    unfold neighbours at hcandidate
    dsimp only at hcandidate
    split at hcandidate <;>
      · rw [List.mem_pair] at hcandidate
        rcases hcandidate with rfl | rfl <;> rfl
  rw [← hexponent]
  exact Decimal.exponent_le_reduce candidate

section Whole

variable {w n : ℕ} (hunits : units w = 2 ^ 1074 * n)

include hunits

theorem value_exact_whole : (exact w).value = Decimal.value ⟨n, 0⟩ := by
  have hpow : (2 : ℚ) ^ 1074 ≠ 0 := pow_ne_zero _ (by norm_num)
  rw [value_exact, hunits, Decimal.value, zpow_zero, mul_one, Nat.cast_mul, Nat.cast_pow,
    Nat.cast_ofNat, mul_div_cancel_left₀ _ hpow]

/-- On the grid of the natural numbers a whole number is the first candidate. -/
theorem readsBackOn_zero (hfinite : w < infinity) :
    readsBackOn w 0 = some (Decimal.reduce ⟨n, 0⟩) := by
  have hpos : 0 < 2 ^ 1074 := pow_pos Nat.two_pos 1074
  have hbelow : 2 ^ 1074 * n / 2 ^ 1074 = n := Nat.mul_div_cancel_left n hpos
  have hrounded : roundedQuotient (2 ^ 1074 * n) (2 ^ 1074) = n := by
    rw [roundedQuotient_of_dvd hpos (Nat.dvd_mul_right _ _), hbelow]
  have hneighbours : neighbours w 0 = [⟨n, 0⟩, ⟨n + 1, 0⟩] := by
    have hzero : (-0 : ℤ).toNat = 0 := rfl
    simp only [neighbours, hzero, Int.toNat_zero, pow_eq, pow_zero, mul_one, hunits, hbelow,
      hrounded, if_true]
  have hread : ofDecimal (Decimal.reduce ⟨n, 0⟩) = w := by
    rw [ofDecimal_eq_of_value_eq ((Decimal.value_reduce _).trans (value_exact_whole hunits).symm),
      ofDecimal_exact hfinite]
  rw [readsBackOn, hneighbours, List.map_cons, List.find?_cons_of_pos]
  exact decide_eq_true hread

end Whole

/-- The shortest digits of a whole number end at the point or in front of it. -/
theorem exponent_nonneg_of_dvd {w : ℕ} (hfinite : w < infinity) (hdvd : 2 ^ 1074 ∣ units w) :
    0 ≤ (shortest w).exponent := by
  by_cases hzero : w = 0
  · rw [hzero]
    rfl
  rcases hdvd with ⟨n, hunits⟩
  have hn : n ≠ 0 := by
    rintro rfl
    exact (units_pos (Nat.pos_of_ne_zero hzero)).ne' (hunits.trans (Nat.mul_zero _))
  have hvalue := value_exact_whole hunits
  have hdigits : (exact w).digits ≠ 0 := by
    rwa [Ne, ← Decimal.value_eq_zero_iff, hvalue, Decimal.value_eq_zero_iff]
  rcases shortest_cases hzero with ⟨k, hfound, hfirst⟩ | hexact
  · -- The first grid has the place of the leading digit of `n`, the last that of the point.
    have hscale : (exact w).scale = (Nat.toDigits 10 n).length :=
      (Decimal.scale_eq_of_value_eq hvalue hdigits).trans (add_zero _)
    have hpos : 0 < (Nat.toDigits 10 n).length := List.length_pos_iff.mpr Nat.toDigits_ne_nil
    have hle := le_exponent_of_readsBackOn hfound
    by_contra hneg
    have hnone := hfirst ((Nat.toDigits 10 n).length - 1) (by omega)
    have hpoint : (exact w).scale - (((Nat.toDigits 10 n).length - 1 : ℕ) + 1) = 0 := by omega
    rw [hpoint, readsBackOn_zero hunits hfinite] at hnone
    cases hnone
  · rw [hexact, Decimal.reduce_eq_of_value_eq hvalue hdigits]
    exact Decimal.exponent_le_reduce ⟨n, 0⟩

/-- A number that has no digits behind the point is whole. -/
theorem dvd_of_exponent_nonneg {d : Decimal} (hexponent : 0 ≤ d.exponent)
    (hfinite : ofDecimal d < infinity) : 2 ^ 1074 ∣ units (ofDecimal d) := by
  have hzero : 2 ^ 1074 ∣ units 0 := by
    rw [units_of_lt (by decide)]
    exact Nat.dvd_zero _
  unfold ofDecimal at hfinite ⊢
  by_cases hdigits : d.digits = 0
  · rwa [if_pos hdigits]
  rw [if_neg hdigits] at hfinite ⊢
  by_cases hhigh : 310 < d.scale
  · rw [if_pos hhigh] at hfinite
    exact absurd hfinite (lt_irrefl _)
  rw [if_neg hhigh] at hfinite ⊢
  by_cases hlow : d.scale < -330
  · rwa [if_pos hlow]
  have hdenominator : d.denominator = 1 := by
    have hexponent' : (-d.exponent).toNat = 0 := by omega
    rw [denominator, hexponent', pow_eq, pow_zero]
  have hnumerator : 0 < d.numerator :=
    Nat.mul_pos (Nat.pos_of_ne_zero hdigits) (Nat.pow_pos (by decide))
  rw [if_neg hlow, hdenominator] at hfinite ⊢
  exact dvd_units_nearest hnumerator hfinite

/-- The shortest digits of a finite word end at the point or in front of it exactly if the
word stands for a whole number. -/
theorem exponent_nonneg_iff {w : ℕ} (hfinite : w < infinity) :
    0 ≤ (shortest w).exponent ↔ 2 ^ 1074 ∣ units w := by
  constructor
  · intro h
    have hread := ofDecimal_shortest hfinite
    rw [← hread] at hfinite
    have hdvd := dvd_of_exponent_nonneg h hfinite
    rwa [hread] at hdvd
  · exact exponent_nonneg_of_dvd hfinite

end Calc.Binary64
