/-
# Words and the numbers they stand for

A word from `2^52` on holds a shift and a significand of 53 bits, and stands for as many
units as the significand times a power of two. The nearest word to such a number is the
word itself, so that the exact decimal expansion of a word reads back. The word nearest
to a natural number stands for a natural number again.
-/

import Calc.Number.Shortest
import Calc.Proofs.Number.Value

namespace Calc.Binary64

open Decimal (numerator denominator)

/-! ## Shift and significand -/

/-- Powers in the form that the lemmas about them have. -/
theorem pow_eq (m n : ℕ) : Nat.pow m n = m ^ n :=
  rfl

/-- Infinity has the last exponent field. -/
theorem infinity_eq : infinity = 2047 * 2 ^ 52 :=
  rfl

theorem units_of_lt {w : ℕ} (h : w < 2 ^ 52) : units w = w :=
  if_pos h

/-- A significand that is rounded up to `2^53` belongs to the next exponent, with the same
number of units. -/
theorem units_shift {shift significand : ℕ} (hlow : 2 ^ 52 ≤ significand)
    (hhigh : significand ≤ 2 ^ 53) :
    units (shift * 2 ^ 52 + significand) = significand * 2 ^ shift := by
  have hword : ¬ shift * 2 ^ 52 + significand < 2 ^ 52 := by omega
  simp only [units, pow_eq, if_neg hword]
  rcases Nat.lt_or_eq_of_le hhigh with hlt | rfl
  · have hshift : (shift * 2 ^ 52 + significand) / 2 ^ 52 - 1 = shift := by omega
    have hsignificand : 2 ^ 52 + (shift * 2 ^ 52 + significand) % 2 ^ 52 = significand := by omega
    rw [hshift, hsignificand]
  · have hshift : (shift * 2 ^ 52 + 2 ^ 53) / 2 ^ 52 - 1 = shift + 1 := by omega
    have hsignificand : 2 ^ 52 + (shift * 2 ^ 52 + 2 ^ 53) % 2 ^ 52 = 2 ^ 52 := by omega
    rw [hshift, hsignificand, pow_succ']
    ring

theorem exists_shift {w : ℕ} (h : 2 ^ 52 ≤ w) :
    ∃ shift significand, w = shift * 2 ^ 52 + significand ∧ 2 ^ 52 ≤ significand ∧
      significand < 2 ^ 53 :=
  ⟨w / 2 ^ 52 - 1, 2 ^ 52 + w % 2 ^ 52, by omega, by omega, by omega⟩

theorem log2_shift {shift significand : ℕ} (hlow : 2 ^ 52 ≤ significand)
    (hhigh : significand < 2 ^ 53) : (significand * 2 ^ shift).log2 = 52 + shift := by
  have hpow := pow_pos Nat.two_pos shift
  have hpos : 0 < significand * 2 ^ shift := Nat.mul_pos (by omega) hpow
  rw [Nat.log2_eq_iff hpos.ne', pow_add, Nat.add_right_comm, pow_add]
  exact ⟨Nat.mul_le_mul_right _ hlow, Nat.mul_lt_mul_of_pos_right hhigh hpow⟩

theorem units_pos {w : ℕ} (h : 0 < w) : 0 < units w := by
  rcases Nat.lt_or_ge w (2 ^ 52) with hlt | hle
  · rwa [units_of_lt hlt]
  · obtain ⟨shift, significand, rfl, hlow, hhigh⟩ := exists_shift hle
    rw [units_shift hlow hhigh.le]
    exact Nat.mul_pos (by omega) (pow_pos Nat.two_pos shift)

/-- The number of a word is bounded by the exponent field. -/
theorem units_lt (w : ℕ) : units w < 2 ^ (53 + w / 2 ^ 52) := by
  rcases Nat.lt_or_ge w (2 ^ 52) with hlt | hle
  · rw [units_of_lt hlt]
    exact hlt.trans_le (pow_le_pow_right₀ one_le_two (by omega))
  · obtain ⟨shift, significand, rfl, hlow, hhigh⟩ := exists_shift hle
    rw [units_shift hlow hhigh.le]
    calc significand * 2 ^ shift < 2 ^ 53 * 2 ^ shift :=
          Nat.mul_lt_mul_of_pos_right hhigh (pow_pos Nat.two_pos shift)
      _ = 2 ^ (53 + shift) := (pow_add 2 53 shift).symm
      _ ≤ 2 ^ (53 + (shift * 2 ^ 52 + significand) / 2 ^ 52) :=
          pow_le_pow_right₀ one_le_two (by omega)

/-! ## Exact expansions -/

/-- The word nearest to the number of a word is this word. -/
theorem nearest_units {w : ℕ} (h : w ≤ infinity) : nearest (units w) (2 ^ 1074) = w := by
  have hunit : units w * 2 ^ 1074 / 2 ^ 1074 = units w :=
    Nat.mul_div_cancel _ (pow_pos Nat.two_pos 1074)
  have hexpand (shift : ℕ) : roundedQuotient (units w * 2 ^ 1074) (2 ^ 1074 * 2 ^ shift) =
      roundedQuotient (units w) (2 ^ shift) := by
    rw [Nat.mul_comm (units w)]
    exact roundedQuotient_mul (pow_pos Nat.two_pos 1074) _ _
  simp only [nearest, pow_eq, hunit, hexpand]
  rcases Nat.lt_or_ge w (2 ^ 52) with hlt | hle
  · have hlog : w.log2 - 52 = 0 := by
      by_cases hzero : w = 0
      · rw [hzero]
        rfl
      · have := (Nat.log2_lt hzero).mpr hlt
        omega
    rw [units_of_lt hlt, hlog, pow_zero, roundedQuotient_of_dvd Nat.one_pos (one_dvd w),
      Nat.div_one, Nat.zero_mul, Nat.zero_add]
    exact min_eq_left h
  · obtain ⟨shift, significand, rfl, hlow, hhigh⟩ := exists_shift hle
    rw [units_shift hlow hhigh.le, log2_shift hlow hhigh, Nat.add_sub_cancel_left,
      roundedQuotient_of_dvd (pow_pos Nat.two_pos shift) (Nat.dvd_mul_left _ _),
      Nat.mul_div_cancel _ (pow_pos Nat.two_pos shift)]
    exact min_eq_left h

/-- A number of units of `2^-b` has a finite decimal expansion. -/
theorem value_expansion (n b : ℕ) :
    Decimal.value ⟨n * 5 ^ b, -b⟩ = (n : ℚ) / 2 ^ b := by
  have hfive : (5 : ℚ) ^ b ≠ 0 := pow_ne_zero _ (by norm_num)
  have hten : (10 : ℚ) ^ (-b : ℤ) = (2 ^ b * 5 ^ b)⁻¹ := by
    rw [zpow_neg, zpow_natCast, ← mul_pow]
    norm_num
  rw [Decimal.value, hten, ← div_eq_mul_inv]
  push_cast
  exact mul_div_mul_right _ _ hfive

theorem nearest_expansion (n b : ℕ) :
    nearest (numerator ⟨n * 5 ^ b, -b⟩) (denominator ⟨n * 5 ^ b, -b⟩) = nearest n (2 ^ b) := by
  have hnumerator : numerator ⟨n * 5 ^ b, -b⟩ = 5 ^ b * n := by
    simp [numerator, Nat.mul_comm]
  have hdenominator : denominator ⟨n * 5 ^ b, -b⟩ = 5 ^ b * 2 ^ b := by
    rw [← mul_pow]
    simp [denominator]
  rw [hnumerator, hdenominator, nearest_mul (pow_pos (by decide) b)]

theorem exact_eq (w : ℕ) : exact w = ⟨units w * 5 ^ 1074, -(1074 : ℕ)⟩ := by
  simp only [exact, pow_eq, Nat.cast_ofNat]

theorem value_exact (w : ℕ) : (exact w).value = (units w : ℚ) / 2 ^ 1074 := by
  rw [exact_eq, value_expansion]

/-- The digits of a positive finite number are not refused for their scale. -/
theorem scale_exact {w : ℕ} (hpos : 0 < w) (hfinite : w < infinity) :
    -330 ≤ (exact w).scale ∧ (exact w).scale ≤ 310 := by
  have hfield : 53 + w / 2 ^ 52 ≤ 2099 := by
    rw [infinity_eq] at hfinite
    omega
  have hhigh : (exact w).digits < 10 ^ 1384 := by
    calc (exact w).digits = units w * 5 ^ 1074 := by rw [exact_eq]
      _ < 2 ^ (53 + w / 2 ^ 52) * 5 ^ 1074 :=
          Nat.mul_lt_mul_of_pos_right (units_lt w) (pow_pos (by decide) 1074)
      _ ≤ 2 ^ 2099 * 5 ^ 1074 := Nat.mul_le_mul_right _ (pow_le_pow_right₀ one_le_two hfield)
      _ ≤ 10 ^ 1384 := by decide +kernel
  have hlow : 10 ^ 743 ≤ (exact w).digits := by
    calc 10 ^ 743 ≤ 5 ^ 1074 := by decide +kernel
      _ ≤ units w * 5 ^ 1074 := Nat.le_mul_of_pos_left _ (units_pos hpos)
      _ = (exact w).digits := by rw [exact_eq]
  rw [← not_lt, ← Decimal.length_text_le_iff (by decide)] at hlow
  rw [← Decimal.length_text_le_iff (by decide)] at hhigh
  have hexponent : (exact w).exponent = -1074 := rfl
  rw [Decimal.scale, hexponent]
  omega

/-- The exact expansion of a finite word reads back. -/
theorem ofDecimal_exact {w : ℕ} (hfinite : w < infinity) : ofDecimal (exact w) = w := by
  by_cases hzero : w = 0
  · rw [hzero, ofDecimal, if_pos]
    rw [exact_eq, units_of_lt (by decide), Nat.zero_mul]
  have hpos := Nat.pos_of_ne_zero hzero
  have hdigits : (exact w).digits ≠ 0 := by
    rw [exact_eq]
    exact (Nat.mul_pos (units_pos hpos) (pow_pos (by decide) 1074)).ne'
  obtain ⟨hlow, hhigh⟩ := scale_exact hpos hfinite
  rw [ofDecimal, if_neg hdigits, if_neg (not_lt.mpr hhigh), if_neg (not_lt.mpr hlow)]
  rw [exact_eq, nearest_expansion, nearest_units hfinite.le]

/-! ## Natural numbers -/

theorem roundedQuotient_bounds (n d : ℕ) :
    n / d ≤ roundedQuotient n d ∧ roundedQuotient n d ≤ n / d + 1 := by
  unfold roundedQuotient
  split <;> omega

/-- Rounding a multiple of `2^b` to 53 binary digits gives a multiple of `2^b`. -/
theorem dvd_units_rounded {u b : ℕ} (hpos : 0 < u) (hb : 52 ≤ b) (hdvd : 2 ^ b ∣ u) :
    2 ^ b ∣ units ((u.log2 - 52) * 2 ^ 52 + roundedQuotient u (2 ^ (u.log2 - 52))) := by
  have hlog : b ≤ u.log2 := (Nat.le_log2 hpos.ne').mpr (Nat.le_of_dvd hpos hdvd)
  generalize hshift : u.log2 - 52 = shift
  have hlow : 2 ^ 52 ≤ u / 2 ^ shift := by
    rw [Nat.le_div_iff_mul_le (pow_pos Nat.two_pos shift), ← pow_add, ← Nat.le_log2 hpos.ne']
    omega
  have hhigh : u / 2 ^ shift < 2 ^ 53 := by
    rw [Nat.div_lt_iff_lt_mul (pow_pos Nat.two_pos shift), ← pow_add, ← Nat.log2_lt hpos.ne']
    omega
  obtain ⟨hbelow, habove⟩ := roundedQuotient_bounds u (2 ^ shift)
  rw [units_shift (hlow.trans hbelow) (habove.trans hhigh)]
  rcases Nat.le_total b shift with hle | hle
  · -- The spacing of the words here is a multiple of `2^b`.
    exact (pow_dvd_pow 2 hle).mul_left _
  · -- The spacing divides `2^b` and with it the number.
    have hexact : 2 ^ shift ∣ u := (pow_dvd_pow 2 hle).trans hdvd
    rwa [roundedQuotient_of_dvd (pow_pos Nat.two_pos shift) hexact, Nat.div_mul_cancel hexact]

/-- The word nearest to a natural number, if it is finite, stands for a natural number. -/
theorem dvd_units_nearest {n : ℕ} (hpos : 0 < n) (hfinite : nearest n 1 < infinity) :
    2 ^ 1074 ∣ units (nearest n 1) := by
  simp only [nearest, pow_eq, Nat.div_one, Nat.one_mul] at hfinite ⊢
  rw [min_lt_iff, or_iff_left (lt_irrefl _)] at hfinite
  rw [min_eq_left hfinite.le]
  -- The power is too large to be looked into.
  have hb : 52 ≤ 1074 := by decide
  generalize 1074 = b at hb hfinite ⊢
  exact dvd_units_rounded (Nat.mul_pos hpos (pow_pos Nat.two_pos b)) hb (Nat.dvd_mul_left _ _)

end Calc.Binary64
