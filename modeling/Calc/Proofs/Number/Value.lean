/-
# The value of a decimal number

Many pairs of digits and exponent have the same value. Reading a decimal number as a
binary one does not tell them apart: where the point stands, what the number is reduced
to, and the binary number nearest to it depend on the value alone.
-/

import Calc.Number.Binary64
import Mathlib.Algebra.Field.Rat
import Mathlib.Tactic.NormNum
import Mathlib.Tactic.Ring

namespace Calc

namespace Decimal

/-- The rational number that a decimal number stands for. -/
def value (d : Decimal) : ℚ :=
  d.digits * 10 ^ d.exponent

theorem value_shift (n k : ℕ) (e : ℤ) : value ⟨n * 10 ^ k, e⟩ = value ⟨n, e + k⟩ := by
  have hten : (10 : ℚ) ≠ 0 := by norm_num
  simp only [value, Nat.cast_mul, Nat.cast_pow, Nat.cast_ofNat, zpow_add₀ hten, zpow_natCast]
  ring

theorem value_eq_zero_iff {d : Decimal} : d.value = 0 ↔ d.digits = 0 := by
  have hpow : (10 : ℚ) ^ d.exponent ≠ 0 := zpow_ne_zero _ (by norm_num)
  rw [value, mul_eq_zero, or_iff_left hpow, Nat.cast_eq_zero]

/-- Of two decimal numbers of one value, one has only zeros behind the digits of the
other. -/
theorem eq_shift_of_value_eq {d d' : Decimal} (h : d.value = d'.value)
    (hle : d.exponent ≤ d'.exponent) :
    ∃ k : ℕ, d.digits = d'.digits * 10 ^ k ∧ d'.exponent = d.exponent + k := by
  obtain ⟨k, hk⟩ := Int.le.dest hle
  refine ⟨k, ?_, hk.symm⟩
  have hten : (10 : ℚ) ≠ 0 := by norm_num
  have hpow : (10 : ℚ) ^ d.exponent ≠ 0 := zpow_ne_zero _ hten
  have hvalue : (d.digits : ℚ) * 10 ^ d.exponent = d'.digits * 10 ^ k * 10 ^ d.exponent := by
    calc (d.digits : ℚ) * 10 ^ d.exponent = d'.digits * 10 ^ d'.exponent := h
      _ = d'.digits * 10 ^ k * 10 ^ d.exponent := by
        rw [← hk, zpow_add₀ hten, zpow_natCast]
        ring
  exact_mod_cast mul_right_cancel₀ hpow hvalue

section Shift

variable {α : Type} {f : Decimal → α}

theorem eq_shift (hshift : ∀ n e, n ≠ 0 → f ⟨n * 10, e⟩ = f ⟨n, e + 1⟩) {n : ℕ} (hn : n ≠ 0)
    (e : ℤ) (k : ℕ) : f ⟨n * 10 ^ k, e⟩ = f ⟨n, e + k⟩ := by
  induction k generalizing n with
  | zero => simp
  | succ k ih =>
      have hexponent : e + (k + 1 : ℕ) = e + k + 1 := by push_cast; ring
      rw [pow_succ', ← mul_assoc, ih (by omega), hshift n _ hn, hexponent]

/-- What one zero more behind the digits does not change depends on the value alone. -/
theorem eq_of_value_eq (hshift : ∀ n e, n ≠ 0 → f ⟨n * 10, e⟩ = f ⟨n, e + 1⟩)
    {d d' : Decimal} (h : d.value = d'.value) (hne : d.digits ≠ 0) : f d = f d' := by
  have hone {d d' : Decimal} (h : d.value = d'.value) (hle : d.exponent ≤ d'.exponent)
      (hne : d'.digits ≠ 0) : f d = f d' := by
    obtain ⟨k, hdigits, hexponent⟩ := eq_shift_of_value_eq h hle
    obtain ⟨n, e⟩ := d
    obtain ⟨n', e'⟩ := d'
    simp only at hdigits hexponent hne
    rw [hdigits, hexponent, eq_shift hshift hne]
  rcases le_total d.exponent d'.exponent with hle | hle
  · refine hone h hle ?_
    rwa [Ne, ← value_eq_zero_iff, ← h, value_eq_zero_iff]
  · exact (hone h.symm hle hne).symm

end Shift

/-! ## The place of the point -/

theorem length_text_le_iff {d : Decimal} {k : ℕ} (hk : 0 < k) :
    d.text.length ≤ k ↔ d.digits < 10 ^ k :=
  Nat.length_toDigits_le_iff (by decide) hk

theorem scale_shift {n : ℕ} (e : ℤ) (hn : n ≠ 0) : scale ⟨n * 10, e⟩ = scale ⟨n, e + 1⟩ := by
  have hdigits : Nat.toDigits 10 (n * 10) = Nat.toDigits 10 n ++ ['0'] := by
    rw [Nat.toDigits_eq_if (by decide), if_neg (by omega), Nat.mul_div_cancel _ (by decide),
      Nat.mul_mod_left]
    rfl
  simp only [scale, text, hdigits, List.length_append, List.length_singleton]
  push_cast
  ring

/-- Where the point stands depends on the value alone. -/
theorem scale_eq_of_value_eq {d d' : Decimal} (h : d.value = d'.value) (hne : d.digits ≠ 0) :
    d.scale = d'.scale :=
  eq_of_value_eq (fun _ e hn => scale_shift e hn) h hne

/-! ## Reduction -/

theorem value_reduce (d : Decimal) : d.reduce.value = d.value := by
  fun_induction reduce d with
  | case1 d h ih =>
      have hdigits : d.digits / 10 * 10 ^ 1 = d.digits := by omega
      calc (reduce ⟨d.digits / 10, d.exponent + 1⟩).value
          = value ⟨d.digits / 10, d.exponent + (1 : ℕ)⟩ := ih
        _ = value ⟨d.digits / 10 * 10 ^ 1, d.exponent⟩ := (value_shift _ _ _).symm
        _ = d.value := by rw [hdigits]
  | case2 d h => rfl

theorem reduce_shift {n : ℕ} (e : ℤ) (hn : n ≠ 0) : reduce ⟨n * 10, e⟩ = reduce ⟨n, e + 1⟩ := by
  rw [reduce, dif_pos ⟨by simpa using hn, Nat.mul_mod_left n 10⟩]
  simp only [Nat.mul_div_cancel n (by decide : 0 < 10)]

/-- What a number is reduced to depends on the value alone. -/
theorem reduce_eq_of_value_eq {d d' : Decimal} (h : d.value = d'.value) (hne : d.digits ≠ 0) :
    d.reduce = d'.reduce :=
  eq_of_value_eq (fun _ e hn => reduce_shift e hn) h hne

theorem exponent_le_reduce (d : Decimal) : d.exponent ≤ d.reduce.exponent := by
  fun_induction reduce d with
  | case1 d h ih => exact (Int.le_add_one (Int.le_refl _)).trans ih
  | case2 d h => exact le_refl _

end Decimal

namespace Binary64

open Decimal (numerator denominator)

/-! ## The nearest word -/

theorem roundedQuotient_mul {c : ℕ} (hc : 0 < c) (n d : ℕ) :
    roundedQuotient (c * n) (c * d) = roundedQuotient n d := by
  have hless : 2 * (c * (n % d)) < c * d ↔ 2 * (n % d) < d := by
    rw [Nat.mul_left_comm, Nat.mul_lt_mul_left hc]
  have hhalf : 2 * (c * (n % d)) = c * d ↔ 2 * (n % d) = d := by
    rw [Nat.mul_left_comm, Nat.mul_right_inj hc.ne']
  simp only [roundedQuotient, Nat.mul_mod_mul_left, Nat.mul_div_mul_left _ _ hc, hless, hhalf]

theorem roundedQuotient_of_dvd {n d : ℕ} (hd : 0 < d) (h : d ∣ n) :
    roundedQuotient n d = n / d := by
  rw [roundedQuotient, if_pos]
  rw [Nat.mod_eq_zero_of_dvd h]
  exact .inl hd

/-- The word nearest to a fraction does not change when the fraction is expanded. -/
theorem nearest_mul {c : ℕ} (hc : 0 < c) (num den : ℕ) :
    nearest (c * num) (c * den) = nearest num den := by
  simp only [nearest, Nat.mul_assoc c, Nat.mul_div_mul_left _ _ hc, roundedQuotient_mul hc]

theorem nearest_shift (n : ℕ) (e : ℤ) :
    nearest (numerator ⟨n * 10, e⟩) (denominator ⟨n * 10, e⟩) =
      nearest (numerator ⟨n, e + 1⟩) (denominator ⟨n, e + 1⟩) := by
  -- With digits behind the point the fraction is expanded by ten, otherwise it is the same.
  rcases Int.lt_or_le e 0 with hneg | hpos
  · have hzero : e.toNat = 0 := Int.toNat_eq_zero.mpr hneg.le
    have hzero' : (e + 1).toNat = 0 := Int.toNat_eq_zero.mpr hneg
    have hpow : (-e).toNat = (-(e + 1)).toNat + 1 := by omega
    simp only [numerator, denominator, hzero, hzero', hpow, Nat.pow_eq, pow_zero, mul_one]
    rw [pow_succ', Nat.mul_comm n 10]
    exact nearest_mul (by decide) _ _
  · have hzero : (-e).toNat = 0 := by omega
    have hzero' : (-(e + 1)).toNat = 0 := by omega
    have hpow : (e + 1).toNat = e.toNat + 1 := by omega
    simp only [numerator, denominator, hzero, hzero', hpow, Nat.pow_eq]
    rw [pow_succ', Nat.mul_assoc]

theorem ofDecimal_shift {n : ℕ} (e : ℤ) (hn : n ≠ 0) :
    ofDecimal ⟨n * 10, e⟩ = ofDecimal ⟨n, e + 1⟩ := by
  simp only [ofDecimal, Decimal.scale_shift e hn, nearest_shift, Nat.mul_eq_zero, hn]
  rfl

/-- The word nearest to a decimal number depends on the value alone. -/
theorem ofDecimal_eq_of_value_eq {d d' : Decimal} (h : d.value = d'.value) :
    ofDecimal d = ofDecimal d' := by
  by_cases hzero : d.digits = 0
  · have hzero' : d'.digits = 0 := by
      rwa [← Decimal.value_eq_zero_iff, ← h, Decimal.value_eq_zero_iff]
    rw [ofDecimal, ofDecimal, if_pos hzero, if_pos hzero']
  · exact Decimal.eq_of_value_eq (fun _ e hn => ofDecimal_shift e hn) h hzero

end Binary64

end Calc
