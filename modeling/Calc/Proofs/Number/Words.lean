/-
# Numbers and their words

The word of a number holds an exponent field and a fraction, and how a number is taken
apart is decided by the order of its word: the finite numbers come first, then infinity,
then what is no number. A number is put together again from its sign and its word, and its
value is as many units as the word stands for.
-/

import Calc.Proofs.Execution.Division
import Calc.Proofs.Number.Rounding
import Mathlib.Tactic.Linarith

namespace Calc.Binary64

open Float.Model (Format UnpackedFloat)
open Float.Model.UnpackedFloat (Sign)

/-! ## Fields -/

/-- The number of a sign and a word, taken apart. -/
inductive LaidOut (w : ℕ) (s : Sign) : UnpackedFloat → Prop
  | zero (empty : w = 0) : LaidOut w s (.zero s)
  | subnormal {significand : ℕ} {e : ℤ} (positive : 0 < significand) (fields : w = significand)
      (exponent : e = -1074) (small : significand < 2 ^ 52) :
      LaidOut w s (.finite s significand e positive)
  | normal {shift significand : ℕ} {e : ℤ} (positive : 0 < significand)
      (fields : w = shift * 2 ^ 52 + significand) (exponent : e = shift - 1074)
      (low : 2 ^ 52 ≤ significand) (high : significand < 2 ^ 53) (finite : w < infinity) :
      LaidOut w s (.finite s significand e positive)
  | infinite (full : w = infinity) : LaidOut w s (.infinity s)
  | notANumber (beyond : infinity < w) : LaidOut w s .notANumber

/-- The sign of a number; also of one that is none. -/
def signOf (x : Float) : Sign :=
  .ofBitVec (@UnpackedFloat.unpackSign .binary64 x.toBits.toBitVec)

theorem isMinus_signOf (x : Float) : isMinus (signOf x) = isNegative x := by
  rw [Bool.eq_iff_iff, isNegative_iff, signOf, Sign.ofBitVec]
  split <;> simp_all [isMinus]

section Fields

variable (x : Float)

theorem toNat_fraction :
    (@UnpackedFloat.unpackMantissa .binary64 x.toBits.toBitVec).toNat = word x % 2 ^ 52 := by
  change (x.toBits.toBitVec.extractLsb 51 0).toNat = x.toBits.toNat % 2 ^ 63 % 2 ^ 52
  rw [BitVec.extractLsb_toNat, Nat.shiftRight_zero, UInt64.toNat_toBitVec]
  omega

theorem toNat_field :
    (@UnpackedFloat.unpackExponent .binary64 x.toBits.toBitVec).toNat = word x / 2 ^ 52 := by
  change (x.toBits.toBitVec.extractLsb 62 52).toNat = x.toBits.toNat % 2 ^ 63 / 2 ^ 52
  rw [BitVec.extractLsb_toNat, Nat.shiftRight_eq_div_pow, UInt64.toNat_toBitVec]
  change x.toBits.toNat / 4503599627370496 % 2048 = _
  omega

theorem word_lt : word x < 2 ^ 63 :=
  Nat.mod_lt _ (pow_pos Nat.two_pos 63)

end Fields

namespace LaidOut

variable {w : ℕ} {s : Sign} {p : Prop} [Decidable p]

theorem ite {u v : UnpackedFloat} (hu : p → LaidOut w s u) (hv : ¬ p → LaidOut w s v) :
    LaidOut w s (if p then u else v) := by
  split
  case isTrue h => exact hu h
  case isFalse h => exact hv h

theorem dite {u : p → UnpackedFloat} {v : ¬ p → UnpackedFloat} (hu : ∀ h, LaidOut w s (u h))
    (hv : ∀ h, LaidOut w s (v h)) : LaidOut w s (if h : p then u h else v h) := by
  split
  case isTrue h => exact hu h
  case isFalse h => exact hv h

end LaidOut

/-- A number is taken apart as its word tells. -/
theorem laidOut (x : Float) : LaidOut (word x) (signOf x) x.toModel.unpack := by
  have hword := word_lt x
  have hfraction := toNat_fraction x
  have hfield := toNat_field x
  have hinfinity := infinity_eq
  change LaidOut (word x) (signOf x) (UnpackedFloat.unpack .binary64 x.toBits.toBitVec)
  -- Every case is told by the two fields, which are the quotient and the rest of the word.
  refine .ite (fun hfull => .ite (fun hempty => ?infinite) fun hempty => ?notANumber)
    fun hfull => .ite (fun hzero => .dite (fun hempty => ?zero) fun hempty => ?subnormal)
      fun hzero => ?normal
  case infinite =>
    rw [hfull] at hfield
    rw [hempty] at hfraction
    change 2047 = word x / 2 ^ 52 at hfield
    change 0 = word x % 2 ^ 52 at hfraction
    exact .infinite (by omega)
  case notANumber =>
    rw [hfull] at hfield
    rw [← BitVec.toNat_inj, hfraction] at hempty
    change 2047 = word x / 2 ^ 52 at hfield
    change ¬ word x % 2 ^ 52 = 0 at hempty
    exact .notANumber (by omega)
  case zero =>
    rw [hzero] at hfield
    rw [hempty] at hfraction
    change 0 = word x / 2 ^ 52 at hfield
    change 0 = word x % 2 ^ 52 at hfraction
    exact .zero (by omega)
  case subnormal =>
    rw [hzero] at hfield
    change 0 = word x / 2 ^ 52 at hfield
    exact .subnormal _ (by omega) (by rw [hzero]; rfl) (by omega)
  case normal =>
    rw [← BitVec.toNat_inj, hfield] at hfull hzero
    change ¬ word x / 2 ^ 52 = 2047 at hfull
    change ¬ word x / 2 ^ 52 = 0 at hzero
    have hsignificand : (1#1 ++ @UnpackedFloat.unpackMantissa .binary64 x.toBits.toBitVec).toNat =
        2 ^ 52 + word x % 2 ^ 52 := by
      rw [BitVec.toNat_append, ← Nat.shiftLeft_add_eq_or_of_lt (BitVec.isLt _), hfraction]
      rfl
    have hexponent : ((word x / 2 ^ 52 : ℕ) : ℤ) - (1023 + 52) =
        (word x / 2 ^ 52 - 1 : ℕ) - 1074 := by omega
    rw [hfield]
    exact .normal _ (by omega) hexponent (by omega) (by omega) (by omega)

section Kinds

variable {w : ℕ} {s : Sign} {u : UnpackedFloat} (h : LaidOut w s u)

include h

theorem LaidOut.isFinite_iff : u.isFinite = true ↔ w < infinity := by
  have hinfinity := infinity_eq
  cases h with
  | zero => exact iff_of_true rfl (by omega)
  | subnormal => exact iff_of_true rfl (by omega)
  | normal _ _ _ _ _ finite => exact iff_of_true rfl finite
  | infinite full => exact iff_of_false Bool.false_ne_true full.not_lt
  | notANumber beyond => exact iff_of_false Bool.false_ne_true beyond.asymm

theorem LaidOut.isNaN_iff : u.isNaN = true ↔ infinity < w := by
  have hinfinity := infinity_eq
  cases h with
  | zero => exact iff_of_false Bool.false_ne_true (by omega)
  | subnormal => exact iff_of_false Bool.false_ne_true (by omega)
  | normal _ _ _ _ _ finite => exact iff_of_false Bool.false_ne_true finite.asymm
  | infinite full => exact iff_of_false Bool.false_ne_true full.not_gt
  | notANumber beyond => exact iff_of_true rfl beyond

end Kinds

theorem isFinite_iff (x : Float) : x.isFinite = true ↔ word x < infinity :=
  (laidOut x).isFinite_iff

theorem isNaN_iff (x : Float) : x.isNaN = true ↔ infinity < word x :=
  (laidOut x).isNaN_iff

/-! ## Signs and words put together -/

theorem toNat_packComponents (s : Sign) (field : BitVec 11) (fraction : BitVec 52) :
    (UnpackedFloat.packComponents .binary64 s field fraction).toNat =
      (if isMinus s then 2 ^ 63 else 0) + (field.toNat * 2 ^ 52 + fraction.toNat) := by
  have hsign : s.toBitVec.toNat = if isMinus s then 1 else 0 := by cases s <;> rfl
  change ((s.toBitVec ++ field) ++ fraction).toNat = _
  rw [BitVec.toNat_append, BitVec.toNat_append, ← Nat.shiftLeft_add_eq_or_of_lt fraction.isLt,
    ← Nat.shiftLeft_add_eq_or_of_lt field.isLt, Nat.shiftLeft_eq, Nat.shiftLeft_eq, hsign]
  split <;> omega

/-- What a number is taken apart to has its sign and its word. -/
theorem LaidOut.toNat_pack {w : ℕ} {s : Sign} {u : UnpackedFloat} (h : LaidOut w s u)
    (hle : w ≤ infinity) :
    (UnpackedFloat.pack .binary64 u).toNat = (if isMinus s then 2 ^ 63 else 0) + w := by
  have hinfinity := infinity_eq
  cases h with
  | zero empty =>
      rw [empty]
      exact toNat_packComponents s 0#11 0#52
  | @subnormal significand e positive fields exponent small =>
      have hlog : significand.log2 < 52 := (Nat.log2_lt positive.ne').mpr small
      have hfraction : (BitVec.ofNat 52 significand).toNat = significand := Nat.mod_eq_of_lt small
      have hbiased : (e + 1023 + 52).toNat = 1 := by omega
      have hpack : UnpackedFloat.pack .binary64 (.finite s significand e positive) =
          UnpackedFloat.packComponents .binary64 s 0#11 (BitVec.ofNat 52 significand) := by
        change (if 2 ^ 11 ≤ (e + 1023 + 52).toNat + 1 then _
          else if significand.log2 + 1 = 53 then _ else _) = _
        rw [hbiased, if_neg (by decide), if_neg (by omega)]
      rw [hpack, toNat_packComponents, hfraction, fields]
      exact congrArg _ (Nat.zero_add _)
  | @normal shift significand e positive fields exponent low high finite =>
      have hlog : significand.log2 = 52 := (Nat.log2_eq_iff positive.ne').mpr ⟨low, high⟩
      have hbiased : (e + 1023 + 52).toNat = shift + 1 := by omega
      have hpack : UnpackedFloat.pack .binary64 (.finite s significand e positive) =
          UnpackedFloat.packComponents .binary64 s (BitVec.ofNat 11 (shift + 1))
            (BitVec.ofNat 52 significand) := by
        change (if 2 ^ 11 ≤ (e + 1023 + 52).toNat + 1 then _
          else if significand.log2 + 1 = 53 then
            UnpackedFloat.packComponents .binary64 s (BitVec.ofNat 11 (e + 1023 + 52).toNat) _
          else _) = _
        rw [hbiased, if_neg (by omega), if_pos (by omega)]
      have hword : (shift + 1) % 2 ^ 11 * 2 ^ 52 + significand % 2 ^ 52 = w := by omega
      rw [hpack, toNat_packComponents, BitVec.toNat_ofNat, BitVec.toNat_ofNat, hword]
  | infinite full =>
      rw [full]
      exact toNat_packComponents s (-1#11) 0#52
  | notANumber beyond => exact absurd beyond hle.not_gt

theorem eq_of_toBits_eq {x y : Float} (h : x.toBits = y.toBits) : x = y := by
  rcases x with ⟨⟨bits, valid⟩⟩
  rcases y with ⟨⟨bits', valid'⟩⟩
  change bits = bits' at h
  subst h
  rfl

/-- The bits of a number are its sign and its word. -/
theorem toNat_toBits (x : Float) :
    x.toBits.toNat = if isNegative x then Nat.pow 2 63 + word x else word x := by
  have hlt : x.toBits.toNat < 2 ^ 64 := x.toBits.toNat_lt
  simp only [isNegative, word, pow_eq, decide_eq_true_eq]
  split <;> omega

/-- A number is put together again from its sign and its word. -/
theorem toFloat_word {x : Float} (h : word x ≤ infinity) : toFloat (isNegative x) (word x) = x := by
  have hpack := (laidOut x).toNat_pack h
  rw [isMinus_signOf] at hpack
  rw [toFloat, ← toNat_toBits, UInt64.ofNat_toNat]
  apply eq_of_toBits_eq
  apply UInt64.toNat_inj.mp
  calc (UnpackedFloat.pack .binary64 x.toModel.unpack).toNat
      = (if isNegative x then 2 ^ 63 else 0) + word x := hpack
    _ = if isNegative x then Nat.pow 2 63 + word x else word x := by
      rw [pow_eq]
      split <;> omega
    _ = x.toBits.toNat := (toNat_toBits x).symm

/-- There is only one number that is none. -/
theorem eq_of_isNaN {x y : Float} (hx : x.isNaN = true) (hy : y.isNaN = true) : x = y := by
  have hbits {x : Float} (h : x.isNaN = true) :
      x.toBits.toBitVec = UnpackedFloat.packedNaN .binary64 := by
    rw [isNaN_iff] at h
    have hinfinity := infinity_eq
    have hlt := word_lt x
    apply x.toModel.valid.eq_packedNaN
    · rw [← BitVec.toNat_inj]
      change (@UnpackedFloat.unpackExponent .binary64 x.toBits.toBitVec).toNat = 2047
      rw [toNat_field]
      omega
    · rw [Ne, ← BitVec.toNat_inj]
      change ¬ (@UnpackedFloat.unpackMantissa .binary64 x.toBits.toBitVec).toNat = 0
      rw [toNat_fraction]
      omega
  apply eq_of_toBits_eq
  rw [← UInt64.toBitVec_inj, hbits hx, hbits hy]

/-! ## Values -/

/-- The rational number that a finite number stands for. -/
def value? : UnpackedFloat → Option ℚ
  | .zero _ => some 0
  | .finite s m e _ => some (s.apply m * 2 ^ e)
  | .infinity _ => none
  | .notANumber => none

theorem value?_finite (s : Sign) (m : ℕ) (e : ℤ) (h : 0 < m) :
    value? (.finite s m e h) = some ((s.apply m : ℚ) * 2 ^ e) :=
  rfl

/-- The number is an integer. -/
def IsWhole (x : Float) : Prop :=
  ∃ n : ℤ, value? x.toModel.unpack = some (n : ℚ)

theorem cast_apply (s : Sign) (m : ℕ) : (s.apply m : ℚ) = s.apply 1 * m := by
  cases s <;> simp [Sign.apply]

/-- The value of a finite number is its sign and as many units as its word stands for. -/
theorem LaidOut.value?_eq {w : ℕ} {s : Sign} {u : UnpackedFloat} (h : LaidOut w s u)
    (hfinite : w < infinity) :
    value? u = some (s.apply 1 * ((units w : ℚ) / 2 ^ 1074)) := by
  have htwo : (2 : ℚ) ≠ 0 := by norm_num
  cases h with
  | zero empty =>
      rw [empty, units_of_lt (by decide), Nat.cast_zero, zero_div, mul_zero]
      rfl
  | subnormal positive fields exponent small =>
      have hpow : (2 : ℚ) ^ (-1074 : ℤ) = (2 ^ 1074)⁻¹ := zpow_neg _ _
      rw [fields, units_of_lt small, exponent, value?_finite, cast_apply, hpow, mul_assoc,
        div_eq_mul_inv]
  | @normal shift significand e positive fields exponent low high finite =>
      have hpow : (2 : ℚ) ^ (shift - 1074 : ℤ) = 2 ^ shift / 2 ^ 1074 := zpow_sub₀ htwo _ _
      rw [fields, units_shift low high.le, exponent, value?_finite, cast_apply, hpow, mul_assoc,
        mul_div_assoc', Nat.cast_mul, Nat.cast_pow, Nat.cast_ofNat]
  | infinite full => exact absurd hfinite full.not_lt
  | notANumber beyond => exact absurd hfinite beyond.asymm

theorem exists_int_eq_div_iff {n d : ℕ} (hd : d ≠ 0) (s : Sign) :
    (∃ k : ℤ, (s.apply 1 : ℚ) * (n / d) = k) ↔ d ∣ n := by
  have hd' : (d : ℚ) ≠ 0 := Nat.cast_ne_zero.mpr hd
  constructor
  · rintro ⟨k, hk⟩
    have hn : (n : ℤ) = d * s.apply k := by
      have hquotient : (n : ℚ) / d = s.apply k := by
        cases s <;> simp [Sign.apply] at hk ⊢ <;> linarith
      rw [div_eq_iff hd'] at hquotient
      rw [mul_comm]
      exact_mod_cast hquotient
    exact Int.natCast_dvd_natCast.mp ⟨_, hn⟩
  · rintro ⟨k, rfl⟩
    refine ⟨s.apply k, ?_⟩
    rw [cast_apply, Nat.cast_mul, mul_div_cancel_left₀ _ hd']

/-- A finite number is an integer if its word stands for one. -/
theorem isWhole_iff {x : Float} (h : x.isFinite = true) :
    IsWhole x ↔ 2 ^ 1074 ∣ units (word x) := by
  have hpow : 2 ^ 1074 ≠ 0 := (pow_pos Nat.two_pos 1074).ne'
  rw [← exists_int_eq_div_iff hpow (signOf x), IsWhole,
    (laidOut x).value?_eq ((isFinite_iff x).mp h)]
  simp only [Option.some.injEq, Nat.cast_pow, Nat.cast_ofNat]

end Calc.Binary64
