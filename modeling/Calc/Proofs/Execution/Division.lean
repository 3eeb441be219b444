/-
# Division by zero

An arithmetic that refuses zero divisors can still divide by them, if such a divisor
is told apart first and the result is put together from the signs of both numbers.
What comes out is the quotient of IEEE 754 for every two numbers, infinities and
numbers that are none included. So there is no divisor at which a program fails.
-/

import Calc.Execution

namespace Calc

namespace Binary64

open Float.Model (UnpackedFloat)
open Float.Model.UnpackedFloat (Sign)

/-! ## Signs -/

/-- The sign of a number that is one. -/
def sign? : UnpackedFloat → Option Sign
  | .notANumber => none
  | .infinity s => some s
  | .zero s => some s
  | .finite s _ _ _ => some s

/-- The first bit of a word. -/
theorem isNegative_iff (x : Float) :
    isNegative x = true ↔
      @UnpackedFloat.unpackSign .binary64 x.toBits.toBitVec ≠ 0#1 := by
  rw [isNegative, decide_eq_true_iff, ← UInt64.toNat_toBitVec, Ne, ← BitVec.toNat_inj]
  have hlt := x.toBits.toBitVec.isLt
  have hsign : (@UnpackedFloat.unpackSign .binary64 x.toBits.toBitVec).toNat =
      (x.toBits.toBitVec.extractLsb 63 63).toNat := rfl
  rw [hsign, BitVec.extractLsb_toNat]
  change 2 ^ 63 ≤ x.toBits.toBitVec.toNat ↔ ¬ x.toBits.toBitVec.toNat >>> 63 % 2 ^ 1 = 0
  rw [Nat.shiftRight_eq_div_pow]
  omega

/-- Whether a sign is a minus. -/
def isMinus : Sign → Bool
  | .negative => true
  | .positive => false

/-- A number has the given sign; what is no number has none. -/
def HasSign (s : Sign) (u : UnpackedFloat) : Prop :=
  ∀ t, sign? u = some t → t = s

namespace HasSign

variable {s : Sign} {p : Prop} [Decidable p]

theorem of_eq {u : UnpackedFloat} (h : sign? u = some s) : HasSign s u := by
  intro t ht
  rw [h] at ht
  exact (Option.some.inj ht).symm

theorem notANumber : HasSign s .notANumber := by
  intro t ht
  cases ht

theorem ite {u v : UnpackedFloat} (hu : HasSign s u) (hv : HasSign s v) :
    HasSign s (if p then u else v) := by
  split
  case isTrue => exact hu
  case isFalse => exact hv

theorem dite {u : p → UnpackedFloat} {v : ¬ p → UnpackedFloat} (hu : ∀ h, HasSign s (u h))
    (hv : ∀ h, HasSign s (v h)) : HasSign s (if h : p then u h else v h) := by
  split
  case isTrue h => exact hu h
  case isFalse h => exact hv h

end HasSign

/-- A number has the sign of its word, in each of the formats that the word may have. -/
theorem hasSign_unpack (x : Float) :
    HasSign (Sign.ofBitVec (@UnpackedFloat.unpackSign .binary64 x.toBits.toBitVec))
      x.toModel.unpack :=
  .ite (.ite (.of_eq rfl) .notANumber)
    (.ite (.dite (fun _ => .of_eq rfl) fun _ => .of_eq rfl) (.of_eq rfl))

theorem isNegative_eq {x : Float} {s : Sign} (h : sign? x.toModel.unpack = some s) :
    isNegative x = isMinus s := by
  rw [Bool.eq_iff_iff, isNegative_iff, hasSign_unpack x s h, Sign.ofBitVec]
  split <;> simp_all [isMinus]

theorem unpack_zero : (0.0 : Float).toModel.unpack = .zero .positive := rfl

/-- Both zeros, and no other number, equal zero. -/
theorem beq_zero_iff (x : Float) : (x == 0.0) = true ↔ ∃ s, x.toModel.unpack = .zero s := by
  change UnpackedFloat.beq x.toModel.unpack (0.0 : Float).toModel.unpack = true ↔ _
  rw [unpack_zero]
  cases x.toModel.unpack with
  | notANumber => exact iff_of_false Bool.false_ne_true (by rintro ⟨_, ⟨⟩⟩)
  | zero s => exact iff_of_true rfl ⟨s, rfl⟩
  | infinity s => cases s <;> exact iff_of_false Bool.false_ne_true (by rintro ⟨_, ⟨⟩⟩)
  | finite s m e h => cases s <;> exact iff_of_false Bool.false_ne_true (by rintro ⟨_, ⟨⟩⟩)

/-- A magnitude with the sign of a number, which a zero has, too. -/
def withSignOf (magnitude x : Float) : Float :=
  if isNegative x then -magnitude else magnitude

/-! ## Quotients -/

/-- Dividing by a zero gives an infinity with the sign of both numbers, unless the
dividend is a zero or no number. -/
theorem div_of_unpack_zero {x y : Float} {s t : Sign} (hy : y.toModel.unpack = .zero t)
    (hx : sign? x.toModel.unpack = some s) (hzero : ∀ z, x.toModel.unpack ≠ .zero z) :
    x / y = .ofModel (.pack (.infinity (s / t))) := by
  change Float.ofModel (.pack (UnpackedFloat.div .binary64 x.toModel.unpack y.toModel.unpack)) = _
  rw [hy]
  cases hunpack : x.toModel.unpack with
  | notANumber =>
      rw [hunpack] at hx
      cases hx
  | zero z => exact absurd hunpack (hzero z)
  | infinity z =>
      rw [hunpack] at hx
      cases hx
      rfl
  | finite z m e h =>
      rw [hunpack] at hx
      cases hx
      rfl

/-- A zero divided by a zero is no number. -/
theorem zero_div_of_unpack_zero {x y : Float} {s t : Sign} (hy : y.toModel.unpack = .zero t)
    (hx : x.toModel.unpack = .zero s) : x / y = 0.0 / 0.0 := by
  change Float.ofModel (.pack (UnpackedFloat.div .binary64 x.toModel.unpack y.toModel.unpack)) = _
  rw [hy, hx]
  rfl

/-- What is no number stays none. -/
theorem nan_div {x y : Float} (hx : x.toModel.unpack = .notANumber) : x / y = 0.0 / 0.0 := by
  change Float.ofModel (.pack (UnpackedFloat.div .binary64 x.toModel.unpack y.toModel.unpack)) = _
  rw [hx]
  rfl

/-- The number that stands for infinity. -/
def infinite : Float := toFloat false infinity

/-- An infinity with the sign of both numbers is the product of their signs. -/
theorem withSignOf_mul {x y : Float} {s t : Sign} (hx : sign? x.toModel.unpack = some s)
    (hy : sign? y.toModel.unpack = some t) :
    withSignOf infinite x * withSignOf 1.0 y = .ofModel (.pack (.infinity (s / t))) := by
  rw [withSignOf, withSignOf, isNegative_eq hx, isNegative_eq hy]
  cases s <;> cases t <;> rfl

end Binary64

open Binary64 (withSignOf infinite)

/-- The quotient as an arithmetic gives it that refuses zero divisors. -/
def quotient? (x y : Float) : Option Float :=
  if y == 0.0 then none else some (x / y)

/-- The quotient in that arithmetic, with zero divisors told apart. -/
def guardedQuotient? (x y : Float) : Option Float :=
  if y != 0.0 then quotient? x y
  else if x == 0.0 || x.isNaN then some (0.0 / 0.0)
  else some (withSignOf infinite x * withSignOf 1.0 y)

/-- The dividend is a number and no zero. -/
private theorem guardedQuotient?_of_sign? {x y : Float} {s t : Float.Model.UnpackedFloat.Sign}
    (hy : y.toModel.unpack = .zero t) (hs : Binary64.sign? x.toModel.unpack = some s)
    (hzero : ∀ z, x.toModel.unpack ≠ .zero z) : guardedQuotient? x y = some (x / y) := by
  have hybeq : (y == 0.0) = true := (Binary64.beq_zero_iff y).mpr ⟨t, hy⟩
  have hbeq : (x == 0.0) = false := by
    rw [← Bool.not_eq_true, Binary64.beq_zero_iff]
    exact fun ⟨z, hz⟩ => hzero z hz
  have hnan : x.isNaN = false := by
    change x.toModel.unpack.isNaN = false
    cases hx : x.toModel.unpack with
    | notANumber =>
        rw [hx] at hs
        cases hs
    | _ => rfl
  have ht : Binary64.sign? y.toModel.unpack = some t := congrArg Binary64.sign? hy
  rw [guardedQuotient?, bne, hybeq, hbeq, hnan, Binary64.withSignOf_mul hs ht,
    Binary64.div_of_unpack_zero hy hs hzero]
  rfl

/-- With zero divisors told apart there is always a quotient, the one of IEEE 754. -/
theorem guardedQuotient?_eq (x y : Float) : guardedQuotient? x y = some (x / y) := by
  cases hy : y == 0.0 with
  | false =>
      rw [guardedQuotient?, quotient?, bne, hy]
      rfl
  | true =>
      obtain ⟨t, ht⟩ := (Binary64.beq_zero_iff y).mp hy
      cases hx : x.toModel.unpack with
      | notANumber =>
          have hnan : x.isNaN = true := congrArg Float.Model.UnpackedFloat.isNaN hx
          rw [guardedQuotient?, bne, hy, hnan, Bool.or_true, Binary64.nan_div hx]
          rfl
      | zero s =>
          have hbeq : (x == 0.0) = true := (Binary64.beq_zero_iff x).mpr ⟨s, hx⟩
          rw [guardedQuotient?, bne, hy, hbeq, Bool.true_or,
            Binary64.zero_div_of_unpack_zero ht hx]
          rfl
      | infinity s =>
          exact guardedQuotient?_of_sign? ht (by rw [hx]; rfl) fun z hz => by
            rw [hx] at hz
            cases hz
      | finite s m e hm =>
          exact guardedQuotient?_of_sign? ht (by rw [hx]; rfl) fun z hz => by
            rw [hx] at hz
            cases hz

/-- What an operator makes of two numbers in an arithmetic that refuses zero divisors. -/
def Operator.guarded? : Operator → Float → Float → Option Float
  | add, x, y => some (x + y)
  | subtract, x, y => some (x - y)
  | multiply, x, y => some (x * y)
  | divide, x, y => guardedQuotient? x y
  | unknown _, _, _ => none

/-- Applying an operator fails only if the language does not know it. -/
theorem Operator.toOption_apply (op : Operator) (x y : Float) :
    (op.apply x y).toOption = op.guarded? x y := by
  cases op with
  | divide => rw [guarded?, guardedQuotient?_eq]; rfl
  | _ => rfl

end Calc
