/-
# Numbers of a tree read back

A finite literal of a tree has a point or an exponent, so that it is not taken for an integer.
In either form it is a numeral whose value is that of its shortest digits. Therefore it reads
back as the number that is shown, bit for bit. A number is printed as its literal with all
digits spelled out, a whole number without the point and what follows it.
-/

import Calc.Proofs.Number.Printed

namespace Calc

open Binary64 (signText isNegative infinity word shortest)

namespace Layout

open Numeral (IsDigits ofDigits MantissaWord ExponentWord)

variable {d : Decimal}

/-! ## With a point -/

/-- A whole number has a zero behind its point. -/
theorem spread_pointed_of_nonneg (h : 0 ≤ d.exponent) :
    Positional (spread ['.', '0'] d) ⟨d.digits * 10 ^ d.exponent.toNat * 10, -1⟩ := by
  obtain ⟨hdigits, hvalue⟩ := isDigits_spread h
  have hspread : spread ['.', '0'] d = spread [] d ++ '.' :: ['0'] := by
    rw [spread, if_pos h, spread, if_pos h, List.append_nil]
  have hzero : IsDigits ['0'] := ⟨List.cons_ne_nil _ _, by simp⟩
  have hshift : ofDigits (spread [] d ++ ['0']) = d.digits * 10 ^ d.exponent.toNat * 10 := by
    rw [← hvalue, ofDigits, Nat.ofDigitChars_append, Nat.mul_comm]
    rfl
  have hpointed := Positional.pointed hdigits hzero
  rwa [hshift, ← hspread] at hpointed

/-- What is put behind a whole number does not matter to the others. -/
theorem spread_of_neg (h : d.exponent < 0) (whole : List Char) : spread whole d = spread [] d := by
  rw [spread, if_neg (not_le.mpr h), spread, if_neg (not_le.mpr h)]

/-! ## With an exponent -/

/-- The first digit stands before the point and the others behind it, if there are any. -/
theorem mantissaWord_scientific (d : Decimal) :
    MantissaWord (d.text.take 1 ++ if 1 < d.text.length then '.' :: d.text.drop 1 else [])
      (d.text.take 1) (d.text.drop 1) := by
  obtain ⟨hne, hall⟩ := d.isDigits_text
  obtain ⟨c, others, htext⟩ := List.exists_cons_of_ne_nil hne
  rw [htext, List.forall_mem_cons] at hall
  have hfirst : IsDigits [c] := ⟨List.cons_ne_nil _ _, List.forall_mem_singleton.mpr hall.1⟩
  rw [htext]
  cases others with
  | nil => exact .whole hfirst
  | cons c' others =>
      rw [if_pos (by simp)]
      exact .pointed hfirst hall.2

/-- The power of ten is written with its sign, and with zeros in front of its digits. -/
theorem exponentWord_scientific (e : ℤ) (zeros : ℕ) :
    ExponentWord ('e' :: (if e < 0 then '-' else '+') :: List.replicate zeros '0' ++
      Nat.toDigits 10 e.natAbs) e := by
  have hdigits : IsDigits (List.replicate zeros '0' ++ Nat.toDigits 10 e.natAbs) := by
    refine ⟨List.append_ne_nil_of_right_ne_nil _ Nat.toDigits_ne_nil, ?_⟩
    rw [List.forall_mem_append]
    exact ⟨isDigit_of_mem_zeros, fun c hc => Nat.isDigit_of_mem_toDigits (by decide) (by decide) hc⟩
  have hvalue : ofDigits (List.replicate zeros '0' ++ Nat.toDigits 10 e.natAbs) = e.natAbs := by
    rw [ofDigits, Nat.ofDigitChars_append, Nat.ofDigitChars_replicate_zero, Nat.mul_zero]
    exact Nat.ofDigitChars_ten_toDigits
  split
  case isTrue hneg =>
    have hword := ExponentWord.present (.inl rfl) .minus hdigits
    rw [hvalue, if_pos rfl] at hword
    have he : -(e.natAbs : ℤ) = e := by omega
    rwa [he] at hword
  case isFalse hpos =>
    have hword := ExponentWord.present (.inl rfl) .plus hdigits
    rw [hvalue, if_neg Bool.false_ne_true] at hword
    have he : (e.natAbs : ℤ) = e := by omega
    rwa [he] at hword

/-- With an exponent the digits write exactly their number. -/
theorem word_scientific (d : Decimal) {sign : List Char} {negative : Bool}
    (signed : Numeral.SignWord sign negative) :
    Numeral.Word (sign ++ scientific d) ⟨negative, d⟩ := by
  have hword := Numeral.Word.intro signed (mantissaWord_scientific d)
    (exponentWord_scientific (d.scale - 1) (2 - (Nat.toDigits 10 (d.scale - 1).natAbs).length))
  have hpoint : d.scale - 1 - (d.text.drop 1).length = d.exponent := by
    have hscale : d.scale = d.text.length + d.exponent := rfl
    have hlength := List.length_pos_iff.mpr d.isDigits_text.1
    rw [List.length_drop]
    omega
  rw [List.take_append_drop, d.ofDigits_text, hpoint] at hword
  simpa only [scientific, List.append_assoc, List.cons_append] using hword

/-! ## Literals -/

/-- A literal is written as a numeral of its shortest digits, or of these, the zeros up to the
point and one more zero behind it. -/
theorem exists_word_tree {w : ℕ} (hfinite : w < infinity) :
    ∃ d, (∀ {sign : List Char} {negative : Bool}, Numeral.SignWord sign negative →
        Numeral.Word (sign ++ tree.renderWord w) ⟨negative, d⟩) ∧
      (d = shortest w ∨ 0 ≤ (shortest w).exponent ∧
        d = ⟨(shortest w).digits * 10 ^ (shortest w).exponent.toNat * 10, -1⟩) := by
  have htext : tree.renderWord w = if tree.positional ((shortest w).scale - 1) then
      spread ['.', '0'] (shortest w) else scientific (shortest w) :=
    if_neg hfinite.ne
  rw [htext]
  split
  case isTrue =>
    by_cases hexponent : (shortest w).exponent < 0
    · rw [spread_of_neg hexponent]
      exact ⟨_, fun hsign => (spread_of_fraction hexponent).word hsign, .inl rfl⟩
    · have hwhole := not_lt.mp hexponent
      exact ⟨_, fun hsign => (spread_pointed_of_nonneg hwhole).word hsign, .inr ⟨hwhole, rfl⟩⟩
  case isFalse => exact ⟨_, fun hsign => word_scientific _ hsign, .inl rfl⟩

/-- The digits of a literal, with a point or with an exponent, have the value of its number. -/
theorem tree_faithful : Layout.tree.Faithful where
  finite {w} hfinite := by
    obtain ⟨d, hword, hcases⟩ := exists_word_tree hfinite
    have hvalue : d.value = (shortest w).value := by
      rcases hcases with rfl | ⟨hexponent, rfl⟩
      · rfl
      · have hten := Decimal.value_shift
          ((shortest w).digits * 10 ^ (shortest w).exponent.toNat) 1 (-1)
        have hpoint : -1 + ((1 : ℕ) : ℤ) = 0 := by decide
        have hzeros : 0 + ((shortest w).exponent.toNat : ℤ) = (shortest w).exponent := by omega
        rwa [pow_one, hpoint, Decimal.value_shift, hzeros] at hten
    refine ⟨d, ?_, hword⟩
    rw [Binary64.ofDecimal_eq_of_value_eq hvalue, Binary64.ofDecimal_shortest hfinite]
  nan := rfl
  nan_lineFeed := by simp [tree]

/-! ## Printed numbers and literals -/

/-- The digits of a number with zeros behind them. -/
theorem toDigits_shift {n : ℕ} (hn : 0 < n) (k : ℕ) :
    Nat.toDigits 10 (n * 10 ^ k) = Nat.toDigits 10 n ++ List.replicate k '0' := by
  induction k with
  | zero => simp
  | succ k ih =>
      have hpos : 0 < n * 10 ^ k := Nat.mul_pos hn (Nat.pow_pos (by decide))
      have hzero := @Nat.toDigits_append_toDigits 10 (n * 10 ^ k) 0 (by decide) hpos (by decide)
      rw [pow_succ', Nat.mul_left_comm, ← Nat.add_zero (10 * (n * 10 ^ k)), ← hzero, ih,
        List.append_assoc, List.replicate_succ']
      rfl

/-- Tenths that make a natural number are spelled out with a zero behind the point. -/
theorem spread_tenths (n : ℕ) : spread [] ⟨n * 10, -1⟩ = Nat.toDigits 10 n ++ ['.', '0'] := by
  rcases Nat.eq_zero_or_pos n with rfl | hn
  · rfl
  · have htext : Decimal.text ⟨n * 10, -1⟩ = Nat.toDigits 10 n ++ ['0'] := by
      have hshift := toDigits_shift hn 1
      rwa [pow_one] at hshift
    have hscale : Decimal.scale ⟨n * 10, -1⟩ = (Nat.toDigits 10 n).length := by
      rw [Decimal.scale, htext]
      simp
    have hpos : 0 < (Nat.toDigits 10 n).length := List.length_pos_iff.mpr Nat.toDigits_ne_nil
    have hexponent : ¬ (0 : ℤ) ≤ -1 := by decide
    rw [spread, if_neg hexponent, hscale, if_pos (by omega), htext, Int.toNat_natCast,
      List.take_left, List.drop_left]

/-- A whole number is spelled out as the digits of a natural number. -/
theorem spread_shortest_of_nonneg {w : ℕ} (hfinite : w < infinity)
    (h : 0 ≤ (shortest w).exponent) :
    spread [] (shortest w) =
      Nat.toDigits 10 ((shortest w).digits * 10 ^ (shortest w).exponent.toNat) := by
  rw [spread, if_pos h, List.append_nil]
  rcases Nat.eq_zero_or_pos (shortest w).digits with hzero | hpos
  · -- Only the word of zero has no other digit, and it has no zeros up to the point.
    have hw : w = 0 := by
      rw [← Binary64.ofDecimal_shortest hfinite, Binary64.ofDecimal, if_pos hzero]
    rw [hw]
    rfl
  · exact (toDigits_shift hpos _).symm

end Layout

open Layout (spread)

/-- A finite number is printed as the numeral that a tree shows, its digits spelled out up to
the point and behind it; of a whole number only what stands in front of the point is kept. -/
theorem printedNumber_eq_spread {x : Float} (h : x.isFinite = true) :
    ∃ n : Numeral, n.Word (Layout.tree.render x).toList ∧ n.negative = isNegative x ∧
      (¬ Binary64.IsWhole x →
        (printedNumber x).toList = signText x ++ spread [] n.magnitude) ∧
      (Binary64.IsWhole x →
        (printedNumber x).toList = (signText x ++ spread [] n.magnitude).takeWhile (· != '.')) := by
  have hfinite := (Binary64.isFinite_iff x).mp h
  have hwhole : Binary64.IsWhole x ↔ 0 ≤ (shortest (word x)).exponent := by
    rw [Binary64.isWhole_iff h, Binary64.exponent_nonneg_iff hfinite]
  obtain ⟨d, hword, hcases⟩ := Layout.exists_word_tree hfinite
  have hrender : Numeral.Word (Layout.tree.render x).toList ⟨isNegative x, d⟩ := by
    rw [Layout.tree.toList_render hfinite.le]
    exact hword (Binary64.signWord_signText x)
  rw [toList_printedNumber hfinite, hwhole]
  refine ⟨⟨isNegative x, d⟩, hrender, rfl, fun hfraction => ?_, fun hexponent => ?_⟩
  · rcases hcases with rfl | ⟨hexponent, -⟩
    · rfl
    · exact absurd hexponent hfraction
  · have hfront : ∀ c ∈ signText x ++ spread [] (shortest (word x)), (c != '.') = true := by
      intro c hc
      rw [bne_iff_ne]
      rintro rfl
      rcases List.mem_append.mp hc with hsign | hdigit
      · exact Binary64.point_not_mem_signText x hsign
      · cases (Layout.isDigits_spread hexponent).1.2 '.' hdigit
    rcases hcases with rfl | ⟨-, rfl⟩
    · exact (List.takeWhile_eq_self_iff.mpr hfront).symm
    · rw [Layout.spread_tenths, ← Layout.spread_shortest_of_nonneg hfinite hexponent,
        ← List.append_assoc]
      exact (Text.takeWhile_run_append hfront (by simp)).symm

/-- Both a literal with an exponent and one with a point are printed as digits only. -/
example : Layout.tree.render 1e16 = "1e+16" ∧ printedNumber 1e16 = "10000000000000000" ∧
    Layout.tree.render 8.0 = "8.0" ∧ printedNumber 8.0 = "8" := by
  decide +kernel

end Calc
