/-
# Printed numbers read back

A number is printed without an exponent: its shortest digits, with zeros up to the point,
and with a point exactly if it is no integer. Zeros in front of the digits or behind them
do not change the value that the text writes, so what is printed reads back as the number,
bit for bit, both where a number is entered and where a program is read.
-/

import Calc.Number.Layout
import Calc.Proofs.Number.Entered
import Calc.Proofs.Number.Shortest
import Calc.Proofs.Number.Words
import Calc.Proofs.Parser.Acceptance

namespace Calc

open Numeral (IsDigits ofDigits)

/-! ## Decimal numbers without an exponent -/

/-- A decimal number written in digits, with a point only where digits follow it. -/
inductive Positional : List Char → Decimal → Prop
  | whole {digits : List Char} (given : IsDigits digits) : Positional digits ⟨ofDigits digits, 0⟩
  | pointed {digits fraction : List Char} (given : IsDigits digits) (after : IsDigits fraction) :
      Positional (digits ++ '.' :: fraction) ⟨ofDigits (digits ++ fraction), -fraction.length⟩

namespace Positional

variable {text : List Char} {d : Decimal}

/-- Such a text is a numeral of the language, with any sign in front of it. -/
theorem word (h : Positional text d) {sign : List Char} {negative : Bool}
    (signed : Numeral.SignWord sign negative) : Numeral.Word (sign ++ text) ⟨negative, d⟩ := by
  cases h with
  | whole given =>
      have hword := Numeral.Word.intro signed (.whole given) .absent
      simpa using hword
  | pointed given after =>
      have hword := Numeral.Word.intro signed (.pointed given after.2) .absent
      simpa using hword

theorem point_mem_iff (h : Positional text d) : '.' ∈ text ↔ d.exponent < 0 := by
  cases h with
  | whole given =>
      have hpoint : '.' ∉ text := fun hmem => by cases given.2 '.' hmem
      exact iff_of_false hpoint (lt_irrefl 0)
  | pointed given after =>
      have hlength := List.length_pos_iff.mpr after.1
      exact iff_of_true (List.mem_append_right _ List.mem_cons_self) (by dsimp only; omega)

end Positional

namespace Decimal

theorem isDigits_text (d : Decimal) : IsDigits d.text :=
  ⟨Nat.toDigits_ne_nil, fun _ hc => Nat.isDigit_of_mem_toDigits (by decide) (by decide) hc⟩

theorem ofDigits_text (d : Decimal) : ofDigits d.text = d.digits :=
  Nat.ofDigitChars_ten_toDigits

end Decimal

namespace Layout

theorem isDigit_of_mem_zeros {n : ℕ} : ∀ c ∈ List.replicate n '0', c.isDigit = true := by
  intro c hc
  rw [List.eq_of_mem_replicate hc]
  rfl

/-- A number without a fraction is filled up with zeros. -/
theorem isDigits_spread {d : Decimal} (h : 0 ≤ d.exponent) :
    IsDigits (spread [] d) ∧ ofDigits (spread [] d) = d.digits * 10 ^ d.exponent.toNat := by
  have hspread : spread [] d = d.text ++ List.replicate d.exponent.toNat '0' := by
    rw [spread, if_pos h, List.append_nil]
  rw [hspread]
  refine ⟨⟨List.append_ne_nil_of_left_ne_nil d.isDigits_text.1 _, ?_⟩, ?_⟩
  · rw [List.forall_mem_append]
    exact ⟨d.isDigits_text.2, isDigit_of_mem_zeros⟩
  · rw [ofDigits, Nat.ofDigitChars_append, Nat.ofDigitChars_replicate_zero, Nat.mul_comm]
    exact congrArg (· * _) d.ofDigits_text

theorem spread_of_nonneg {d : Decimal} (h : 0 ≤ d.exponent) :
    Positional (spread [] d) ⟨d.digits * 10 ^ d.exponent.toNat, 0⟩ := by
  obtain ⟨hdigits, hvalue⟩ := isDigits_spread h
  rw [← hvalue]
  exact .whole hdigits

/-- A number with digits on both sides of the point is cut there. -/
theorem spread_of_cut {d : Decimal} (h : d.exponent < 0) (hscale : 0 < d.scale) :
    Positional (spread [] d) d := by
  obtain ⟨-, hall⟩ := d.isDigits_text
  have hpoint : d.scale = d.text.length + d.exponent := rfl
  have hspread : spread [] d = d.text.take d.scale.toNat ++ '.' :: d.text.drop d.scale.toNat := by
    rw [spread, if_neg (not_le.mpr h), if_pos hscale]
  have hdigits : ofDigits (d.text.take d.scale.toNat ++ d.text.drop d.scale.toNat) = d.digits := by
    rw [List.take_append_drop, d.ofDigits_text]
  have hlength : -((d.text.drop d.scale.toNat).length : ℤ) = d.exponent := by
    rw [List.length_drop]
    omega
  have hwhole : IsDigits (d.text.take d.scale.toNat) := by
    refine ⟨?_, fun c hc => hall c (List.mem_of_mem_take hc)⟩
    rw [← List.length_pos_iff, List.length_take]
    omega
  have hfraction : IsDigits (d.text.drop d.scale.toNat) := by
    refine ⟨?_, fun c hc => hall c (List.mem_of_mem_drop hc)⟩
    rw [← List.length_pos_iff, List.length_drop]
    omega
  have hpositional := Positional.pointed hwhole hfraction
  rwa [hdigits, hlength, ← hspread] at hpositional

/-- A number below one is filled up with zeros behind the point. -/
theorem spread_of_small {d : Decimal} (h : d.exponent < 0) (hscale : d.scale ≤ 0) :
    Positional (spread [] d) d := by
  obtain ⟨hne, hall⟩ := d.isDigits_text
  have hpoint : d.scale = d.text.length + d.exponent := rfl
  generalize hfill : List.replicate (-d.scale).toNat '0' = zeros
  have hzeros : ∀ c ∈ zeros, c.isDigit = true := hfill ▸ isDigit_of_mem_zeros
  have hspread : spread [] d = ['0'] ++ '.' :: (zeros ++ d.text) := by
    rw [spread, if_neg (not_le.mpr h), if_neg (not_lt.mpr hscale), hfill]
    rfl
  have hdigits : ofDigits (['0'] ++ (zeros ++ d.text)) = d.digits := by
    have hzero : ofDigits ('0' :: zeros) = 0 := by
      rw [← hfill, ← List.replicate_succ, ofDigits, Nat.ofDigitChars_replicate_zero, Nat.mul_zero]
    rw [← List.append_assoc, ofDigits, Nat.ofDigitChars_append]
    exact (congrArg (Nat.ofDigitChars 10 d.text) hzero).trans d.ofDigits_text
  have hlength : -((zeros ++ d.text).length : ℤ) = d.exponent := by
    rw [← hfill, List.length_append, List.length_replicate]
    omega
  have hfraction : IsDigits (zeros ++ d.text) :=
    ⟨List.append_ne_nil_of_right_ne_nil _ hne, List.forall_mem_append.mpr ⟨hzeros, hall⟩⟩
  have hpositional := Positional.pointed ⟨List.cons_ne_nil '0' [], by simp⟩ hfraction
  rwa [hdigits, hlength, ← hspread] at hpositional

/-- A number with digits behind the point is written as it is. -/
theorem spread_of_fraction {d : Decimal} (h : d.exponent < 0) : Positional (spread [] d) d := by
  by_cases hscale : 0 < d.scale
  · exact spread_of_cut h hscale
  · exact spread_of_small h (not_lt.mp hscale)

/-- The digits of a decimal number, spread up to the point, write a number of its value. -/
theorem spread_positional (d : Decimal) :
    ∃ d', Positional (spread [] d) d' ∧ d'.value = d.value ∧
      (d'.exponent < 0 ↔ d.exponent < 0) := by
  by_cases h : d.exponent < 0
  · exact ⟨d, spread_of_fraction h, rfl, Iff.rfl⟩
  · refine ⟨_, spread_of_nonneg (not_lt.mp h), ?_, iff_of_false (lt_irrefl 0) h⟩
    have hexponent : 0 + (d.exponent.toNat : ℤ) = d.exponent := by omega
    rw [Decimal.value_shift, hexponent]

end Layout

/-! ## What is printed -/

namespace Binary64

/-- The sign that a number is printed with. -/
def signText (x : Float) : List Char :=
  if isNegative x then ['-'] else []

theorem signWord_signText (x : Float) : Numeral.SignWord (signText x) (isNegative x) := by
  unfold signText
  cases isNegative x with
  | false => exact .absent
  | true => exact .minus

theorem point_not_mem_signText (x : Float) : '.' ∉ signText x := by
  unfold signText
  split <;> simp

end Binary64

open Binary64 (signText isNegative infinity word shortest)

/-- Any layout writes the sign of a number in front of the text of its word. -/
theorem Layout.toList_render (layout : Layout) {x : Float} (h : word x ≤ infinity) :
    (layout.render x).toList = signText x ++ layout.renderWord (word x) := by
  have hnan : ¬ x.isNaN = true := by
    rw [Binary64.isNaN_iff]
    exact h.not_gt
  rw [render, if_neg hnan, String.toList_ofList, signText]
  cases isNegative x <;> rfl

theorem Layout.toList_render_nan (layout : Layout) {x : Float} (h : infinity < word x) :
    (layout.render x).toList = layout.nan := by
  rw [render, if_pos ((Binary64.isNaN_iff x).mpr h), String.toList_ofList]

/-- A finite number is printed as its sign and its shortest digits. -/
theorem toList_printedNumber {x : Float} (h : word x < infinity) :
    (printedNumber x).toList = signText x ++ Layout.spread [] (shortest (word x)) := by
  rw [printedNumber, Layout.toList_render _ h.le, Layout.renderWord, if_neg h.ne]
  rfl

/-- The text of a finite number writes a numeral without an exponent, and the number nearest
to this numeral is the printed one. There is a point in it unless the number is whole. -/
theorem printedNumber_positional {x : Float} (h : x.isFinite = true) :
    ∃ text d, (printedNumber x).toList = signText x ++ text ∧ Positional text d ∧
      Numeral.toFloat ⟨isNegative x, d⟩ = x ∧ (d.exponent < 0 ↔ ¬ Binary64.IsWhole x) := by
  have hfinite := (Binary64.isFinite_iff x).mp h
  obtain ⟨d, hpositional, hvalue, hexponent⟩ :=
    Layout.spread_positional (shortest (word x))
  refine ⟨_, d, toList_printedNumber hfinite, hpositional, ?_, ?_⟩
  · rw [Numeral.toFloat, Binary64.ofDecimal_eq_of_value_eq hvalue,
      Binary64.ofDecimal_shortest hfinite, Binary64.toFloat_word hfinite.le]
  · rw [hexponent, Binary64.isWhole_iff h, ← Binary64.exponent_nonneg_iff hfinite, not_le]

/-! ## Entering what is written -/

/-- A layout whose numbers read back. A finite number is written, behind any sign, as a numeral
to which it is nearest, and the word for no number is one that can be entered. -/
structure Layout.Faithful (layout : Layout) : Prop where
  finite : ∀ {w : ℕ}, w < infinity → ∃ d, Binary64.ofDecimal d = w ∧
    ∀ {sign : List Char} {negative : Bool}, Numeral.SignWord sign negative →
      Numeral.Word (sign ++ layout.renderWord w) ⟨negative, d⟩
  nan : Entry.number? layout.nan = some (0.0 / 0.0)
  nan_lineFeed : '\n' ∉ layout.nan

namespace Layout.Faithful

variable {layout : Layout}

/-- A finite number is written as a numeral of the language, which is nearest to it. -/
theorem exists_word (h : layout.Faithful) {x : Float} (hfinite : word x < infinity) :
    ∃ n : Numeral, n.Word (layout.render x).toList ∧ n.toFloat = x := by
  obtain ⟨d, hnearest, hword⟩ := h.finite hfinite
  refine ⟨⟨isNegative x, d⟩, ?_, ?_⟩
  · rw [layout.toList_render hfinite.le]
    exact hword (Binary64.signWord_signText x)
  · rw [Numeral.toFloat, hnearest, Binary64.toFloat_word hfinite.le]

/-- What is written and entered again is the number that was written. -/
theorem number?_render (h : layout.Faithful) (x : Float) :
    Entry.number? (layout.render x).toList = some x := by
  rcases lt_trichotomy (word x) infinity with hfinite | hinfinite | hnan
  · obtain ⟨n, hword, hfloat⟩ := h.exists_word hfinite
    rw [Entry.number?_of_word hword, hfloat]
  · have hnumber : Entry.number? (signText x ++ ['i', 'n', 'f']) =
        some (Binary64.toFloat (isNegative x) infinity) := by
      unfold signText
      cases isNegative x <;> rfl
    have hfloat : Binary64.toFloat (isNegative x) infinity = x := by
      rw [← hinfinite, Binary64.toFloat_word hinfinite.le]
    rw [layout.toList_render hinfinite.le, hinfinite]
    exact hnumber.trans (congrArg some hfloat)
  · have hnone : (0.0 / 0.0 : Float).isNaN = true := rfl
    rw [layout.toList_render_nan hnan, h.nan]
    exact congrArg some (Binary64.eq_of_isNaN hnone ((Binary64.isNaN_iff x).mpr hnan))

/-- No two numbers are written alike. -/
theorem render_injective (h : layout.Faithful) : Function.Injective layout.render := by
  intro x y hxy
  have hsome := h.number?_render x
  rw [hxy, h.number?_render y] at hsome
  exact (Option.some.inj hsome).symm

/-- A number is written on one line. -/
theorem lineFeed_not_mem (h : layout.Faithful) (x : Float) : '\n' ∉ (layout.render x).toList := by
  rcases lt_trichotomy (word x) infinity with hfinite | hinfinite | hnan
  · obtain ⟨n, hword, -⟩ := h.exists_word hfinite
    intro hmem
    rcases hword.isDigit_or_mem '\n' hmem with hdigit | hmark
    · cases hdigit
    · simp at hmark
  · rw [layout.toList_render hinfinite.le, hinfinite, signText]
    have hword : layout.renderWord infinity = ['i', 'n', 'f'] := if_pos rfl
    rw [hword]
    split <;> simp
  · rw [layout.toList_render_nan hnan]
    exact h.nan_lineFeed

end Layout.Faithful

/-- The digits that are printed, up to the point or behind it, have the value of the number. -/
theorem Layout.printed_faithful : Layout.printed.Faithful where
  finite {w} hfinite := by
    obtain ⟨d, hpositional, hvalue, -⟩ := Layout.spread_positional (shortest w)
    refine ⟨d, ?_, fun hsign => ?_⟩
    · rw [Binary64.ofDecimal_eq_of_value_eq hvalue, Binary64.ofDecimal_shortest hfinite]
    · rw [renderWord, if_neg hfinite.ne]
      exact hpositional.word hsign
  nan := rfl
  nan_lineFeed := by simp [printed]

/-- What is printed and entered again is the printed number. -/
theorem enteredNumber_printedNumber (x default : Float) :
    enteredNumber (printedNumber x) default = x := by
  rw [enteredNumber, printedNumber, Layout.printed_faithful.number?_render, Option.getD_some]

/-! ## Reading what is printed -/

/-- A numeral behind the mark of an output is read as the output of its number. -/
theorem Program.ofText_output_numeral {text : String} {n : Numeral} (h : n.Word text.toList) :
    ofText ("< " ++ text) = .ok ([.output (.term (.factor (.literal n.toFloat)))], "") := by
  have hgap : Text.IsGap [' '] := by simp [Text.IsGap, Text.isSeparator]
  have hwritten : Written (tokens [.output (.term (.factor (.literal n.toFloat)))])
      ([] ++ (['<'] ++ ([' '] ++ (text.toList ++ [])))) :=
    .cons Text.isGap_nil .print (.cons hgap (.number h) .nil fun hname => hname.elim)
      fun hname => hname.elim
  have htext : ("< " ++ text).toList =
      [] ++ (['<'] ++ ([' '] ++ (text.toList ++ []))) ++ [] := by simp
  rw [ofText_eq_ok_iff, htext]
  exact Parser.statements_of_written (List.forall_mem_singleton.mpr (Nat.zero_le _)) hwritten
    (List.forall_mem_nil _)

/-- Printed numbers read back as themselves, and so no two numbers are printed alike. A
finite number is printed as a numeral without an exponent, which has a point exactly if the
number is no integer, and a program that prints this numeral holds the number as its only
literal. -/
theorem printedNumber_reads_back :
    (∀ x default : Float, enteredNumber (printedNumber x) default = x) ∧
    Function.Injective printedNumber ∧
    ∀ x : Float, x.isFinite = true →
      (∃ text d, (printedNumber x).toList = signText x ++ text ∧ Positional text d ∧
        Numeral.Word (printedNumber x).toList ⟨isNegative x, d⟩ ∧
        Numeral.toFloat ⟨isNegative x, d⟩ = x) ∧
      ('.' ∉ (printedNumber x).toList ↔ Binary64.IsWhole x) ∧
      Program.ofText ("< " ++ printedNumber x) =
        .ok ([.output (.term (.factor (.literal x)))], "") := by
  refine ⟨enteredNumber_printedNumber, ?_, fun x hfinite => ?_⟩
  · intro x y h
    rw [← enteredNumber_printedNumber x 0.0, h, enteredNumber_printedNumber]
  · obtain ⟨text, d, hprinted, hpositional, hfloat, hpoint⟩ := printedNumber_positional hfinite
    have hword : Numeral.Word (printedNumber x).toList ⟨isNegative x, d⟩ := by
      rw [hprinted]
      exact hpositional.word (Binary64.signWord_signText x)
    refine ⟨⟨text, d, hprinted, hpositional, hword, hfloat⟩, ?_, ?_⟩
    · have hsign := Binary64.point_not_mem_signText x
      rw [hprinted, List.mem_append, or_iff_right hsign, hpositional.point_mem_iff, hpoint, not_not]
    · have hread := Program.ofText_output_numeral hword
      rwa [hfloat] at hread

/-- A whole number whose shortest digits are not its exact ones. -/
theorem printedNumber_powerOfTen :
    Binary64.value? (1e23 : Float).toModel.unpack = some 99999999999999991611392 ∧
    printedNumber 1e23 = "100000000000000000000000" ∧
    enteredNumber "100000000000000000000000" 0.0 = 1e23 ∧
    Binary64.IsWhole 1e23 ∧
    Program.ofText "< 100000000000000000000000" =
      .ok ([.output (.term (.factor (.literal 1e23)))], "") := by
  have hvalue : Binary64.value? (1e23 : Float).toModel.unpack = some 99999999999999991611392 := by
    decide +kernel
  have hfinite : (1e23 : Float).isFinite = true := by decide +kernel
  have hprinted : printedNumber 1e23 = "100000000000000000000000" := by decide +kernel
  obtain ⟨hentered, -, hfinite'⟩ := printedNumber_reads_back
  obtain ⟨-, hpoint, hread⟩ := hfinite' 1e23 hfinite
  have hentered := hentered 1e23 0.0
  rw [hprinted] at hentered hpoint hread
  exact ⟨hvalue, hprinted, hentered, hpoint.mp (by simp), hread⟩

end Calc
