/-
# Numerals that a person types

A line of input may be written in more ways than a numeral of a program: with blanks
around it, with underscores, with the digits of other scripts. None of this touches a
numeral of the language, which is entered as the number that it is in a program.
-/

import Calc.Number.Entry
import Calc.Proofs.Grammar.Follow

namespace Calc

namespace Text

/-- Trimming leaves a text without blanks as it is. -/
theorem trim_eq_self {s : List Char} (h : ∀ c ∈ s, isBlank c = false) : trim s = s := by
  have hdrop {s : List Char} (h : ∀ c ∈ s, isBlank c = false) : s.dropWhile isBlank = s := by
    cases s with
    | nil => rfl
    | cons c rest => rw [List.dropWhile_cons_of_neg (by simp [h c List.mem_cons_self])]
  have hreverse : ∀ c ∈ s.reverse, isBlank c = false := fun c hc => h c (List.mem_reverse.mp hc)
  rw [trim, trimStart, hdrop h, trimEnd, hdrop hreverse, List.reverse_reverse]

/-- An ASCII digit stands for itself. -/
theorem toAsciiDigit_of_isDigit {c : Char} (h : c.isDigit = true) : toAsciiDigit c = c := by
  obtain ⟨hlow, hhigh⟩ := isDigit_iff.mp h
  obtain ⟨others, hzeros⟩ : ∃ others, decimalZeros = 48 :: others := ⟨_, rfl⟩
  have hvalue : digitValue? c = some (c.toNat - 48) := by
    rw [digitValue?, hzeros, List.find?_cons_of_pos]
    · rfl
    · rw [Bool.and_eq_true, decide_eq_true_iff, decide_eq_true_iff]
      omega
  rw [toAsciiDigit, hvalue]
  apply Char.toNat_inj.mp
  rw [Nat.toNat_digitChar_of_lt_ten (by omega)]
  omega

end Text

namespace Entry

/-- Without underscores there is nothing to drop. -/
theorem dropUnderscores_eq_self {s : List Char} (h : '_' ∉ s) : dropUnderscores s = s := by
  fun_induction dropUnderscores s with
  | case1 => rfl
  | case2 => simp at h
  | case3 => simp at h
  | case4 c rest hother ih => rw [ih (List.not_mem_of_not_mem_cons h)]

/-- Nothing happens to the characters of a numeral before they are scanned. -/
theorem plain_of_word {text : List Char} {n : Numeral} (h : n.Word text) :
    dropUnderscores ((Text.trim text).map Text.toAsciiDigit) = text := by
  have hdigit (c : Char) (hdigit : c.isDigit = true) : Text.isBlank c = false := by
    rw [← Bool.not_eq_true]
    intro hblank
    have hword := isWordChar_of_isBlank hblank
    rw [isWordChar, hdigit, Bool.or_true, Bool.true_or] at hword
    cases hword
  have hblank : ∀ c ∈ text, Text.isBlank c = false := h.forall_mem hdigit rfl rfl rfl rfl rfl
  have hascii : ∀ c ∈ text, Text.toAsciiDigit c = c :=
    h.forall_mem (fun _ => Text.toAsciiDigit_of_isDigit) rfl rfl rfl rfl rfl
  have hunderscore : '_' ∉ text := by
    intro hc
    rcases h.isDigit_or_mem '_' hc with hdigit | hmem
    · cases hdigit
    · simp at hmem
  rw [Text.trim_eq_self hblank, List.map_congr_left hascii, List.map_id',
    dropUnderscores_eq_self hunderscore]

/-- Whatever is a numeral in a program is entered as the same number. -/
theorem number?_of_word {text : List Char} {n : Numeral} (h : n.Word text) :
    number? text = some n.toFloat := by
  have hscan : Numeral.scan text = some (n, []) := by
    rw [← List.append_nil text]
    exact Numeral.scan_append h trivial
  rw [number?, plain_of_word h]
  dsimp only
  rw [hscan]

end Entry

end Calc
