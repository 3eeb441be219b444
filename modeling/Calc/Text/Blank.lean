/-
# Blank characters

Two sets of characters count as blank. Separators may stand between the tokens
of a program and are four ASCII characters. Blanks are what is trimmed from
lines a person typed and from text that is left over; they follow the Unicode
property White_Space and add the four information separators U+001C to U+001F.
Every separator is a blank.
-/

namespace Calc.Text

/-- Space, tab, carriage return and line feed: what may stand between two
tokens of a program. -/
def isSeparator (c : Char) : Bool :=
  c == ' ' || c == '\t' || c == '\r' || c == '\n'

/-- White space in the sense of Unicode, together with the four information
separators. -/
def isBlank (c : Char) : Bool :=
  let n := c.toNat
  (0x09 ≤ n && n ≤ 0x0D) || (0x1C ≤ n && n ≤ 0x20) || n == 0x85 || n == 0xA0 ||
    n == 0x1680 || (0x2000 ≤ n && n ≤ 0x200A) || n == 0x2028 || n == 0x2029 ||
    n == 0x202F || n == 0x205F || n == 0x3000

theorem isBlank_of_isSeparator {c : Char} (h : isSeparator c = true) : isBlank c = true := by
  simp only [isSeparator, Bool.or_eq_true, beq_iff_eq] at h
  rcases h with ((rfl | rfl) | rfl) | rfl <;> decide

/-- The text from its first character that is no blank. -/
def trimStart (s : List Char) : List Char :=
  s.dropWhile isBlank

/-- The text up to its last character that is no blank. -/
def trimEnd (s : List Char) : List Char :=
  (s.reverse.dropWhile isBlank).reverse

/-- The text without the blanks at its two ends. -/
def trim (s : List Char) : List Char :=
  trimEnd (trimStart s)

/-- The text from its first character that is no separator. -/
def skipSeparators (s : List Char) : List Char :=
  s.dropWhile isSeparator

theorem skipSeparators_length_le (s : List Char) :
    (skipSeparators s).length ≤ s.length :=
  (List.dropWhile_suffix isSeparator).length_le

end Calc.Text
