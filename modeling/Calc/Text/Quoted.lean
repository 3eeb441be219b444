/-
# Quoted text

A name or an operator is shown in single quotes, or in double quotes when the
text holds a single quote and no double one. The backslash and the quote in use
are escaped by a backslash; tab, line feed and carriage return have escapes of
their own; and every other character that is not printable is written by its code
point with two, four or eight hexadecimal digits.
-/

import Calc.Text.Printable

namespace Calc.Text

/-- The number in hexadecimal, padded with zeros to the given width. -/
def hexadecimal (width n : Nat) : List Char :=
  let digits := Nat.toDigits 16 n
  List.replicate (width - digits.length) '0' ++ digits

/-- How one character is written between the given quotes. -/
def escape (quote c : Char) : List Char :=
  if c = quote || c = '\\' then ['\\', c]
  else if c = '\t' then ['\\', 't']
  else if c = '\n' then ['\\', 'n']
  else if c = '\r' then ['\\', 'r']
  else if isPrintable c then [c]
  else if c.toNat < 0x100 then '\\' :: 'x' :: hexadecimal 2 c.toNat
  else if c.toNat < 0x10000 then '\\' :: 'u' :: hexadecimal 4 c.toNat
  else '\\' :: 'U' :: hexadecimal 8 c.toNat

/-- The quote that a text is shown in: the single one, unless only that would
have to be escaped. -/
def quoteFor (s : List Char) : Char :=
  if s.contains '\'' && !s.contains '"' then '"' else '\''

/-- A text between quotes. -/
def quoted (s : String) : String :=
  let quote := quoteFor s.toList
  String.ofList (quote :: s.toList.flatMap (escape quote) ++ [quote])

/-- A text of printable characters without quotes and backslashes is shown as it
is, between single quotes. -/
theorem quoted_plain {s : String}
    (h : ∀ c ∈ s.toList, isPrintable c = true ∧
      c ≠ '\'' ∧ c ≠ '\\' ∧ c ≠ '\t' ∧ c ≠ '\n' ∧ c ≠ '\r') :
    quoted s = String.ofList ('\'' :: s.toList ++ ['\'']) := by
  have single : quoteFor s.toList = '\'' := by
    have none : '\'' ∉ s.toList := fun m => (h _ m).2.1 rfl
    simp [quoteFor, none]
  have same : s.toList.flatMap (escape '\'') = s.toList := by
    generalize s.toList = cs at h
    induction cs with
    | nil => rfl
    | cons c cs ih =>
      have hc := h c (List.mem_cons_self ..)
      have hcs := ih fun d m => h d (List.mem_cons_of_mem _ m)
      simp [escape, hc, hcs]
  simp [quoted, single, same]

end Calc.Text
