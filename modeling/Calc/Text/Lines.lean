/-
# Lines

A text is cut into lines at its line feeds. A source text always has at least
one line, and the text after the last line feed is a line of its own, empty or
not. Standard input is cut the same way, but there the text after the last line
feed is a line only when it is not empty.
-/

namespace Calc.Text

/-- The lines of a text, without their line feeds. -/
def lines : List Char → List (List Char)
  | [] => [[]]
  | c :: rest =>
      match lines rest with
      | [] => [[c]]
      | line :: others => if c = '\n' then [] :: line :: others else (c :: line) :: others

theorem lines_ne_nil (s : List Char) : lines s ≠ [] := by
  cases s with
  | nil => simp [lines]
  | cons c rest =>
    simp only [lines]
    split
    · simp
    · split <;> simp

/-- The first line of a text. -/
def firstLine (s : List Char) : List Char :=
  s.takeWhile (· != '\n')

/-- The lines that can be read from standard input: an unterminated last line
counts, the empty text after a last line feed does not. -/
def inputLines (s : List Char) : List (List Char) :=
  let all := lines s
  if all.getLast? = some [] then all.dropLast else all

/-- Every line break of the three common kinds, CR LF, CR and LF, read as LF. -/
def unifyBreaks : List Char → List Char
  | [] => []
  | '\r' :: '\n' :: rest => '\n' :: unifyBreaks rest
  | c :: rest => (if c = '\r' then '\n' else c) :: unifyBreaks rest

end Calc.Text
