/-
# The fewest digits that read back

Every finite word has a decimal number of at most seventeen digits that reads
back as it, and often a much shorter one. The search goes through the grids of
decimal numbers with 1, 2, … 17 digits. On each it tries the two neighbours of
the exact value, the nearer one first, an exact tie going to the even digit. A
candidate is accepted only if it reads back, and the exact expansion of the
value, which is finite, stands behind the search: whatever is returned reads
back.
-/

import Calc.Number.Binary64

namespace Calc.Binary64

/-- The exact value of a finite word: a unit is `5^1074 / 10^1074`. -/
def exact (word : Nat) : Decimal :=
  ⟨units word * Nat.pow 5 1074, -1074⟩

/-- The multiples of `10^exponent` next to the value of a word, the one below
and the one above, in the order in which they are tried. -/
def neighbours (word : Nat) (exponent : Int) : List Decimal :=
  let num := units word * Nat.pow 10 (-exponent).toNat
  let den := Nat.pow 2 1074 * Nat.pow 10 exponent.toNat
  let below := num / den
  if roundedQuotient num den = below then [⟨below, exponent⟩, ⟨below + 1, exponent⟩]
  else [⟨below + 1, exponent⟩, ⟨below, exponent⟩]

/-- The nearest multiple of `10^exponent` that reads back as the word. -/
def readsBackOn (word : Nat) (exponent : Int) : Option Decimal :=
  ((neighbours word exponent).map Decimal.reduce).find? (ofDecimal · = word)

/-- The shortest decimal number that reads back as the finite word, and the
nearest of those; without trailing zeros. -/
def shortest (word : Nat) : Decimal :=
  if word = 0 then ⟨0, 0⟩
  else
    let top := (exact word).scale
    ((List.range 17).findSome? fun (n : Nat) => readsBackOn word (top - (n + 1))).getD
      (exact word).reduce

end Calc.Binary64
