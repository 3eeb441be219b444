/-
# How numbers are written

The digits of a number are the shortest ones that read back. Where the point
stands, and whether an exponent is written, is decided by a layout. Two layouts
are in use: the one in which a program prints its results, which never uses an
exponent, and the one in which literals are shown in a syntax tree.
-/

import Calc.Number.Shortest

namespace Calc

/-- What a way of writing numbers is free to decide. -/
structure Layout where
  /-- whether a number whose leading digit counts powers `10^e` is written
  without an exponent -/
  positional : Int → Bool
  /-- what follows the digits of a number that has no fraction -/
  whole : List Char
  /-- the text of a number that is none -/
  nan : List Char

namespace Layout

/-- Results are written with all their digits, a whole number as an integer. -/
def printed : Layout where
  positional _ := true
  whole := []
  nan := ['N', 'a', 'N']

/-- Literals of a tree show by a point or an exponent that they are no integers;
the exponent appears below `10^-4` and from `10^16` on. -/
def tree : Layout where
  positional e := -4 ≤ e && e < 16
  whole := ['.', '0']
  nan := ['n', 'a', 'n']

/-- All digits of the number, with zeros up to the point. -/
def spread (whole : List Char) (d : Decimal) : List Char :=
  if 0 ≤ d.exponent then
    d.text ++ List.replicate d.exponent.toNat '0' ++ whole
  else if 0 < d.scale then
    d.text.take d.scale.toNat ++ '.' :: d.text.drop d.scale.toNat
  else
    '0' :: '.' :: List.replicate (-d.scale).toNat '0' ++ d.text

/-- One digit before the point, and an exponent with its sign and at least two
digits. -/
def scientific (d : Decimal) : List Char :=
  let e := d.scale - 1
  let exponent := Nat.toDigits 10 e.natAbs
  let fraction := if 1 < d.text.length then '.' :: d.text.drop 1 else []
  d.text.take 1 ++ fraction ++ 'e' :: (if e < 0 then '-' else '+') ::
    List.replicate (2 - exponent.length) '0' ++ exponent

/-- The text of a word of 63 bits that is no NaN. -/
def renderWord (layout : Layout) (word : Nat) : List Char :=
  if word = Binary64.infinity then ['i', 'n', 'f']
  else
    let d := Binary64.shortest word
    if layout.positional (d.scale - 1) then spread layout.whole d else scientific d

/-- The text of a number. -/
def render (layout : Layout) (x : Float) : String :=
  if x.isNaN then String.ofList layout.nan
  else
    let magnitude := layout.renderWord (Binary64.word x)
    String.ofList (if Binary64.isNegative x then '-' :: magnitude else magnitude)

end Layout

/-- A number as a program prints it. -/
def printedNumber (x : Float) : String :=
  Layout.printed.render x

end Calc
