import Formulary.Number.Shortest

/-! # How reals are written

The digits come from `Magnitude.shortest`. A `Layout` decides where the point
goes, when an exponent is written instead, and how the special values read.
-/

namespace Formulary

/-- The decisions of a written form of reals. -/
structure Layout where
  /-- Least power of ten of a leading digit that is written without exponent. -/
  plainFrom : Int
  /-- First power of ten of a leading digit that is again written with one. -/
  plainBelow : Int
  /-- Least number of digits of a written exponent. -/
  exponentWidth : Nat
  /-- Mark between the digits and the exponent. -/
  mark : String
  infinity : String
  nan : String

namespace Layout

def zeros (n : Nat) : String := "".pushn '0' n

/-- Digits with the point behind the first `whole` of them. A point in front of
    or behind all digits is reached over zeros, and a digit always stands on
    either side of it. -/
def positional (digits : String) (whole : Int) : String :=
  if whole ≤ 0 then
    "0." ++ zeros (-whole).toNat ++ digits
  else if (digits.length : Int) ≤ whole then
    digits ++ zeros (whole.toNat - digits.length) ++ ".0"
  else
    String.ofList (digits.toList.take whole.toNat) ++ "." ++
      String.ofList (digits.toList.drop whole.toNat)

/-- An exponent: its sign, then its digits filled up to the width. -/
def exponentText (layout : Layout) (e : Int) : String :=
  let digits := toString e.natAbs
  (if e < 0 then "-" else "+") ++ zeros (layout.exponentWidth - digits.length) ++ digits

/-- The first digit, the others behind a point if there are any, and the power
    of ten of the first digit. -/
def scientific (layout : Layout) (digits : String) (leading : Int) : String :=
  let rest := digits.toList.drop 1
  String.ofList (digits.toList.take 1) ++
    (if rest.isEmpty then "" else "." ++ String.ofList rest) ++
    layout.mark ++ layout.exponentText leading

/-- Write a positive decimal. -/
def decimal (layout : Layout) (d : Decimal) : String :=
  let digits := toString d.digits
  let whole := d.exponent + digits.length
  let leading := whole - 1
  if layout.plainFrom ≤ leading ∧ leading < layout.plainBelow then
    positional digits whole
  else
    layout.scientific digits leading

/-- Write what a real denotes. NaN has no sign; zero has one. -/
def render (layout : Layout) : Denotation → String
  | .nan => layout.nan
  | .infinite negative => (if negative then "-" else "") ++ layout.infinity
  | .finite negative x =>
    (if negative then "-" else "") ++
      if x.significand = 0 then "0.0" else layout.decimal x.shortest

end Layout

/-- Values show reals without exponent from a ten-thousandth up to below ten to
    the sixteenth, and otherwise with a signed exponent of two digits or more. -/
def valueLayout : Layout where
  plainFrom := -4
  plainBelow := 16
  exponentWidth := 2
  mark := "e"
  infinity := "inf"
  nan := "nan"

/-- The text of a real. -/
def realText (x : Float) : String :=
  valueLayout.render (.ofFloat x)

end Formulary
