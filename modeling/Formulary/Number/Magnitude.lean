/-! # What a 64-bit pattern denotes

A real of the rule language is a binary floating-point number. Its text is
computed from the exact value behind the bits, so this module takes a pattern
apart into a sign and a natural number times a power of two.
-/

namespace Formulary

/-- The absolute value `significand * 2 ^ exponent` of a finite real. -/
structure Magnitude where
  significand : Nat
  exponent : Int
  deriving Repr, DecidableEq

/-- The three things a real can be. Zero is finite and keeps its sign. -/
inductive Denotation where
  | nan
  | infinite (negative : Bool)
  | finite (negative : Bool) (magnitude : Magnitude)
  deriving Repr, DecidableEq

/-- The weight of the implicit leading one of a significand, which has 52 binary
    places behind it. -/
def Magnitude.leadingOne : Nat := 0x10000000000000

namespace Denotation

/-- Read a pattern of one sign bit, eleven exponent bits and 52 fraction bits.
    The least exponent field has no leading one and shares the scale of the
    field above it; the greatest one marks infinities and NaN. -/
def ofBits (bits : Nat) : Denotation :=
  let negative := bits / (2048 * Magnitude.leadingOne) % 2 == 1
  let field : Nat := bits / Magnitude.leadingOne % 2048
  let fraction : Nat := bits % Magnitude.leadingOne
  if field = 2047 then
    if fraction = 0 then .infinite negative else .nan
  else if field = 0 then
    .finite negative ⟨fraction, -1074⟩
  else
    .finite negative ⟨Magnitude.leadingOne + fraction, (field : Int) - 1075⟩

def ofFloat (x : Float) : Denotation :=
  ofBits x.toBits.toNat

end Denotation

/-- Whether the next smaller real is only half as far away as the next larger
    one. It is so exactly where the exponent field has just gone up. -/
def Magnitude.closeBelow (x : Magnitude) : Bool :=
  x.significand == leadingOne && x.exponent > -1074

end Formulary
