import Formulary.Number.Magnitude

/-! # Shortest decimals

A positive magnitude is identified by any decimal that lies closer to it than
to its neighbours. Among the decimals that identify it, `Magnitude.shortest`
takes one with the fewest digits, and of those the nearest.

Every binary fraction has a finite decimal expansion, so both ends of the
interval of identifying decimals are natural numbers over a common power of
ten, and all comparisons are between naturals.
-/

namespace Formulary

/-- The number `digits * 10 ^ exponent`. -/
structure Decimal where
  digits : Nat
  exponent : Int
  deriving Repr, DecidableEq

/-- A magnitude and the two halfway points to its neighbours, all counted in
    units of `10 ^ exponent`. The halfway points themselves belong to the
    interval when `closed` is set. -/
structure Window where
  low : Nat
  value : Nat
  high : Nat
  closed : Bool
  exponent : Int
  deriving Repr, DecidableEq

namespace Window

/-- Whether a decimal, given in the window's unit, identifies the value. -/
def contains (w : Window) (x : Nat) : Bool :=
  if w.closed then w.low ≤ x && x ≤ w.high else w.low < x && x < w.high

/-- The multiple of `unit` to write for the value, if one of its two neighbours
    among the multiples lies in the window. The nearer one wins, and of two
    equally near ones the even one. The result counts units. -/
def nearest (w : Window) (unit : Nat) : Option Nat :=
  let below := w.value / unit
  let above := below + 1
  match w.contains (below * unit), w.contains (above * unit) with
  | false, false => none
  | true, false => some below
  | false, true => some above
  | true, true =>
    match compare (2 * w.value) ((below + above) * unit) with
    | .lt => some below
    | .gt => some above
    | .eq => some (if below % 2 = 0 then below else above)

/-- Whatever is written for a value identifies it. -/
theorem contains_of_nearest_eq_some {w : Window} {unit digits : Nat}
    (h : w.nearest unit = some digits) : w.contains (digits * unit) = true := by
  simp only [nearest] at h
  split at h
  case h_1 => cases h
  case h_2 below _ => cases h; exact below
  case h_3 _ above => cases h; exact above
  case h_4 below above =>
    split at h
    · cases h; exact below
    · cases h; exact above
    · cases h; split
      · exact below
      · exact above

/-- Search the powers of ten from the given one downwards for the coarsest
    with a multiple in the window. With no digit dropped the value itself is
    the answer. -/
def search (w : Window) : Nat → Decimal
  | 0 => ⟨w.value, w.exponent⟩
  | dropped + 1 =>
    match w.nearest (Nat.pow 10 (dropped + 1)) with
    | some digits => ⟨digits, w.exponent + ((dropped + 1 : Nat) : Int)⟩
    | none => w.search dropped

end Window

namespace Magnitude

/-- A quarter of the last binary place. Below one, a power of two is a power of
    five over a power of ten. -/
def quarter (x : Magnitude) : Decimal :=
  match x.exponent - 2 with
  | .ofNat n => ⟨Nat.pow 2 n, 0⟩
  | .negSucc n => ⟨Nat.pow 5 (n + 1), .negSucc n⟩

/-- The window of a positive magnitude. Counting quarters of the last binary
    place makes all three points whole. A halfway point rounds to the magnitude
    whose significand is even. -/
def window (x : Magnitude) : Window :=
  let unit := x.quarter
  { low := (4 * x.significand - if x.closeBelow then 1 else 2) * unit.digits
    value := 4 * x.significand * unit.digits
    high := (4 * x.significand + 2) * unit.digits
    closed := x.significand % 2 = 0
    exponent := unit.exponent }

/-- The shortest decimal that identifies a positive magnitude. The search starts
    at the first power of ten above the value: no multiple of a greater one but
    zero comes near, and zero identifies no positive magnitude. -/
def shortest (x : Magnitude) : Decimal :=
  x.window.search (toString x.window.value).length

end Magnitude

end Formulary
