/-! # Guarded arithmetic

The host's arithmetic raises a fault where a result overflows or is not defined. The
operations of the catalog are guarded against this: they answer with the infinities and the
NaN of IEEE 754, because they look at their arguments first or catch the fault. Nothing
guards the conversion of an integer that is too large for a real.
-/

namespace Formulary

/-- Why arithmetic of the host has no result. -/
inductive Fault where
  | overflow
  | domain
  | zeroDivision
  deriving Repr, DecidableEq

/-- What the host says to a fault. -/
def Fault.text : Fault → String
  | overflow => "int too large to convert to float"
  | domain => "math domain error"
  | zeroDivision => "float division by zero"

def infinity : Float := 1.0 / 0.0

def notANumber : Float := 0.0 / 0.0

/-- The size of a real with the sign of another one. -/
def copySign (size sign : Float) : Float :=
  if sign.toBits < 0x8000000000000000 then size.abs else -size.abs

/-- Whether a real is an odd integer. -/
def isOdd (x : Float) : Bool :=
  x.isFinite && x.floor == x && x - 2.0 * (x / 2.0).floor == 1.0

/-- The elementary functions of a host. -/
structure HostMath where
  pow : Float → Float → Except Fault Float
  exp : Float → Except Fault Float
  log : Float → Except Fault Float
  log2 : Float → Except Fault Float
  log10 : Float → Except Fault Float
  sqrt : Float → Except Fault Float

namespace HostMath

/-- A function that is defined on positive reals and on NaN. -/
def onPositive (f : Float → Float) (x : Float) : Except Fault Float :=
  if 0.0 < x || x.isNaN then .ok (f x) else .error .domain

/-- The functions of IEEE 754, with a fault in place of every result that finite arguments
    do not account for. -/
def standard : HostMath where
  pow x y :=
    let result := x.pow y
    if x.isFinite && y.isFinite && !result.isFinite then
      .error (if result.isNaN || x == 0.0 then .domain else .overflow)
    else .ok result
  exp x :=
    let result := x.exp
    if x.isFinite && result.isInf then .error .overflow else .ok result
  log := onPositive Float.log
  log2 := onPositive Float.log2
  log10 := onPositive Float.log10
  sqrt x := if x == 0.0 then .ok x.sqrt else onPositive Float.sqrt x

end HostMath

/-- Least absolute value of an integer that is too large for a real. Both exponents are small,
    so that the power can be computed wherever it is met. -/
def leastTooLarge : Nat :=
  0x3FFFFFFFFFFFFF * Nat.pow (Nat.pow 2 97) 10

/-- The real nearest to an integer. -/
def nearest (n : Int) : Except Fault Float :=
  if n.natAbs < leastTooLarge then .ok (Float.ofInt n) else .error .overflow

/-- The quotient of two reals. -/
def quotient (x y : Float) : Except Fault Float :=
  if y == 0.0 then .error .zeroDivision else .ok (x / y)

/-- One over an integer. -/
def reciprocal (n : Int) : Except Fault Float := do
  let y ← nearest n
  if n = 0 then .error .zeroDivision else .ok (1.0 / y)

/-- Divide. A divisor of zero gives an infinity with the sign of both arguments, or NaN where
    there is nothing to divide. -/
def divide (x y : Float) : Except Fault Float :=
  if y == 0.0 then
    if x == 0.0 || x.isNaN then .ok notANumber
    else .ok (copySign infinity x * copySign 1.0 y)
  else quotient x y

namespace HostMath

variable (m : HostMath)

/-- Raise to a power. Overflows and poles give an infinity, and a negative base with a
    fractional exponent gives NaN. -/
def power (base exponent : Float) : Except Fault Float :=
  match m.pow base exponent with
  | .error .overflow => .ok (if base < 0.0 && isOdd exponent then -infinity else infinity)
  | .error .domain =>
    if base == 0.0 then .ok (if isOdd exponent then copySign infinity base else infinity)
    else .ok notANumber
  | result => result

def integerPower (base : Float) (exponent : Int) : Except Fault Float := do
  m.power base (← nearest exponent)

/-- The real root of a degree. Negative numbers have roots of odd degree; a degree of zero
    has no root. -/
def root (x : Float) (degree : Int) : Except Fault Float :=
  if degree = 0 then .ok notANumber
  else do
    let exponent ← reciprocal degree
    if x < 0.0 ∧ degree % 2 = 1 then return -(← m.power (-x) exponent)
    else m.power x exponent

def squareRoot (x : Float) : Except Fault Float :=
  if x < 0.0 then .ok notANumber else m.sqrt x

def exponential (x : Float) : Except Fault Float :=
  match m.exp x with
  | .error .overflow => .ok infinity
  | result => result

/-- A logarithm, given the one of the host. -/
def logarithm (log : Float → Except Fault Float) (x : Float) : Except Fault Float :=
  if x == 0.0 then .ok (-infinity)
  else if x < 0.0 then .ok notANumber
  else log x

end HostMath

end Formulary
