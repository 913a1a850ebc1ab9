import Formulary.Number.Layout

/-! # Values

What rules compute with: truth values, integers, reals, and lists of values.
Nothing makes a list hold values of one type only.
-/

namespace Formulary

/-- The types that a parameter can ask for. -/
inductive Ty where
  | boolean
  | integer
  | real
  | list
  deriving Repr, DecidableEq

def Ty.text : Ty → String
  | .boolean => "boolean"
  | .integer => "integer"
  | .real => "real"
  | .list => "list"

inductive Value where
  | boolean (b : Bool)
  | integer (n : Int)
  | real (x : Float)
  | list (elements : List Value)

/-- Least integer that host data can bring in. -/
def leastInteger : Int := -0x8000000000000000

/-- Greatest integer that host data can bring in. -/
def greatestInteger : Int := 0x7FFFFFFFFFFFFFFF

namespace Value

def type : Value → Ty
  | .boolean _ => .boolean
  | .integer _ => .integer
  | .real _ => .real
  | .list _ => .list

mutual

/-- The text of a value. -/
def text : Value → String
  | .boolean b => if b then "true" else "false"
  | .integer n => toString n
  | .real x => realText x
  | .list elements => "[" ++ ", ".intercalate (texts elements) ++ "]"

/-- The texts of several values, in order. -/
def texts : List Value → List String
  | [] => []
  | v :: vs => v.text :: texts vs

end

/-- A value with its type, as messages name the value they refuse. -/
def textWithType (v : Value) : String :=
  s!"{v.text} ({v.type.text})"

mutual

/-- Equality of values, which never crosses types: an integer differs from every
    real. Reals are compared as numbers, so the two zeros are equal and NaN
    differs from everything. -/
def same : Value → Value → Bool
  | .boolean a, .boolean b => a == b
  | .integer a, .integer b => a == b
  | .real a, .real b => a == b
  | .list as, .list bs => sameElements as bs
  | _, _ => false

def sameElements : List Value → List Value → Bool
  | [], [] => true
  | a :: as, b :: bs => same a b && sameElements as bs
  | _, _ => false

end

instance : BEq Value := ⟨same⟩

end Value

end Formulary
