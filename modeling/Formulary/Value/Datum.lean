import Formulary.Error.Evaluation

/-! # Host data

A host hands over plain data and gets plain data back. Conversion takes lists
apart from left to right, the innermost ones first, and reports the first leaf
that has no counterpart among the values.
-/

namespace Formulary

/-- Data of a host. A part may already be a value; it is then taken as it is. -/
inductive Datum where
  | boolean (b : Bool)
  | integer (n : Int)
  | real (x : Float)
  | list (elements : List Datum)
  | value (v : Value)
  | stray (object : Stray)

mutual

/-- The value that host data stands for. -/
def Datum.toValue : Datum → Except EvalError Value
  | .boolean b => .ok (.boolean b)
  | .integer n =>
    if leastInteger ≤ n ∧ n ≤ greatestInteger then .ok (.integer n)
    else .error (.integerOutOfRange n)
  | .real x => .ok (.real x)
  | .list elements => (Datum.toValues elements).map .list
  | .value v => .ok v
  | .stray object => .error (.notConvertible object)

/-- The values of several pieces of data, unless one of them has none. -/
def Datum.toValues : List Datum → Except EvalError (List Value)
  | [] => .ok []
  | d :: ds => do
    let v ← d.toValue
    let vs ← Datum.toValues ds
    return v :: vs

end

mutual

/-- The plain data that a value stands for. -/
def Value.toDatum : Value → Datum
  | .boolean b => .boolean b
  | .integer n => .integer n
  | .real x => .real x
  | .list elements => .list (Value.toData elements)

def Value.toData : List Value → List Datum
  | [] => []
  | v :: vs => v.toDatum :: Value.toData vs

end

end Formulary
