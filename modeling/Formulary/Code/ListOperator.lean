/-! # List operations

Mapping calls a function with one argument for every element of a list, folding
calls one with two.
-/

namespace Formulary

inductive ListOperator where
  | map
  | reduce
  deriving Repr, DecidableEq

namespace ListOperator

def text : ListOperator → String
  | .map => "map"
  | .reduce => "reduce"

/-- How many arguments the operation passes to its function. -/
def arity : ListOperator → Nat
  | .map => 1
  | .reduce => 2

/-- The function that the operation is looking for. -/
def requirement : ListOperator → String
  | .map => "A function with exactly 1 parameter"
  | .reduce => "A function with exactly 2 parameters"

end ListOperator

end Formulary
