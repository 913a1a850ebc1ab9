import Formulary.Primitive.Operation

/-! # The catalog

The functions that every ordinary library starts with. Their arithmetic is guarded:
overflow, poles and arguments outside a function's domain give infinities and NaN. Only
integers that are too large for a real get past the guards.
-/

namespace Formulary

namespace Primitive

def constants : List Primitive :=
  [⟨"pi", .constant (.ok 3.141592653589793)⟩]

def arithmetic (m : HostMath) : List Primitive :=
  [ ⟨"+", .binary "lhs" "rhs" fun x y => .ok (x + y)⟩,
    ⟨"-", .binary "lhs" "rhs" fun x y => .ok (x - y)⟩,
    ⟨"*", .binary "lhs" "rhs" fun x y => .ok (x * y)⟩,
    ⟨"/", .binary "lhs" "rhs" divide⟩,
    ⟨"sqr", .unary "value" fun x => .ok (x * x)⟩,
    ⟨"sqrt", .unary "value" m.squareRoot⟩,
    ⟨"power", .binary "base" "exponent" m.power⟩,
    ⟨"powern", .indexed "base" "exponent" m.integerPower⟩,
    ⟨"root", .indexed "value" "n" m.root⟩ ]

def exponentials (m : HostMath) : List Primitive :=
  [ ⟨"exp", .unary "value" m.exponential⟩,
    ⟨"exp2", .unary "value" (m.power 2.0)⟩,
    ⟨"exp10", .unary "value" (m.power 10.0)⟩ ]

def logarithms (m : HostMath) : List Primitive :=
  [ ⟨"log", .unary "value" (HostMath.logarithm m.log)⟩,
    ⟨"log2", .unary "value" (HostMath.logarithm m.log2)⟩,
    ⟨"log10", .unary "value" (HostMath.logarithm m.log10)⟩ ]

def comparisons : List Primitive :=
  [ ⟨"<=", .comparison "lhs" "rhs" fun x y => x ≤ y⟩,
    ⟨"==", .comparison "lhs" "rhs" fun x y => x == y⟩,
    ⟨">=", .comparison "lhs" "rhs" fun x y => x ≥ y⟩ ]

/-- All predefined functions on a host, in the order in which a library lists them. -/
def catalog (m : HostMath) : List Primitive :=
  constants ++ arithmetic m ++ exponentials m ++ logarithms m ++ comparisons

end Primitive

end Formulary
