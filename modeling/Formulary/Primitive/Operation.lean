import Formulary.Error.Evaluation

/-! # Predefined operations

A predefined operation is an arithmetic function with typed parameters. It
takes its arguments from left to right, widens integers where it needs reals,
and refuses the first argument that is of no use to it. The host carries the
arithmetic out, and each step of it may raise a fault.
-/

namespace Formulary

/-- The argument as a real; an integer is rounded to the nearest one, and raises a fault where
    it is too large for that. -/
def realArgument (function : String) : Value → Except EvalError Float
  | .real x => .ok x
  | .integer n => (nearest n).mapError .fault
  | v => .error (.notReal function v)

/-- The argument as an integer; a real is never narrowed. -/
def integerArgument (function : String) : Value → Except EvalError Int
  | .integer n => .ok n
  | v => .error (.notInteger function v)

/-- An arithmetic function with the names of its parameters. -/
inductive Operation where
  | constant (x : Except Fault Float)
  | unary (value : String) (f : Float → Except Fault Float)
  | binary (lhs rhs : String) (f : Float → Float → Except Fault Float)
  /-- The second parameter is an integer. -/
  | indexed (value index : String) (f : Float → Int → Except Fault Float)
  | comparison (lhs rhs : String) (f : Float → Float → Bool)

namespace Operation

def parameters : Operation → List Parameter
  | constant _ => []
  | unary value _ => [⟨value, .real⟩]
  | binary lhs rhs _ => [⟨lhs, .real⟩, ⟨rhs, .real⟩]
  | indexed value index _ => [⟨value, .real⟩, ⟨index, .integer⟩]
  | comparison lhs rhs _ => [⟨lhs, .real⟩, ⟨rhs, .real⟩]

def returns : Operation → Ty
  | comparison .. => .boolean
  | _ => .real

end Operation

/-- A named operation. -/
structure Primitive where
  name : String
  operation : Operation

namespace Primitive

def signature (p : Primitive) : Signature where
  name := p.name
  parameters := p.operation.parameters
  returns := p.operation.returns

/-- The result of arithmetic. A fault that no guard has caught goes on. -/
def result (x : Except Fault Float) : Except EvalError Value :=
  (x.map .real).mapError .fault

/-- Apply a predefined operation to what can be looked at as values, each when its turn comes. -/
def applyBy {α : Type} (look : α → Except EvalError Value) (p : Primitive) (arguments : List α) :
    Except EvalError Value :=
  match p.operation, arguments with
  | .constant x, [] => result x
  | .unary _ f, [a] => do
    let x ← realArgument p.name (← look a)
    result (f x)
  | .binary _ _ f, [a, b] => do
    let x ← realArgument p.name (← look a)
    let y ← realArgument p.name (← look b)
    result (f x y)
  | .indexed _ _ f, [a, b] => do
    let x ← realArgument p.name (← look a)
    let n ← integerArgument p.name (← look b)
    result (f x n)
  | .comparison _ _ f, [a, b] => do
    let x ← realArgument p.name (← look a)
    let y ← realArgument p.name (← look b)
    return .boolean (f x y)
  | _, _ => do
    let vs ← arguments.mapM look
    .error (.wrongArgumentCount p.signature vs)

/-- Apply a predefined operation. -/
def apply (p : Primitive) (arguments : List Value) : Except EvalError Value :=
  p.applyBy pure arguments

end Primitive

end Formulary
