import Formulary.Code.Node
import Formulary.Primitive.Operation

/-! # Functions

A function is a signature with a body. There are four kinds of bodies: a
predefined operation, a tree built from code, the empty body of a function that
has only been announced, and a program that a host supplies.
-/

namespace Formulary

/-- What a host program does with its arguments: it answers, gives up, or calls
    a library function by name and goes on with the result. -/
inductive HostProgram where
  | answer (v : Value)
  | fail (e : EvalError)
  | call (name : String) (arguments : List Value) (next : Value → HostProgram)

namespace HostProgram

/-- Answer with the argument at a position. -/
def argument (index : Nat) (arguments : List Value) : HostProgram :=
  match arguments[index]? with
  | some v => .answer v
  | none => .fail (.hostFailure s!"There is no argument {index}")

/-- Answer with the list of all arguments. -/
def collect (arguments : List Value) : HostProgram :=
  .answer (.list arguments)

/-- Pass the arguments on to a library function. -/
def forward (name : String) (arguments : List Value) : HostProgram :=
  .call name arguments .answer

end HostProgram

inductive Body where
  | primitive (p : Primitive)
  | tree (root : Node)
  /-- Announced, so that code can already call it. -/
  | announced
  /-- Supplied by a host, which may ask for a record of the calls. -/
  | host (traced : Bool) (program : List Value → HostProgram)

/-- A function. Serial numbers tell functions apart whose signatures clash; nobody
    can replace or remove a predefined function. -/
structure Function where
  signature : Signature
  body : Body
  predefined : Bool
  serial : Nat

namespace Function

def name (f : Function) : String :=
  f.signature.name

def arity (f : Function) : Nat :=
  f.signature.arity

def text (f : Function) : String :=
  f.signature.text

/-- Whether two functions are one and the same, and not just alike. -/
def Same (f g : Function) : Prop :=
  f.signature.Clashes g.signature ∧ f.serial = g.serial

instance (f g : Function) : Decidable (f.Same g) :=
  inferInstanceAs (Decidable (_ ∧ _))

end Function

end Formulary
