import Formulary.Library.Basic

/-! # Overload resolution

A call names a function and brings arguments. Of the overloads that accept the
argument types, the one at the smallest distance is called; where no overload
accepts them, the first with the right number of parameters, whose own checks
then say what is wrong.
-/

namespace Formulary.Library

/-- The candidate at the smallest distance, the first of several such. -/
def closest (types : List Ty) : List Function → Option (Function × Nat)
  | [] => none
  | f :: fs =>
    match f.signature.distance? types, closest types fs with
    | none, best => best
    | some d, none => some (f, d)
    | some d, some (g, e) => if d ≤ e then some (f, d) else some (g, e)

/-- The overload that fits these argument types best. -/
def resolve? (l : Library) (name : String) (types : List Ty) : Option Function :=
  (closest types (l.overloads name)).map (·.1)

/-- The overload that code calling this name is built against. -/
def default? (l : Library) (name : String) : Option Function :=
  (l.overloads name).head?

/-- The first overload with so many parameters. -/
def ofArity? (l : Library) (name : String) (arity : Nat) : Option Function :=
  (l.overloads name).find? (·.arity = arity)

/-- The first overload with a number of parameters that may have been stated as a
    negative one, which no function has. -/
def ofStatedArity? (l : Library) (name : String) : Int → Option Function
  | .ofNat arity => l.ofArity? name arity
  | .negSucc _ => none

/-- The overload to call with these arguments, given one to fall back on. -/
def choose (l : Library) (name : String) (arguments : List Value) (fallback : Function) :
    Function :=
  (l.resolve? name (arguments.map Value.type)).getD fallback

end Formulary.Library
