import Formulary.Error.Definition
import Formulary.Function
import Formulary.Primitive.Catalog

/-! # The library

The functions that can be called by name. Functions of one name stand together,
in the order in which their signatures came in; names stand in the order in
which they first got a function.

Among the functions of a name no two have the same parameter types: a newcomer
takes the place of the one that it clashes with, unless that one is predefined.
-/

namespace Formulary

structure Library where
  functions : List Function := []

namespace Library

/-- The library without functions. -/
def empty : Library := {}

/-- All functions of a name, the oldest signature first. -/
def overloads (l : Library) (name : String) : List Function :=
  l.functions.filter (·.name = name)

/-- The names that have a function, each once. -/
def names (l : Library) : List String :=
  (l.functions.map Function.name).eraseDups

def contains (l : Library) (name : String) : Bool :=
  l.functions.any (·.name = name)

theorem mem_overloads {l : Library} {name : String} {f : Function} :
    f ∈ l.overloads name ↔ f ∈ l.functions ∧ f.name = name := by
  simp [overloads]

theorem contains_iff {l : Library} {name : String} :
    l.contains name = true ↔ ∃ f, f ∈ l.overloads name := by
  simp [contains, mem_overloads]

/-- The function that a newcomer of this signature would clash with: the one of its name that
    takes arguments of its parameter types as they are. -/
def clash? (l : Library) (s : Signature) : Option Function :=
  (l.overloads s.name).find? fun f => f.signature.distance? s.types = some 0

theorem clash?_eq_find? (l : Library) (s : Signature) :
    l.clash? s = l.functions.find? (·.signature.Clashes s) := by
  rw [clash?, overloads, List.find?_filter]
  congr 1
  funext f
  simp only [Signature.distance?_eq_zero_iff, decide_eq_true_eq, decide_eq_decide]
  rw [Signature.Clashes, Function.name, eq_comm (a := f.signature.types)]

/-- Put a function behind the last one of its name, or behind all others if the
    name is new. -/
def place (f : Function) : List Function → List Function
  | [] => [f]
  | g :: gs =>
    if g.name = f.name ∧ ∀ h ∈ gs, h.name ≠ f.name then g :: f :: gs
    else g :: place f gs

/-- Put a function in the place of the one that it clashes with. -/
def substitute (f : Function) : List Function → List Function
  | [] => []
  | g :: gs => if g.signature.Clashes f.signature then f :: gs else g :: substitute f gs

/-- What comes of offering a function to a library. -/
inductive Registration where
  | added (l : Library)
  | replaced (l : Library)
  | refused (existing : Function)

/-- Offer a function to the library. -/
def register (l : Library) (f : Function) : Registration :=
  match l.clash? f.signature with
  | none => .added ⟨place f l.functions⟩
  | some existing =>
    if existing.predefined then .refused existing else .replaced ⟨substitute f l.functions⟩

/-- Whether this very function is in the library. -/
def holds (l : Library) (f : Function) : Bool :=
  l.functions.any (·.Same f)

/-- Take a function out of the library. There is no result if it is predefined
    or not there. -/
def unregister? (l : Library) (f : Function) : Option Library :=
  if !f.predefined && l.holds f then some ⟨l.functions.eraseP (·.Same f)⟩ else none

/-- The place of this very function among the overloads of its name. -/
def position? (l : Library) (f : Function) : Option Nat :=
  (l.overloads f.name).findIdx? (·.Same f)

end Library

/-- The predefined functions, numbered in catalog order. -/
def Primitive.functions : List Function :=
  (Primitive.catalog .standard).zipIdx.map fun (p, serial) =>
    { signature := p.signature, body := .primitive p, predefined := true, serial }

/-- The library of the predefined functions. No two of them clash, so all can be
    taken over in catalog order. -/
def Library.predefined : Library :=
  ⟨Primitive.functions⟩

theorem Library.predefined_pairwise :
    Library.predefined.functions.Pairwise fun f g => ¬f.signature.Clashes g.signature := by
  decide

end Formulary
