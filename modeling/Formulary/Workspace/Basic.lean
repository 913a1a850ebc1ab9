import Formulary.Code.Building
import Formulary.Evaluation.Eval
import Formulary.Value.Datum
import Formulary.Workspace.Journal

/-! # Workspaces

A workspace is what a host works with: a library, a supply of serial numbers for
new functions, and the journal of what happened. Each operation gives the
workspace after it together with its result. An operation that fails with an error of
definition leaves the library as it was; one that the host breaks off need not.
-/

namespace Formulary

structure Workspace where
  library : Library
  /-- What the names of inferred parameters begin with. -/
  stem : String := "param"
  /-- The serial number of the next function. -/
  nextSerial : Nat
  /-- All records so far, the oldest first. -/
  journal : List Record
  /-- How deeply calls may nest. -/
  depth : Nat := 1000
  /-- How many levels a tree may have whose text is written. -/
  levels : Nat := 333

namespace Workspace

/-- A workspace whose library holds the predefined functions. -/
def predefined (stem : String) : Workspace where
  library := .predefined
  stem := stem
  nextSerial := Primitive.functions.length
  journal := Primitive.functions.map fun f => .registered f.signature

/-- A workspace whose library is empty. -/
def empty (stem : String) : Workspace where
  library := .empty
  stem := stem
  nextSerial := 0
  journal := []

/-- Write a record. -/
def log (w : Workspace) (r : Record) : Workspace :=
  { w with journal := w.journal ++ [r] }

/-- Make a new function, which belongs to the host until it is registered. -/
def create (w : Workspace) (signature : Signature) (body : Body) (isPredefined : Bool) :
    Workspace × Function :=
  ({ w with nextSerial := w.nextSerial + 1 },
    { signature, body, predefined := isPredefined, serial := w.nextSerial })

/-- Make a function that has parameters but no body yet. A negative number of
    parameters means none. -/
def announce (w : Workspace) (name : String) (arity : Int) : Workspace × Function :=
  w.create ⟨name, Code.realParameters w.stem arity.toNat, .real⟩ .announced false

/-- The parameters that code has in this workspace. -/
def inferParameters (w : Workspace) (code : Code) : Except DefinitionError (List Parameter) :=
  code.arity.map (Code.realParameters w.stem)

/-- Make a function from code. The journal gets the text of the tree. -/
def build (w : Workspace) (name : String) (code : Code) :
    Workspace × Except DefinitionError Function :=
  match Rule.written w.library w.levels code with
  | .error e => (w, .error e)
  | .ok rule =>
    let parameters := Code.realParameters w.stem rule.arity
    let (w, f) := w.create ⟨name, parameters, .real⟩ (.tree rule.root) false
    (w.log (.built f.signature rule.root), .ok f)

/-- Offer a function to the library. -/
def register (w : Workspace) (f : Function) : Workspace × Except DefinitionError Unit :=
  match w.library.register f with
  | .added l => ({ w with library := l }.log (.registered f.signature), .ok ())
  | .replaced l => ({ w with library := l }.log (.replaced f.signature), .ok ())
  | .refused existing =>
    (w.log (.rejected f.signature existing.signature),
      .error (.duplicate f.signature existing.signature))

/-- Take a function out of the library, and say whether it was there to be taken. -/
def unregister (w : Workspace) (f : Function) : Workspace × Bool :=
  match w.library.unregister? f with
  | some l => ({ w with library := l }.log (.unregistered f.signature), true)
  | none => (w, false)

/-- Make a function from code and register it. -/
def define (w : Workspace) (name : String) (code : Code) :
    Workspace × Except DefinitionError Function :=
  match w.build name code with
  | (w, .error e) => (w, .error e)
  | (w, .ok f) =>
    match w.register f with
    | (w, .error e) => (w, .error e)
    | (w, .ok ()) => (w.log (.defined f.signature), .ok f)

/-- Undo an announcement: put back the function that it displaced, or else take
    the announced function out. -/
def withdraw (w : Workspace) (announced : Function) : Option Function → Workspace
  | some displaced => (w.register displaced).1
  | none => (w.unregister announced).1

/-- Make a function from code that may call the function itself, and register it.
    The function is announced first, so that its name can be resolved while the
    code is built, and replaced by the real one afterwards. The announcement is withdrawn
    only after an error of definition. -/
def defineRecursive (w : Workspace) (name : String) (code : Code) (arity : Int) :
    Workspace × Except DefinitionError Function :=
  let (w, announced) := w.announce name arity
  let displaced := w.library.clash? announced.signature
  match w.register announced with
  | (w, .error e) => (w, .error e)
  | (w, .ok ()) =>
    match w.build name code with
    | (w, .error e) =>
      (if e.kind.phase? = some .definition then w.withdraw announced displaced else w, .error e)
    | (w, .ok f) =>
      if (f.arity : Int) = arity then
        match w.register f with
        | (w, .error e) => (w, .error e)
        | (w, .ok ()) => (w.log (.definedRecursive f.signature), .ok f)
      else
        (w.withdraw announced displaced, .error (.undeclaredArity name arity f.arity))

/-- Call a function by name. All data is converted before the name is looked up. -/
def call (w : Workspace) (name : String) (arguments : List Datum) : Run Value := do
  let vs ← Run.ofExcept (Datum.toValues arguments)
  w.library.call w.depth name vs

/-- Call a function by name and give plain data back. -/
def evaluate (w : Workspace) (name : String) (arguments : List Datum) : Run Datum := do
  let v ← w.call name arguments
  return v.toDatum

/-- Enter a function directly, whether it is registered or not. -/
def enter (w : Workspace) (f : Function) (arguments : List Value) : Run Value :=
  w.library.invoke w.depth f arguments

/-- Evaluate a tree with the given parameters. -/
def evalNode (w : Workspace) (root : Node) (parameters : List Value) : Run Value :=
  root.eval w.library (w.library.invoke w.depth) parameters

/-- The text of the tree that code stands for. -/
def describe (w : Workspace) (code : Code) : Except DefinitionError String :=
  (Rule.written w.library w.levels code).map (·.root.text)

end Workspace

end Formulary
