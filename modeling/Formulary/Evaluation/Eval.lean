import Formulary.Evaluation.Run
import Formulary.Library.Resolution

/-! # Evaluation

A tree is evaluated against the parameters of the function it belongs to. Names
are resolved in the library as it is now. A call is checked for a suitable
callee first, then its arguments are evaluated from left to right, and then the
overload is chosen by their types.

Trees and host programs reach functions only through `invoke`, which they are
given; `Library.invoke` ties the knot with a limit on how deeply calls may nest.
-/

namespace Formulary

namespace Library

/-- The overload that a call in a tree falls back on, or why there is none. -/
def callee (l : Library) (name : String) (given : Nat) : Except EvalError Function :=
  match l.overloads name with
  | [] => .error (.unknownFunction name)
  | first :: _ =>
    match l.ofArity? name given with
    | some fallback => .ok fallback
    | none => .error (.unsuitableCall first.signature given)

/-- The overload that a list operation falls back on, or why there is none. -/
def operand (l : Library) (operator : ListOperator) (name : String) :
    Except EvalError Function :=
  match l.ofArity? name operator.arity with
  | some fallback => .ok fallback
  | none => .error (.unknownOperator name operator)

/-- The overload that a call from outside enters, or why there is none: the one that fits
    the arguments best, or else the first with the right number of parameters. -/
def entry (l : Library) (name : String) (arguments : List Value) : Except EvalError Function :=
  if l.contains name then
    match (l.resolve? name (arguments.map Value.type)).or (l.ofArity? name arguments.length) with
    | some f => .ok f
    | none => .error (.noOverload name arguments.length ((l.overloads name).map (·.signature)))
  else .error (.unknownFunction name)

end Library

/-- The parameter at an index, which may be any integer. -/
def parameterAt {α : Type} (parameters : List α) (index : Int) : Except EvalError α :=
  match index with
  | .ofNat i =>
    match parameters[i]? with
    | some v => .ok v
    | none => .error (.parameterOutOfRange index parameters.length)
  | .negSucc _ => .error (.parameterOutOfRange index parameters.length)

/-- The elements of the list that a list operation goes over. -/
def elementsFor (operator : ListOperator) : Value → Except EvalError (List Value)
  | .list elements => .ok elements
  | v => .error (.operandNotList operator v)

namespace Node

variable (l : Library) (invoke : Function → List Value → Run Value) (parameters : List Value)

mutual

/-- Evaluate a tree. Of a condition only the branch that its test selects is
    evaluated. -/
def eval : Node → Run Value
  | .const v => pure v
  | .param index => Run.ofExcept (parameterAt parameters index)
  | .cond test yes no => do
    match ← test.eval with
    | .boolean true => yes.eval
    | .boolean false => no.eval
    | v => Run.fail (.conditionNotBoolean v)
  | .apply name arguments => do
    let fallback ← Run.ofExcept (l.callee name arguments.length)
    let vs ← evalAll arguments
    invoke (l.choose name vs fallback) vs
  | .map name list => do
    let fallback ← Run.ofExcept (l.operand .map name)
    let v ← list.eval
    let xs ← Run.ofExcept (elementsFor .map v)
    let ys ← xs.mapM fun x => invoke (l.choose name [x] fallback) [x]
    return .list ys
  | .reduce name first list => do
    let fallback ← Run.ofExcept (l.operand .reduce name)
    let a ← first.eval
    let v ← list.eval
    let xs ← Run.ofExcept (elementsFor .reduce v)
    xs.foldlM (fun a x => invoke (l.choose name [a, x] fallback) [a, x]) a
  | .stray object => Run.fail (.strayNode object)

/-- Evaluate several trees from left to right. -/
def evalAll : List Node → Run (List Value)
  | [] => pure []
  | n :: ns => do
    let v ← n.eval
    let vs ← evalAll ns
    return v :: vs

end

end Node

/-- Carry out a host program. It calls the overload that fits its arguments, and
    none if there is no such overload. -/
def HostProgram.run (l : Library) (invoke : Function → List Value → Run Value) :
    HostProgram → Run Value
  | .answer v => pure v
  | .fail e => Run.fail e
  | .call name arguments next =>
    match l.resolve? name (arguments.map Value.type) with
    | none => Run.fail (.unknownFunction name)
    | some f => do
      let v ← invoke f arguments
      (next v).run l invoke

namespace Library

/-- Call a function, with so many levels of calls permitted from here on. The
    number of arguments is checked before the body runs. -/
def invoke (l : Library) : Nat → Function → List Value → Run Value
  | 0, _, _ => Run.tooDeep
  | depth + 1, f, arguments =>
    if arguments.length ≠ f.arity then
      Run.fail (.wrongArgumentCount f.signature arguments)
    else
      match f.body with
      | .primitive p => Run.ofExcept (p.apply arguments)
      | .tree root => root.eval l (l.invoke depth) arguments
      | .announced => Run.fail (.unfinished f.name)
      | .host traced program => do
        Run.note ⟨f.name, arguments, traced⟩
        (program arguments).run l (l.invoke depth)

/-- Call a function by name, as a host does. -/
def call (l : Library) (depth : Nat) (name : String) (arguments : List Value) : Run Value := do
  let f ← Run.ofExcept (l.entry name arguments)
  l.invoke depth f arguments

end Library

end Formulary
