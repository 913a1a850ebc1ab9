import Formulary.Evaluation.Eval
import Formulary.Value.Datum

/-! # Objects in place of values

Whoever enters a function directly, or evaluates a tree by hand, has to pass values:
nothing is converted. Any other object is handed on like a value, as far as the result of
the evaluation, until it is asked for something that only values have. There the host
breaks off. Functions that are called on the way get nothing but values, because
resolving their overloads asks for the types of all arguments.
-/

namespace Formulary

/-- The value that an object is, when something is asked of it that values have. -/
def Datum.asked (wanted : String) : Datum → Except EvalError Value
  | .value v => .ok v
  | .boolean _ => .error (.missingAttribute "bool" wanted)
  | .integer _ => .error (.missingAttribute "int" wanted)
  | .real _ => .error (.missingAttribute "float" wanted)
  | .list _ => .error (.missingAttribute "list" wanted)
  | .stray object => .error (.missingAttribute object.kind wanted)

/-- What is not the value that it should be is shown in the message that refuses it. -/
def Datum.described : Datum → Except EvalError Value :=
  Datum.asked "describe"

/-- Overloads are told apart by the types of the arguments. -/
def Datum.typed : Datum → Except EvalError Value :=
  Datum.asked "type_tag"

namespace Node

variable (l : Library) (invoke : Function → List Value → Run Value) (parameters : List Datum)

mutual

/-- Evaluate a tree with objects for parameters. -/
def evalDirect : Node → Run Datum
  | .const v => pure (.value v)
  | .param index => Run.ofExcept (parameterAt parameters index)
  | .cond test yes no => do
    let d ← test.evalDirect
    match ← Run.ofExcept d.described with
    | .boolean true => yes.evalDirect
    | .boolean false => no.evalDirect
    | v => Run.fail (.conditionNotBoolean v)
  | .apply name arguments => do
    let fallback ← Run.ofExcept (l.callee name arguments.length)
    let ds ← evalAllDirect arguments
    let vs ← Run.ofExcept (ds.mapM Datum.typed)
    let v ← invoke (l.choose name vs fallback) vs
    return .value v
  | .map name list => do
    let fallback ← Run.ofExcept (l.operand .map name)
    let d ← list.evalDirect
    let v ← Run.ofExcept d.described
    let xs ← Run.ofExcept (elementsFor .map v)
    let ys ← xs.mapM fun x => invoke (l.choose name [x] fallback) [x]
    return .value (.list ys)
  | .reduce name first list => do
    let fallback ← Run.ofExcept (l.operand .reduce name)
    let a ← first.evalDirect
    let d ← list.evalDirect
    let v ← Run.ofExcept d.described
    let xs ← Run.ofExcept (elementsFor .reduce v)
    xs.foldlM (fun a x => do
      let w ← Run.ofExcept a.typed
      let v ← invoke (l.choose name [w, x] fallback) [w, x]
      return .value v) a
  | .stray object => Run.fail (.strayNode object)

def evalAllDirect : List Node → Run (List Datum)
  | [] => pure []
  | n :: ns => do
    let d ← n.evalDirect
    let ds ← evalAllDirect ns
    return d :: ds

end

end Node

/-- Enter a function with objects for arguments. What a host function makes of objects that
    are no values is for its host to say. -/
def Library.invokeDirect (l : Library) (depth : Nat) (f : Function) (arguments : List Datum)
    (reaction : Run Datum) : Run Datum :=
  match depth with
  | 0 => Run.tooDeep
  | depth + 1 =>
    if arguments.length ≠ f.arity then do
      let vs ← Run.ofExcept (arguments.mapM Datum.described)
      Run.fail (.wrongArgumentCount f.signature vs)
    else
      match f.body with
      | .primitive p => do
        let v ← Run.ofExcept (p.applyBy Datum.described arguments)
        return .value v
      | .tree root => root.evalDirect l (l.invoke depth) arguments
      | .announced => Run.fail (.unfinished f.name)
      | .host .. =>
        match arguments.mapM Datum.described with
        | .ok vs => do
          let v ← l.invoke (depth + 1) f vs
          return .value v
        | .error _ => reaction

end Formulary
