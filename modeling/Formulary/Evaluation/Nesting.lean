import Formulary.Evaluation.Eval

/-! # Limits on nesting

`Library.invoke` limits how deeply calls may nest, and takes no account of the trees in
between. Here every node that is being evaluated takes up a level, just as every call
does. One step of an evaluation is the same for both; they differ in what is left of the
limit below.
-/

namespace Formulary

/-- Evaluate the top of a tree, given how to evaluate the trees under it. -/
def Node.evalTop (l : Library) (invoke : Function → List Value → Run Value)
    (evaluate : Node → Run Value) (parameters : List Value) : Node → Run Value
  | .const v => pure v
  | .param index => Run.ofExcept (parameterAt parameters index)
  | .cond test yes no => do
    match ← evaluate test with
    | .boolean true => evaluate yes
    | .boolean false => evaluate no
    | v => Run.fail (.conditionNotBoolean v)
  | .apply name arguments => do
    let fallback ← Run.ofExcept (l.callee name arguments.length)
    let vs ← arguments.mapM evaluate
    invoke (l.choose name vs fallback) vs
  | .map name list => do
    let fallback ← Run.ofExcept (l.operand .map name)
    let v ← evaluate list
    let xs ← Run.ofExcept (elementsFor .map v)
    let ys ← xs.mapM fun x => invoke (l.choose name [x] fallback) [x]
    return .list ys
  | .reduce name first list => do
    let fallback ← Run.ofExcept (l.operand .reduce name)
    let a ← evaluate first
    let v ← evaluate list
    let xs ← Run.ofExcept (elementsFor .reduce v)
    xs.foldlM (fun a x => invoke (l.choose name [a, x] fallback) [a, x]) a
  | .stray object => Run.fail (.strayNode object)

/-- Enter a function, given how to evaluate its tree and how to call other functions. -/
def Function.enterBody (f : Function) (l : Library) (invoke : Function → List Value → Run Value)
    (evaluate : List Value → Node → Run Value) (arguments : List Value) : Run Value :=
  if arguments.length ≠ f.arity then
    Run.fail (.wrongArgumentCount f.signature arguments)
  else
    match f.body with
    | .primitive p => Run.ofExcept (p.apply arguments)
    | .tree root => evaluate arguments root
    | .announced => Run.fail (.unfinished f.name)
    | .host traced program => do
      Run.note ⟨f.name, arguments, traced⟩
      (program arguments).run l invoke

mutual

/-- Evaluate a tree, with so many levels of nodes and calls permitted. -/
def Node.evalWithin (l : Library) : Nat → List Value → Node → Run Value
  | 0, _, _ => Run.tooDeep
  | limit + 1, parameters, n =>
    n.evalTop l (Library.invokeWithin l limit) (Node.evalWithin l limit parameters) parameters

/-- Call a function, with so many levels of nodes and calls permitted. -/
def Library.invokeWithin (l : Library) : Nat → Function → List Value → Run Value
  | 0, _, _ => Run.tooDeep
  | limit + 1, f, arguments =>
    f.enterBody l (Library.invokeWithin l limit) (Node.evalWithin l limit) arguments

end

end Formulary
