import Formulary.Code.Instr
import Formulary.Evaluation.Eval

/-! # Running code on a stack

Code has a meaning of its own, without any tree: a machine carries out its
instructions on a stack of values. Unlike the evaluation of a tree it evaluates
both branches of a condition before it selects one.

The machine gets stuck, which is neither a value nor an error, when an
instruction lacks operands or names a function that cannot be resolved.
-/

namespace Formulary

/-- A run that may get stuck. -/
abbrev MachineRun := OptionT Run

namespace MachineRun

def stuck {α : Type} : MachineRun α :=
  failure

def ofRun {α : Type} (r : Run α) : MachineRun α :=
  OptionT.lift r

def ofExcept {α : Type} (x : Except EvalError α) : MachineRun α :=
  ofRun (Run.ofExcept x)

end MachineRun

variable (l : Library) (invoke : Function → List Value → Run Value) (parameters : List Value)

/-- Carry out one instruction on a stack of values, whose top comes first. -/
def Instr.exec (instr : Instr) (stack : List Value) : MachineRun (List Value) :=
  match instr, stack with
  | .const v, stack => return v :: stack
  | .param index, stack => do
    let v ← MachineRun.ofExcept (parameterAt parameters index)
    return v :: stack
  | .cond, no :: yes :: test :: rest =>
    match test with
    | .boolean true => return yes :: rest
    | .boolean false => return no :: rest
    | v => MachineRun.ofRun (Run.fail (.conditionNotBoolean v))
  | .apply name, stack =>
    match l.default? name with
    | none => MachineRun.stuck
    | some first =>
      if first.arity ≤ stack.length then do
        let vs := (stack.take first.arity).reverse
        let v ← MachineRun.ofRun (invoke (l.choose name vs first) vs)
        return v :: stack.drop first.arity
      else MachineRun.stuck
  | .map name, list :: rest =>
    match l.ofArity? name ListOperator.map.arity with
    | none => MachineRun.stuck
    | some fallback => do
      let xs ← MachineRun.ofExcept (elementsFor .map list)
      let ys ← MachineRun.ofRun (xs.mapM fun x => invoke (l.choose name [x] fallback) [x])
      return .list ys :: rest
  | .reduce name, list :: first :: rest =>
    match l.ofArity? name ListOperator.reduce.arity with
    | none => MachineRun.stuck
    | some fallback => do
      let xs ← MachineRun.ofExcept (elementsFor .reduce list)
      let v ← MachineRun.ofRun
        (xs.foldlM (fun a x => invoke (l.choose name [a, x] fallback) [a, x]) first)
      return v :: rest
  | _, _ => MachineRun.stuck

/-- Carry out code on a stack of values. -/
def Code.exec : Code → List Value → MachineRun (List Value)
  | [], stack => return stack
  | instr :: rest, stack => do
    let stack ← instr.exec l invoke parameters stack
    Code.exec rest stack

end Formulary
