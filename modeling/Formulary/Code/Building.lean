import Formulary.Code.Node
import Formulary.Code.Parameters
import Formulary.Library.Resolution

/-! # Building trees

Code is read from left to right over a stack of finished trees. The library is
asked only how many operands an instruction takes; what a name means is decided
again at every evaluation.
-/

namespace Formulary

/-- Carry out one instruction on a stack of trees, whose top comes first. A name
    that cannot be resolved is reported before missing operands are. -/
def Instr.build (l : Library) (position : Nat) (instr : Instr) (stack : List Node) :
    Except DefinitionError (List Node) :=
  let missing (needed : Nat) :=
    .error (.missingOperands position instr needed stack.length)
  match instr with
  | .const v => .ok (.const v :: stack)
  | .param index => .ok (.param index :: stack)
  | .cond =>
    match stack with
    | no :: yes :: test :: rest => .ok (.cond test yes no :: rest)
    | _ => missing 3
  | .apply name =>
    match l.default? name with
    | none => .error (.undefinedCallee position instr name)
    | some f =>
      if f.arity ≤ stack.length then
        .ok (.apply name (stack.take f.arity).reverse :: stack.drop f.arity)
      else missing f.arity
  | .map name =>
    match l.ofArity? name ListOperator.map.arity, stack with
    | none, _ => .error (.undefinedOperand position instr name .map)
    | some _, list :: rest => .ok (.map name list :: rest)
    | some _, _ => missing 1
  | .reduce name =>
    match l.ofArity? name ListOperator.reduce.arity, stack with
    | none, _ => .error (.undefinedOperand position instr name .reduce)
    | some _, list :: first :: rest => .ok (.reduce name first list :: rest)
    | some _, _ => missing 2
  | .stray object => .error (.strayInstruction position object)

namespace Code

/-- Carry out code whose first instruction has the given position. -/
def build (l : Library) : Nat → Code → List Node → Except DefinitionError (List Node)
  | _, [], stack => .ok stack
  | position, instr :: rest, stack => do
    let stack ← instr.build l position stack
    build l (position + 1) rest stack

end Code

/-- A tree together with the number of its parameters. -/
structure Rule where
  root : Node
  arity : Nat

/-- The rule that code stands for. The code has to use up all its operands but
    one, and to refer to parameters without gaps. -/
def Rule.ofCode (l : Library) (code : Code) : Except DefinitionError Rule := do
  match ← Code.build l 0 code [] with
  | [root] => return ⟨root, ← code.arity⟩
  | stack => .error (.unbalanced stack.length)

/-- The rule that code stands for, where the text of its tree can be written: a tree of too
    many levels breaks the host off. -/
def Rule.written (l : Library) (levels : Nat) (code : Code) : Except DefinitionError Rule := do
  let rule ← Rule.ofCode l code
  if rule.root.nestsWithin levels then return rule else .error .tooDeep

theorem Rule.written_eq_ok_iff {l : Library} {levels : Nat} {code : Code} {rule : Rule} :
    Rule.written l levels code = .ok rule ↔
      Rule.ofCode l code = .ok rule ∧ rule.root.nestsWithin levels = true := by
  rw [written]
  cases ofCode l code with
  | error e => simp [bind, Except.bind]
  | ok other =>
      cases fits : other.root.nestsWithin levels with
      | false =>
          simp only [bind, Except.bind, fits, Except.ok.injEq]
          refine iff_of_false (by simp) fun ⟨same, within⟩ => ?_
          rw [← same, fits] at within
          cases within
      | true =>
          simp only [bind, Except.bind, pure, Except.pure, fits, if_true, Except.ok.injEq]
          exact ⟨fun same => ⟨same, same ▸ fits⟩, And.left⟩

/-- The tree that code stands for. -/
def Node.ofCode (l : Library) (code : Code) : Except DefinitionError Node :=
  (Rule.ofCode l code).map Rule.root

end Formulary
