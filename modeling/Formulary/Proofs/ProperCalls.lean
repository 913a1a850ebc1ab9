import Formulary.Evaluation.Nesting
import Formulary.Proofs.Entries
import Formulary.Proofs.Limits
import Formulary.Proofs.Widening

/-! # Calls with the right arguments

Whichever way an evaluation comes to call a function, it has chosen one that takes as many
arguments as there are. A function made from code has as many parameters as its tree
refers to. So two checks are idle, whatever has become of the library since the code was
built: the one for the number of arguments of a call, and the one for the index of a
parameter in a tree made from code.

To say so of all calls at every depth, calls are put under a guard, which goes off in
place of a call that is not as it should be.
-/

namespace Formulary

/-- What a call of a function should be like: there are as many arguments as parameters, and
    if the function was made from code, every parameter that its tree refers to is among
    them. -/
structure Function.Proper (f : Function) (arguments : List Value) : Prop where
  count : arguments.length = f.arity
  references : f.FromCode → ∀ root, f.body = .tree root →
    ∀ i ∈ root.indices, ∃ v, parameterAt arguments i = .ok v

open Classical in
/-- Call a function, with so many levels of calls permitted. The guard is called instead of
    any function whose call is not proper. -/
noncomputable def Library.invokeGuarded (l : Library)
    (guard : Function → List Value → Run Value) : Nat → Function → List Value → Run Value
  | 0, _, _ => Run.tooDeep
  | depth + 1, f, arguments =>
    if f.Proper arguments then
      f.enterBody l (l.invokeGuarded guard depth)
        (fun vs root => root.eval l (l.invokeGuarded guard depth) vs) arguments
    else guard f arguments

/-- Call a function by name, as `Workspace.call` does, under a guard. -/
noncomputable def Workspace.callGuarded (w : Workspace)
    (guard : Function → List Value → Run Value) (name : String) (data : List Datum) :
    Run Value := do
  let vs ← Run.ofExcept (Datum.toValues data)
  let f ← Run.ofExcept (w.library.entry name vs)
  w.library.invokeGuarded guard w.depth f vs

section

variable {l : Library} {invoke invoke' : Function → List Value → Run Value}
  {parameters : List Value}

/-- Two ways of calling functions are the same for the right number of arguments. -/
def Library.CallsAlike (l : Library) (invoke invoke' : Function → List Value → Run Value) :
    Prop :=
  ∀ f ∈ l.functions, ∀ vs : List Value, vs.length = f.arity → invoke f vs = invoke' f vs

theorem Library.CallsAlike.choose (alike : l.CallsAlike invoke invoke') {name : String}
    {fallback : Function} {vs : List Value}
    (found : l.ofArity? name vs.length = some fallback) :
    invoke (l.choose name vs fallback) vs = invoke' (l.choose name vs fallback) vs := by
  obtain ⟨member, arity⟩ := mem_of_ofArity? found
  obtain ⟨chosen, suits⟩ := choose_spec member arity
  exact alike _ (mem_overloads.mp chosen).1 vs suits.symm

theorem HostProgram.run_congr (alike : l.CallsAlike invoke invoke') (program : HostProgram) :
    program.run l invoke = program.run l invoke' := by
  induction program with
  | answer | fail => rfl
  | call name arguments next ih =>
      simp only [run]
      cases found : l.resolve? name (arguments.map Value.type) with
      | none => rfl
      | some f =>
          obtain ⟨member, arity⟩ := Library.mem_of_resolve? found
          simp only [List.length_map] at arity
          simp only [alike f (Library.mem_overloads.mp member).1 arguments arity.symm, ih]

namespace Node

mutual

theorem eval_congr (alike : l.CallsAlike invoke invoke') (n : Node) :
    n.eval l invoke parameters = n.eval l invoke' parameters := by
  cases n with
  | const | param | stray => simp only [eval]
  | cond test yes no =>
      simp only [eval, eval_congr alike test, eval_congr alike yes, eval_congr alike no]
  | apply name arguments =>
      simp only [eval, evalAll_congr alike arguments]
      cases called : l.callee name arguments.length with
      | error e => rfl
      | ok fallback =>
          simp only [Run.ofExcept_ok, pure_bind]
          apply Run.bind_congr_value
          intro vs ended
          have length := (evalAll_length arguments).value vs ended
          rw [← length] at called
          exact alike.choose (Library.callee_eq_ok_iff.mp called)
  | map name list =>
      simp only [eval, eval_congr alike list]
      cases called : l.operand .map name with
      | error e => rfl
      | ok fallback =>
          have each (x : Value) : invoke (l.choose name [x] fallback) [x] =
              invoke' (l.choose name [x] fallback) [x] :=
            alike.choose (Library.operand_eq_ok_iff.mp called)
          simp only [Run.ofExcept_ok, pure_bind, each]
  | reduce name first list =>
      simp only [eval, eval_congr alike first, eval_congr alike list]
      cases called : l.operand .reduce name with
      | error e => rfl
      | ok fallback =>
          have each (a x : Value) : invoke (l.choose name [a, x] fallback) [a, x] =
              invoke' (l.choose name [a, x] fallback) [a, x] :=
            alike.choose (Library.operand_eq_ok_iff.mp called)
          simp only [Run.ofExcept_ok, pure_bind, each]
termination_by sizeOf n

theorem evalAll_congr (alike : l.CallsAlike invoke invoke') (ns : List Node) :
    evalAll l invoke parameters ns = evalAll l invoke' parameters ns := by
  cases ns with
  | nil => rfl
  | cons n ns => simp only [evalAll, eval_congr alike n, evalAll_congr alike ns]
termination_by sizeOf ns

end

end Node

theorem Function.enterBody_congr (alike : l.CallsAlike invoke invoke') (f : Function)
    (arguments : List Value) :
    f.enterBody l invoke (fun vs root => root.eval l invoke vs) arguments =
      f.enterBody l invoke' (fun vs root => root.eval l invoke' vs) arguments := by
  simp only [enterBody, Node.eval_congr alike, HostProgram.run_congr alike]

end

/-- The tree of a function made from code refers to the parameters of the function, which
    are all there if the number of arguments is right. -/
theorem Function.proper_of_count {f : Function} {arguments : List Value}
    (count : arguments.length = f.arity) : f.Proper arguments where
  count := count
  references := by
    intro origin root body i inside
    obtain ⟨w, name, _, rule, built, rfl⟩ := origin.exists_rule
    have closed := Workspace.functionOf_closed [] built w name
    cases body
    have inRange := closed.inRange i inside
    exact exists_parameterAt (count ▸ inRange)

theorem Library.invokeGuarded_eq (l : Library) (guard : Function → List Value → Run Value)
    (depth : Nat) (f : Function) {arguments : List Value} (count : arguments.length = f.arity) :
    l.invokeGuarded guard depth f arguments = l.invoke depth f arguments := by
  induction depth generalizing f arguments with
  | zero => rfl
  | succ depth ih =>
      have alike : l.CallsAlike (l.invokeGuarded guard depth) (l.invoke depth) :=
        fun g _ _ suits => ih g suits
      rw [invokeGuarded, if_pos (Function.proper_of_count count), f.enterBody_congr alike,
        invoke_eq_enterBody]

/-- Whatever the guard may do, nothing is ever heard of it: a call by name, and a call of a
    function with as many arguments as it has parameters, are the same with it and without
    it. So every call that is made on the way, at any depth, has as many arguments as the
    function has parameters, and no tree made from code refers to a parameter that is not
    there. The library may be any, however it has come about. -/
theorem Workspace.call_proper (w : Workspace) (guard : Function → List Value → Run Value) :
    (∀ name data, w.callGuarded guard name data = w.call name data) ∧
      ∀ (f : Function) (arguments : List Value), arguments.length = f.arity →
        w.library.invokeGuarded guard w.depth f arguments = w.enter f arguments := by
  constructor
  · intro name data
    simp only [callGuarded, call, Library.call]
    apply bind_congr
    intro vs
    cases entered : w.library.entry name vs with
    | error e => rfl
    | ok f =>
        exact w.library.invokeGuarded_eq guard w.depth f (Library.entry_spec entered).2.symm
  · intro f arguments count
    exact w.library.invokeGuarded_eq guard w.depth f count

/-- Not a single call on the way to the factorial of one rings the bell. -/
theorem Workspace.call_proper_factorial :
    let w := Workspace.withFactorial
    let bell (f : Function) (vs : List Value) : Run Value := do
      Run.note ⟨f.name, vs, true⟩
      Run.tooDeep
    let one := [Value.integer 1]
    one.length = Function.factorial.arity ∧
      w.callGuarded bell "fac" [.integer 1] = ⟨[], .value (.real 1.0)⟩ ∧
      w.library.invokeGuarded bell w.depth .factorial one = ⟨[], .value (.real 1.0)⟩ := by
  intro w bell one
  obtain ⟨byName, directly⟩ := w.call_proper bell
  have count : one.length = Function.factorial.arity := rfl
  refine ⟨count, ?_, ?_⟩
  · exact (byName "fac" [.integer 1]).trans rfl
  · exact (directly .factorial one count).trans rfl

end Formulary
