import Formulary.Proofs.Conditions
import Formulary.Proofs.Dispatch

/-! # Real-valued expressions over the predefined functions

A host may overload predefined functions, but it cannot displace them. As long as
no integer turns up, a predefined function is called with the very types that it
declares, and then no other overload is closer. What an expression comes to with the
predefined functions alone it therefore comes to in any library that has grown from
them.
-/

namespace Formulary

namespace Value

theorem integersAll_eq_nil_iff {vs : List Value} :
    integersAll vs = [] ↔ ∀ v ∈ vs, v.integers = [] := by
  induction vs with
  | nil => simp [integersAll]
  | cons v vs ih => rw [integersAll, List.append_eq_nil_iff, ih, List.forall_mem_cons]

/-- Whether a value is made of truth values and reals only. -/
def IntegerFree (v : Value) : Prop :=
  v.integers = []

end Value

theorem realArgument_of_integerFree {function : String} {a : Value} (free : a.IntegerFree) :
    (Run.ofExcept (realArgument function a)).Meets (fun x => a = .real x) fun _ => True := by
  cases a with
  | real x => exact .pure rfl
  | integer n => cases free
  | boolean | list => exact .fail trivial

theorem integerArgument_of_integerFree {function : String} {a : Value} (free : a.IntegerFree) :
    (Run.ofExcept (integerArgument function a)).Meets (fun _ => False) fun _ => True := by
  cases a with
  | integer n => cases free
  | real | boolean | list => exact .fail trivial

namespace Primitive

theorem Computed.integerFree {v : Value} (computed : Computed v) : v.IntegerFree := by
  cases computed <;> rfl

theorem types_of_apply (p : Primitive) {arguments : List Value}
    (count : arguments.length = p.signature.arity) (free : ∀ a ∈ arguments, a.IntegerFree) :
    (Run.ofExcept (p.apply arguments)).Meets
      (fun _ => arguments.map Value.type = p.signature.types) fun _ => True := by
  obtain ⟨name, operation⟩ := p
  cases operation with
  | constant x =>
      obtain rfl := List.length_eq_zero_iff.mp count
      exact .of_forall (fun _ => rfl) (fun _ => trivial) _
  | unary value f =>
      obtain ⟨a, rfl⟩ := List.length_eq_one_iff.mp count
      simp only [apply, applyBy, pure_bind, Run.ofExcept_bind]
      refine (realArgument_of_integerFree (free a (by simp))).bind ?_
      rintro x rfl
      exact .of_forall (fun _ => rfl) (fun _ => trivial) _
  | binary lhs rhs f =>
      obtain ⟨a, b, rfl⟩ := List.length_eq_two.mp count
      simp only [apply, applyBy, pure_bind, Run.ofExcept_bind]
      refine (realArgument_of_integerFree (free a (by simp))).bind ?_
      rintro x rfl
      refine (realArgument_of_integerFree (free b (by simp))).bind ?_
      rintro y rfl
      exact .of_forall (fun _ => rfl) (fun _ => trivial) _
  | indexed value index f =>
      obtain ⟨a, b, rfl⟩ := List.length_eq_two.mp count
      simp only [apply, applyBy, pure_bind, Run.ofExcept_bind]
      refine (realArgument_of_integerFree (free a (by simp))).bind fun x _ => ?_
      exact (integerArgument_of_integerFree (free b (by simp))).bind fun n never => never.elim
  | comparison lhs rhs f =>
      obtain ⟨a, b, rfl⟩ := List.length_eq_two.mp count
      simp only [apply, applyBy, pure_bind, Run.ofExcept_bind]
      refine (realArgument_of_integerFree (free a (by simp))).bind ?_
      rintro x rfl
      refine (realArgument_of_integerFree (free b (by simp))).bind ?_
      rintro y rfl
      exact .pure rfl

end Primitive

theorem elementsFor_integerFree {operator : ListOperator} {v : Value} {elements : List Value}
    (free : v.IntegerFree) (found : elementsFor operator v = .ok elements) :
    ∀ x ∈ elements, x.IntegerFree := by
  cases v with
  | list xs =>
      cases found
      exact Value.integersAll_eq_nil_iff.mp free
  | boolean | integer | real => cases found

section

variable {l : Library} {depth : Nat} {parameters : List Value}

/-- A call among the predefined functions alone goes the same way in a library that has
    kept them all: whatever else is there is further away. -/
theorem Library.carries_choose (distinct : l.Distinct)
    (kept : ∀ f ∈ Primitive.functions, f ∈ l.functions) {name : String} {f : Function}
    {vs : List Value} (member : f ∈ predefined.overloads name) (arity : f.arity = vs.length)
    (free : ∀ v ∈ vs, v.IntegerFree) (other : Function) :
    (predefined.invoke depth (predefined.choose name vs f) vs).Carries Value.IntegerFree
      (l.invoke depth (l.choose name vs other) vs) := by
  have ⟨chosen, suits⟩ := choose_spec member arity
  generalize predefined.choose name vs f = g at chosen suits ⊢
  have ⟨there, named⟩ := mem_overloads.mp chosen
  obtain ⟨⟨p, serial⟩, _, made⟩ := List.mem_map.mp there
  intro v ended
  cases depth with
  | zero => cases ended
  | succ depth =>
      have run (m : Library) :
          m.invoke (depth + 1) g vs = Run.ofExcept (p.apply vs) := by
        rw [invoke, if_neg (not_not_intro suits.symm), ← made]
      have signature : g.signature = p.signature := by rw [← made]
      rw [run] at ended
      have count : vs.length = p.signature.arity := by
        rw [← signature]
        exact suits.symm
      have types := (p.types_of_apply count free).value v ended
      have result := ((Primitive.apply_meets count).value v ended).integerFree
      have best : l.choose name vs other = g := by
        rw [choose, types, ← signature,
          resolve?_types distinct (mem_overloads.mpr ⟨kept g there, named⟩), Option.getD_some]
      rw [best, run]
      exact ⟨ended, result⟩

theorem Library.carries_found (kept : ∀ f ∈ Primitive.functions, f ∈ l.functions)
    {name : String} {arity : Nat} {x y : Except EvalError Function}
    (here : ∀ f, x = .ok f ↔ predefined.ofArity? name arity = some f)
    (there : ∀ g, y = .ok g ↔ l.ofArity? name arity = some g) {α : Type} {good : α → Prop}
    {next next' : Function → Run α}
    (rest : ∀ f g, f ∈ predefined.overloads name → f.arity = arity →
      (next f).Carries good (next' g)) :
    (Run.ofExcept x >>= next).Carries good (Run.ofExcept y >>= next') := by
  cases found : x with
  | error e => exact .fail
  | ok f =>
      have ⟨member, suits⟩ := mem_of_ofArity? ((here f).mp found)
      have ⟨inside, named⟩ := mem_overloads.mp member
      obtain ⟨g, answered⟩ := exists_ofArity?_iff.mpr
        ⟨f, mem_overloads.mpr ⟨kept f inside, named⟩, suits⟩
      rw [(there g).mpr answered]
      exact rest f g member suits

namespace Node

mutual

theorem carries_eval (distinct : l.Distinct)
    (kept : ∀ f ∈ Primitive.functions, f ∈ l.functions)
    (given : ∀ v ∈ parameters, v.IntegerFree) {n : Node}
    (constants : ∀ v ∈ n.constants, v.IntegerFree) :
    (n.eval .predefined (Library.predefined.invoke depth) parameters).Carries Value.IntegerFree
      (n.eval l (l.invoke depth) parameters) := by
  cases n with
  | const v => exact .pure (constants v List.mem_cons_self)
  | param index => exact .ofExcept fun v found => given v (parameterAt_mem found)
  | cond test yes no =>
      simp only [Node.constants, List.forall_mem_append] at constants
      obtain ⟨⟨inTest, inYes⟩, inNo⟩ := constants
      rw [eval, eval]
      refine (carries_eval distinct kept given inTest).bind fun v _ => ?_
      split
      · exact carries_eval distinct kept given inYes
      · exact carries_eval distinct kept given inNo
      · exact .fail
  | apply name arguments =>
      rw [eval, eval]
      refine Library.carries_found kept (fun _ => Library.callee_eq_ok_iff)
        (fun _ => Library.callee_eq_ok_iff) fun f g member arity => ?_
      refine (carries_evalAll distinct kept given constants).bind fun vs ⟨length, free⟩ => ?_
      exact Library.carries_choose distinct kept member (arity.trans length.symm) free g
  | map name list =>
      rw [eval, eval]
      refine Library.carries_found kept (fun _ => Library.operand_eq_ok_iff)
        (fun _ => Library.operand_eq_ok_iff) fun f g member arity => ?_
      refine (carries_eval distinct kept given (n := list) constants).bind fun v free => ?_
      refine (Run.Carries.ofExcept fun xs => elementsFor_integerFree free).bind fun xs each => ?_
      refine (Run.Carries.mapM fun x inside => ?_).bind fun ys results =>
        .pure (Value.integersAll_eq_nil_iff.mpr results)
      have one : f.arity = [x].length := arity
      exact Library.carries_choose distinct kept member one (by simpa using each x inside) g
  | reduce name first list =>
      simp only [Node.constants, List.forall_mem_append] at constants
      rw [eval, eval]
      refine Library.carries_found kept (fun _ => Library.operand_eq_ok_iff)
        (fun _ => Library.operand_eq_ok_iff) fun f g member arity => ?_
      refine (carries_eval distinct kept given constants.1).bind fun a start => ?_
      refine (carries_eval distinct kept given constants.2).bind fun v free => ?_
      refine (Run.Carries.ofExcept fun xs => elementsFor_integerFree free).bind fun xs each => ?_
      refine Run.Carries.foldlM start fun b next x inside => ?_
      have two : f.arity = [b, x].length := arity
      exact Library.carries_choose distinct kept member two
        (by simpa using ⟨next, each x inside⟩) g
  | stray object => exact .fail
termination_by sizeOf n

theorem carries_evalAll (distinct : l.Distinct)
    (kept : ∀ f ∈ Primitive.functions, f ∈ l.functions)
    (given : ∀ v ∈ parameters, v.IntegerFree) {ns : List Node}
    (constants : ∀ v ∈ constantsAll ns, v.IntegerFree) :
    (evalAll .predefined (Library.predefined.invoke depth) parameters ns).Carries
      (fun vs => vs.length = ns.length ∧ ∀ v ∈ vs, v.IntegerFree)
      (evalAll l (l.invoke depth) parameters ns) := by
  cases ns with
  | nil => exact .pure ⟨rfl, fun _ member => nomatch member⟩
  | cons n ns =>
      simp only [constantsAll, List.forall_mem_append] at constants
      rw [evalAll, evalAll]
      refine (carries_eval distinct kept given constants.1).bind fun v here => ?_
      refine (carries_evalAll distinct kept given constants.2).bind fun vs ⟨length, there⟩ => ?_
      exact .pure ⟨by rw [List.length_cons, List.length_cons, length],
        List.forall_mem_cons.mpr ⟨here, there⟩⟩
termination_by sizeOf ns

end

end Node

end

/-- A tree without integers among its constants, with parameters without integers, has in
    every library that has grown from the predefined functions the value that it has with
    the predefined functions alone, if it has one there. -/
theorem Reachable.eval_of_predefined {w : Workspace} {held : List Function}
    (reached : Reachable true w held) {root : Node} {parameters : List Value} {depth : Nat}
    {v : Value} (constants : ∀ c ∈ root.constants, c.integers = [])
    (given : ∀ p ∈ parameters, p.integers = [])
    (ended : (root.eval .predefined (Library.predefined.invoke depth) parameters).outcome =
      .value v) :
    (root.eval w.library (w.library.invoke depth) parameters).outcome = .value v := by
  have kept : ∀ f ∈ Primitive.functions, f ∈ w.library.functions := by
    intro f member
    obtain ⟨⟨p, serial⟩, _, made⟩ := List.mem_map.mp member
    exact reached.permanent member (made ▸ rfl)
  exact (Node.carries_eval reached.distinct kept given constants v ended).1

/-- A sum of integers as a host might supply it. -/
def Function.hostSum : Function where
  signature := ⟨"+", [⟨"lhs", .integer⟩, ⟨"rhs", .integer⟩], .list⟩
  body := .host false HostProgram.collect
  predefined := false
  serial := 19

def Workspace.withHostSum : Workspace :=
  let made := (Workspace.initial true "x").create Function.hostSum.signature
    Function.hostSum.body false
  (made.1.register made.2).1

/-- The root of a sum of reals, next to a sum of integers that a host has supplied. -/
theorem Reachable.eval_of_predefined_sum :
    let root : Node := .apply "sqrt" [.apply "+" [.param 0, .const (.real 2.0)]]
    let v := Value.real (Float.sqrt (7.0 + 2.0))
    Reachable true .withHostSum (Primitive.functions ++ [.hostSum]) ∧
      (∀ c ∈ root.constants, c.integers = []) ∧
      (∀ p ∈ [Value.real 7.0], p.integers = []) ∧
      (root.eval .predefined (Library.predefined.invoke 1) [.real 7.0]).outcome = .value v ∧
      (root.eval Workspace.withHostSum.library (Workspace.withHostSum.library.invoke 1)
        [.real 7.0]).outcome = .value v := by
  intro root v
  have reached : Reachable true .withHostSum (Primitive.functions ++ [.hostSum]) :=
    ((Reachable.start "x").create _ _ _).register (List.mem_append_right _ List.mem_cons_self)
  have constants : ∀ c ∈ root.constants, c.integers = [] := by
    intro c member
    obtain rfl := List.mem_singleton.mp member
    rfl
  have given : ∀ p ∈ [Value.real 7.0], p.integers = [] := by
    intro p member
    obtain rfl := List.mem_singleton.mp member
    rfl
  have ended :
      (root.eval .predefined (Library.predefined.invoke 1) [.real 7.0]).outcome = .value v := rfl
  exact ⟨reached, constants, given, ended, reached.eval_of_predefined constants given ended⟩

end Formulary
