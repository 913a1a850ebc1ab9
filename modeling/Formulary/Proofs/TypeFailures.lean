import Formulary.Proofs.Calls
import Formulary.Proofs.Guards
import Formulary.Proofs.Resolution
import Mathlib.Data.List.Basic

/-! # Failing for the type of a value only

A library is closed when each of its functions is a guarded operation or has a tree
whose calls the library answers and whose parameters the signature has. In a closed
library names always resolve, a function is entered with as many arguments as it
has parameters, and what remains to go wrong is the type of some value. There may be
exceptions: functions that are only announced, under certain names, and integers that are
too large for a real.
-/

namespace Formulary

/-- The calls of a tree are answered, and its parameters are among the first so
    many. -/
structure Node.Closed (l : Library) (arity : Nat) (n : Node) : Prop where
  answered : n.Formed (Call.Answered l)
  inRange : ∀ i ∈ n.indices, 0 ≤ i ∧ i < arity

/-- The functions under the pending names may be no more than announced. -/
def Body.Closed (pending : List String) (l : Library) (s : Signature) : Body → Prop
  | .primitive p => s = p.signature ∧ p.operation.Settles
  | .tree root => root.Closed l s.arity
  | .announced => s.name ∈ pending
  | .host .. => False

def Function.Closed (pending : List String) (l : Library) (f : Function) : Prop :=
  f.body.Closed pending l f.signature

def Library.Closed (pending : List String) (l : Library) : Prop :=
  ∀ f ∈ l.functions, f.Closed pending l

/-- What may go wrong in a closed library. -/
inductive Tolerated (pending : List String) : EvalError → Prop
  | type {e} (kind : e.kind = .invalidType) : Tolerated pending e
  | unfinished {name} (waiting : name ∈ pending) : Tolerated pending (.unfinished name)
  | fault (cause : Fault) : Tolerated pending (.fault cause)

/-- A run that fails, if at all, for the type of some value, or else for a tolerated reason. -/
abbrev Run.FailsByType (pending : List String) {α : Type} (r : Run α)
    (good : α → Prop := fun _ => True) : Prop :=
  r.Meets good (Tolerated pending)

variable {pending : List String}

theorem exists_parameterAt {parameters : List Value} {i : Int}
    (inRange : 0 ≤ i ∧ i < parameters.length) : ∃ v, parameterAt parameters i = .ok v := by
  obtain ⟨k, rfl⟩ := Int.eq_ofNat_of_zero_le inRange.1
  have below : k < parameters.length := Int.ofNat_lt.mp inRange.2
  have there : parameters[k]? = some parameters[k] := List.getElem?_eq_getElem below
  exact ⟨parameters[k], by simp only [parameterAt, there]⟩

theorem parameterAt_failsByType {parameters : List Value} {i : Int}
    (inRange : 0 ≤ i ∧ i < parameters.length) :
    (Run.ofExcept (parameterAt parameters i)).FailsByType pending := by
  obtain ⟨v, found⟩ := exists_parameterAt inRange
  rw [found]
  exact .pure trivial

theorem elementsFor_failsByType (operator : ListOperator) (v : Value) :
    (Run.ofExcept (elementsFor operator v)).FailsByType pending := by
  cases v with
  | list => exact .pure trivial
  | real | boolean | integer => exact .fail (.type rfl)

section

variable {l : Library} {invoke : Function → List Value → Run Value} {parameters : List Value}

/-- The functions of a library fail by type only when they are entered with the
    right number of arguments. -/
def Library.EntersSafely (pending : List String) (l : Library)
    (invoke : Function → List Value → Run Value) : Prop :=
  ∀ f ∈ l.functions, ∀ arguments : List Value, arguments.length = f.arity →
    (invoke f arguments).FailsByType pending

theorem Library.EntersSafely.choose (enters : l.EntersSafely pending invoke) {name : String}
    {arguments : List Value} {fallback : Function} (member : fallback ∈ l.overloads name)
    (arity : fallback.arity = arguments.length) :
    (invoke (l.choose name arguments fallback) arguments).FailsByType pending := by
  have ⟨chosen, suits⟩ := choose_spec member arity
  exact enters _ (mem_overloads.mp chosen).1 arguments suits.symm

namespace Node

mutual

theorem eval_failsByType (enters : l.EntersSafely pending invoke) {n : Node}
    (answered : n.Formed (Call.Answered l))
    (inRange : ∀ i ∈ n.indices, 0 ≤ i ∧ i < parameters.length) :
    (n.eval l invoke parameters).FailsByType pending := by
  cases n with
  | const v => exact .pure trivial
  | param index => exact parameterAt_failsByType (inRange index List.mem_cons_self)
  | cond test yes no =>
      simp only [indices, List.forall_mem_append] at inRange
      obtain ⟨⟨inTest, inYes⟩, inNo⟩ := inRange
      rw [eval]
      refine (eval_failsByType enters answered.1 inTest).bind fun v _ => ?_
      split
      · exact eval_failsByType enters answered.2.1 inYes
      · exact eval_failsByType enters answered.2.2 inNo
      · exact .fail (.type rfl)
  | apply name arguments =>
      have ⟨f, found⟩ : ∃ f, l.ofArity? name arguments.length = some f :=
        Library.exists_ofArity?_iff.mpr answered.1
      have ⟨member, arity⟩ := Library.mem_of_ofArity? found
      rw [eval, Library.callee_eq_ok_iff.mpr found, Run.ofExcept_ok, pure_bind]
      refine (evalAll_failsByType enters answered.2 inRange).bind fun vs length => ?_
      exact enters.choose member (arity.trans length.symm)
  | map name list =>
      have ⟨f, found⟩ : ∃ f, l.ofArity? name ListOperator.map.arity = some f :=
        Library.exists_ofArity?_iff.mpr answered.1
      have ⟨member, arity⟩ := Library.mem_of_ofArity? found
      rw [eval, Library.operand_eq_ok_iff.mpr found, Run.ofExcept_ok, pure_bind]
      refine (eval_failsByType enters answered.2 inRange).bind fun v _ => ?_
      refine (elementsFor_failsByType .map v).bind fun xs _ => ?_
      have each : ∀ x ∈ xs, (invoke (l.choose name [x] f) [x]).FailsByType pending :=
        fun _ _ => enters.choose member arity
      exact (Run.Meets.mapM each).bind fun _ _ => .pure trivial
  | reduce name first list =>
      simp only [indices, List.forall_mem_append] at inRange
      have ⟨f, found⟩ : ∃ f, l.ofArity? name ListOperator.reduce.arity = some f :=
        Library.exists_ofArity?_iff.mpr answered.1
      have ⟨member, arity⟩ := Library.mem_of_ofArity? found
      rw [eval, Library.operand_eq_ok_iff.mpr found, Run.ofExcept_ok, pure_bind]
      refine (eval_failsByType enters answered.2.1 inRange.1).bind fun a _ => ?_
      refine (eval_failsByType enters answered.2.2 inRange.2).bind fun v _ => ?_
      refine (elementsFor_failsByType .reduce v).bind fun xs _ => ?_
      exact .foldlM trivial fun _ _ _ _ => enters.choose member arity
  | stray object => exact answered.elim
termination_by sizeOf n

theorem evalAll_failsByType (enters : l.EntersSafely pending invoke) {ns : List Node}
    (answered : FormedAll (Call.Answered l) ns)
    (inRange : ∀ i ∈ indicesAll ns, 0 ≤ i ∧ i < parameters.length) :
    (evalAll l invoke parameters ns).FailsByType pending fun vs => vs.length = ns.length := by
  cases ns with
  | nil => exact .pure rfl
  | cons n ns =>
      simp only [indicesAll, List.forall_mem_append] at inRange
      rw [evalAll]
      refine (eval_failsByType enters answered.1 inRange.1).bind fun v _ => ?_
      refine (evalAll_failsByType enters answered.2 inRange.2).bind fun vs length => ?_
      exact .pure (by rw [List.length_cons, List.length_cons, length])
termination_by sizeOf ns

end

end Node

end

end Formulary
