import Formulary.Evaluation.Direct
import Formulary.Proofs.Conditions

/-! # Evaluation of objects

On values, direct evaluation is evaluation. On other objects it goes on until one of them is
asked for something that it does not have. So a condition that evaluations keep is kept by
direct evaluation as well, if it admits that the host breaks off there.
-/

namespace Formulary

/-- An object may be asked for whatever values have, as far as a condition goes. -/
def Datum.Keeps (c : Condition) (d : Datum) : Prop :=
  ∀ wanted, (Run.ofExcept (d.asked wanted)).Keeps c

variable {c : Condition}

theorem Datum.keeps_value {v : Value} (holds : c.value v) : (Datum.value v).Keeps c :=
  fun _ => .pure holds

theorem Datum.mapM_keeps (wanted : String) {ds : List Datum} (each : ∀ d ∈ ds, d.Keeps c) :
    (Run.ofExcept (ds.mapM (Datum.asked wanted))).Meets (fun vs => ∀ v ∈ vs, c.value v)
      c.error := by
  induction ds with
  | nil => exact .pure (by simp)
  | cons d ds ih =>
      obtain ⟨here, there⟩ := List.forall_mem_cons.mp each
      rw [List.mapM_cons, Run.ofExcept_bind]
      refine (here wanted).bind fun v first => ?_
      rw [Run.ofExcept_bind]
      refine (ih there).bind fun vs rest => ?_
      exact .pure (List.forall_mem_cons.mpr ⟨first, rest⟩)

section

variable {l : Library} {invoke : Function → List Value → Run Value} {objects : List Datum}

namespace Node

mutual

theorem evalDirect_keeps (enters : l.EntersKeeping c invoke) (given : ∀ d ∈ objects, d.Keeps c)
    {n : Node} (constants : ∀ v ∈ n.constants, c.value v) :
    (n.evalDirect l invoke objects).Meets (Datum.Keeps c) c.error := by
  cases n with
  | const v => exact .pure (Datum.keeps_value (constants v List.mem_cons_self))
  | param index => exact parameterAt_meets given index
  | cond test yes no =>
      simp only [Node.constants, List.forall_mem_append] at constants
      obtain ⟨⟨inTest, inYes⟩, inNo⟩ := constants
      rw [evalDirect]
      refine (evalDirect_keeps enters given inTest).bind fun d asked => ?_
      refine (asked "describe").bind fun v _ => ?_
      split
      · exact evalDirect_keeps enters given inYes
      · exact evalDirect_keeps enters given inNo
      · exact .fail (c.ordinary _ (by simp [EvalError.kind, evaluationErrors]))
  | apply name arguments =>
      rw [evalDirect]
      refine (l.callee_keeps name arguments.length).bind fun fallback member => ?_
      refine (evalAllDirect_keeps enters given constants).bind fun ds each => ?_
      refine (Datum.mapM_keeps "type_tag" each).bind fun vs holds => ?_
      refine (enters.choose member holds).bind fun v holds => ?_
      exact .pure (Datum.keeps_value holds)
  | map name list =>
      rw [evalDirect]
      refine (l.operand_keeps .map name).bind fun fallback member => ?_
      refine (evalDirect_keeps enters given (n := list) constants).bind fun d asked => ?_
      refine (asked "describe").bind fun v holds => ?_
      refine (elementsFor_keeps .map holds).bind fun xs elements => ?_
      have each : ∀ x ∈ xs, (invoke (l.choose name [x] fallback) [x]).Keeps c := by
        intro x inside
        exact enters.choose member (by simpa using elements x inside)
      refine (Run.Meets.mapM each).bind fun ys results => ?_
      exact .pure (Datum.keeps_value ((c.list ys).mpr results.2))
  | reduce name first list =>
      simp only [Node.constants, List.forall_mem_append] at constants
      rw [evalDirect]
      refine (l.operand_keeps .reduce name).bind fun fallback member => ?_
      refine (evalDirect_keeps enters given constants.1).bind fun a start => ?_
      refine (evalDirect_keeps enters given constants.2).bind fun d asked => ?_
      refine (asked "describe").bind fun v holds => ?_
      refine (elementsFor_keeps .reduce holds).bind fun xs elements => ?_
      refine Run.Meets.foldlM start fun b sofar x inside => ?_
      refine (sofar "type_tag").bind fun w before => ?_
      have both : ∀ a ∈ [w, x], c.value a := by simpa using ⟨before, elements x inside⟩
      refine (enters.choose member both).bind fun v next => ?_
      exact .pure (Datum.keeps_value next)
  | stray object => exact .fail (c.ordinary _ (by simp [EvalError.kind, evaluationErrors]))
termination_by sizeOf n

theorem evalAllDirect_keeps (enters : l.EntersKeeping c invoke)
    (given : ∀ d ∈ objects, d.Keeps c) {ns : List Node}
    (constants : ∀ v ∈ constantsAll ns, c.value v) :
    (evalAllDirect l invoke objects ns).Meets (fun ds => ∀ d ∈ ds, d.Keeps c) c.error := by
  cases ns with
  | nil => exact .pure (by simp)
  | cons n ns =>
      simp only [constantsAll, List.forall_mem_append] at constants
      rw [evalAllDirect]
      refine (evalDirect_keeps enters given constants.1).bind fun d here => ?_
      refine (evalAllDirect_keeps enters given constants.2).bind fun ds there => ?_
      exact .pure (List.forall_mem_cons.mpr ⟨here, there⟩)
termination_by sizeOf ns

end

end Node

end

namespace Primitive

variable {p : Primitive} {objects : List Datum}

end Primitive

section

variable {l : Library} {vs : List Value}

theorem Datum.mapM_value (wanted : String) (vs : List Value) :
    (vs.map Datum.value).mapM (Datum.asked wanted) = .ok vs := by
  induction vs with
  | nil => rfl
  | cons v vs ih =>
      rw [List.map_cons, List.mapM_cons, ih]
      rfl

theorem parameterAt_value (index : Int) :
    parameterAt (vs.map Datum.value) index = (parameterAt vs index).map Datum.value := by
  cases index with
  | ofNat i =>
      simp only [parameterAt, List.getElem?_map, List.length_map]
      cases vs[i]? <;> rfl
  | negSucc i => simp only [parameterAt, List.length_map, Except.map]

theorem Run.ofExcept_map {α β : Type} (f : α → β) (x : Except EvalError α) :
    Run.ofExcept (x.map f) = f <$> Run.ofExcept x := by
  cases x <;> rfl

theorem Run.foldlM_value (step : Value → Value → Run Value) (xs : List Value) (a : Value) :
    xs.foldlM (fun d x => do
        let w ← Run.ofExcept d.typed
        let v ← step w x
        return Datum.value v) (Datum.value a) =
      Datum.value <$> xs.foldlM step a := by
  induction xs generalizing a with
  | nil => rfl
  | cons x xs ih =>
      simp only [List.foldlM_cons, map_bind, ← ih, Datum.typed, Datum.asked, Run.ofExcept_ok,
        pure_bind, bind_assoc]

namespace Node

variable {invoke : Function → List Value → Run Value}

mutual

theorem evalDirect_value (n : Node) :
    n.evalDirect l invoke (vs.map .value) = Datum.value <$> n.eval l invoke vs := by
  cases n with
  | const v => rfl
  | param index => rw [evalDirect, eval, parameterAt_value, Run.ofExcept_map]
  | cond test yes no =>
      simp only [evalDirect, eval, evalDirect_value test, evalDirect_value yes,
        evalDirect_value no, map_bind, bind_map_left]
      congr
      funext v
      cases v with
      | boolean b => cases b <;> rfl
      | integer | real | list => rfl
  | apply name arguments =>
      simp only [evalDirect, eval, evalAllDirect_value arguments, map_bind, bind_map_left]
      congr
      funext fallback
      congr
      funext us
      simp only [Datum.typed, Datum.mapM_value, Run.ofExcept_ok, pure_bind, map_eq_pure_bind]
  | map name list =>
      simp only [evalDirect, eval, evalDirect_value list, map_bind, bind_map_left]
      congr
  | reduce name first list =>
      simp only [evalDirect, eval, evalDirect_value first, evalDirect_value list, map_bind,
        bind_map_left]
      congr
      funext fallback
      congr
      funext a
      congr
      funext v
      simp only [Datum.described, Datum.asked, Run.ofExcept_ok, pure_bind, Run.foldlM_value]
  | stray object => rfl
termination_by sizeOf n

theorem evalAllDirect_value (ns : List Node) :
    evalAllDirect l invoke (vs.map .value) ns =
      List.map Datum.value <$> evalAll l invoke vs ns := by
  cases ns with
  | nil => rfl
  | cons n ns =>
      simp only [evalAllDirect, evalAll, evalDirect_value n, evalAllDirect_value ns, map_bind,
        bind_map_left, map_pure, List.map_cons]
termination_by sizeOf ns

end

end Node

end

end Formulary
