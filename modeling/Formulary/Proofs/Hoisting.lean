import Formulary.Proofs.Limits
import Formulary.Proofs.ListOperations

/-! # Hoisting conditions

A node with operands evaluates the first of them before anything else that can be noticed:
looking up the function comes earlier, but has no effect as long as there is one. So when the
first operand is a condition, its test may as well be evaluated above the node, and the node
stand in both branches. Only one of them is evaluated, and the test once, in either form.
-/

namespace Formulary

namespace Node

/-- Two trees mean the same in a library when their evaluations make the same calls of the host
    and end with the same value or the same error. A limit on the nesting of nodes and calls
    may cut only one of them short. -/
structure SameMeaning (l : Library) (n m : Node) : Prop where
  eval : ∀ (depth : Nat) (parameters : List Value),
    n.eval l (l.invoke depth) parameters = m.eval l (l.invoke depth) parameters
  evalWithin : ∀ (limit limit' : Nat) (parameters : List Value),
    (Node.evalWithin l limit parameters n).outcome ≠ .tooDeep →
    (Node.evalWithin l limit' parameters m).outcome ≠ .tooDeep →
    Node.evalWithin l limit parameters n = Node.evalWithin l limit' parameters m

theorem SameMeaning.of_eval {l : Library} {n m : Node}
    (same : ∀ (invoke : Function → List Value → Run Value) (parameters : List Value),
      n.eval l invoke parameters = m.eval l invoke parameters) : SameMeaning l n m where
  eval depth parameters := same (l.invoke depth) parameters
  evalWithin := by
    intro limit limit' parameters ended ended'
    have first := (Library.within_invoke (l := l) (Nat.le_max_left limit limit')).2 parameters n
    have second := (Library.within_invoke (l := l) (Nat.le_max_right limit limit')).2 parameters m
    rw [same] at first
    exact first.eq_of_ended second ended ended'

theorem eval_cond_bind {l : Library} (invoke : Function → List Value → Run Value)
    (parameters : List Value) {test yes no yes' no' : Node} {next : Value → Run Value}
    (yesNext : yes'.eval l invoke parameters = yes.eval l invoke parameters >>= next)
    (noNext : no'.eval l invoke parameters = no.eval l invoke parameters >>= next) :
    (cond test yes' no').eval l invoke parameters =
      (cond test yes no).eval l invoke parameters >>= next := by
  rw [eval, eval, bind_assoc]
  refine bind_congr fun v => ?_
  cases v with
  | boolean b =>
      cases b with
      | true => exact yesNext
      | false => exact noNext
  | integer | real | list => rfl

end Node

/-- A node without the operand that it evaluates first. -/
inductive Frame where
  | apply (name : String) (others : List Node)
  | map (name : String)
  | reduce (name : String) (list : Node)
  | cond (yes no : Node)

namespace Frame

/-- The node with a given first operand. -/
def fill : Frame → Node → Node
  | .apply name others, n => .apply name (n :: others)
  | .map name, n => .map name n
  | .reduce name list, n => .reduce name n list
  | .cond yes no, n => .cond n yes no

/-- Whether the library has a function for the node, so that it comes to evaluate its
    operands. -/
def Ready (l : Library) : Frame → Prop
  | .apply name others => ∃ f ∈ l.overloads name, f.arity = others.length + 1
  | .map name => ∃ f ∈ l.overloads name, f.arity = 1
  | .reduce name _ => ∃ f ∈ l.overloads name, f.arity = 2
  | .cond _ _ => True

variable {l : Library}

/-- Evaluating a node is evaluating its first operand and going on with the value, in a way
    that does not depend on the operand. -/
theorem exists_resume (frame : Frame) (ready : frame.Ready l)
    (invoke : Function → List Value → Run Value) (parameters : List Value) :
    ∃ resume : Value → Run Value, ∀ n : Node,
      (frame.fill n).eval l invoke parameters = n.eval l invoke parameters >>= resume := by
  cases frame with
  | apply name others =>
      obtain ⟨f, found⟩ := Library.exists_ofArity?_iff.mpr ready
      have callee : l.callee name (others.length + 1) = .ok f := Library.callee_eq_ok_iff.mpr found
      refine ⟨fun v => do
        let vs ← Node.evalAll l invoke parameters others
        invoke (l.choose name (v :: vs) f) (v :: vs), fun n => ?_⟩
      simp only [fill, Node.eval, Node.evalAll, List.length_cons, callee, Run.ofExcept_ok,
        pure_bind, bind_assoc]
  | map name =>
      obtain ⟨f, found⟩ := Library.exists_ofArity?_iff.mpr ready
      have operand : l.operand .map name = .ok f := Library.operand_eq_ok_iff.mpr found
      refine ⟨fun v => do
        let xs ← Run.ofExcept (elementsFor .map v)
        let ys ← xs.mapM fun x => invoke (l.choose name [x] f) [x]
        return .list ys, fun n => ?_⟩
      simp only [fill, Node.eval, operand, Run.ofExcept_ok, pure_bind]
  | reduce name list =>
      obtain ⟨f, found⟩ := Library.exists_ofArity?_iff.mpr ready
      have operand : l.operand .reduce name = .ok f := Library.operand_eq_ok_iff.mpr found
      refine ⟨fun a => do
        let v ← list.eval l invoke parameters
        let xs ← Run.ofExcept (elementsFor .reduce v)
        xs.foldlM (fun a x => invoke (l.choose name [a, x] f) [a, x]) a, fun n => ?_⟩
      simp only [fill, Node.eval, operand, Run.ofExcept_ok, pure_bind]
  | cond yes no => exact ⟨_, fun n => by rw [fill, Node.eval]⟩

/-- A condition in the place of the first operand may be hoisted over the node. -/
theorem hoist (frame : Frame) (ready : frame.Ready l) (test yes no : Node) :
    Node.SameMeaning l (frame.fill (.cond test yes no))
      (.cond test (frame.fill yes) (frame.fill no)) := by
  apply Node.SameMeaning.of_eval
  intro invoke parameters
  obtain ⟨resume, resumes⟩ := frame.exists_resume ready invoke parameters
  rw [resumes]
  exact (Node.eval_cond_bind invoke parameters (resumes yes) (resumes no)).symm

end Frame

/-- A condition in the place of the operand that is evaluated first may be hoisted: over a call
    and over a list operation if the library has a function for these, and over the test of
    another condition in any case. -/
theorem Library.hoist_cond (l : Library) (test yes no : Node) :
    (∀ name others, (∃ f ∈ l.overloads name, f.arity = others.length + 1) →
      Node.SameMeaning l (.apply name (.cond test yes no :: others))
        (.cond test (.apply name (yes :: others)) (.apply name (no :: others)))) ∧
    (∀ name, (∃ f ∈ l.overloads name, f.arity = 1) →
      Node.SameMeaning l (.map name (.cond test yes no))
        (.cond test (.map name yes) (.map name no))) ∧
    (∀ name list, (∃ f ∈ l.overloads name, f.arity = 2) →
      Node.SameMeaning l (.reduce name (.cond test yes no) list)
        (.cond test (.reduce name yes list) (.reduce name no list))) ∧
    ∀ yes' no', Node.SameMeaning l (.cond (.cond test yes no) yes' no')
      (.cond test (.cond yes yes' no') (.cond no yes' no')) := by
  refine ⟨fun name others ready => ?_, fun name ready => ?_, fun name list ready => ?_,
    fun yes' no' => ?_⟩
  · exact (Frame.apply name others).hoist ready test yes no
  · exact (Frame.map name).hoist ready test yes no
  · exact (Frame.reduce name list).hoist ready test yes no
  · exact (Frame.cond yes' no').hoist trivial test yes no

/-- The test selects the second branch; the first one refers to a parameter that there is not. -/
theorem Library.hoist_cond_tuple :
    let l : Library := ⟨[.tuple [.integer] 0, .tuple [.integer, .integer] 1]⟩
    let parameters : List Value := [.boolean false, .integer 1, .list [.integer 2]]
    let run (n : Node) := n.eval l (l.invoke 1) parameters
    let made (arguments : List Value) : HostCall := ⟨"tuple", arguments, true⟩
    let nested : Node := .cond (.cond (.param 0) (.param 3) (.param 0)) (.param 3) (.param 1)
    run (.cond (.param 0) (.apply "tuple" [.param 3, .param 1])
        (.apply "tuple" [.param 1, .param 1])) =
      ⟨[made [.integer 1, .integer 1]], .value (.list [.integer 1, .integer 1])⟩ ∧
    run (.cond (.param 0) (.map "tuple" (.param 3)) (.map "tuple" (.param 2))) =
      ⟨[made [.integer 2]], .value (.list [.list [.integer 2]])⟩ ∧
    run (.cond (.param 0) (.reduce "tuple" (.param 3) (.param 2))
        (.reduce "tuple" (.param 1) (.param 2))) =
      ⟨[made [.integer 1, .integer 2]], .value (.list [.integer 1, .integer 2])⟩ ∧
    Node.evalWithin l 4 parameters nested = Node.evalWithin l 3 parameters
      (.cond (.param 0) (.cond (.param 3) (.param 3) (.param 1))
        (.cond (.param 0) (.param 3) (.param 1))) := by
  intro l parameters run made nested
  obtain ⟨applies, maps, reduces, conditions⟩ := l.hoist_cond (.param 0) (.param 3) (.param 1)
  have unary : ∃ f ∈ l.overloads "tuple", f.arity = 1 := ⟨_, List.mem_cons_self, rfl⟩
  have binary : ∃ f ∈ l.overloads "tuple", f.arity = 2 :=
    ⟨_, List.mem_cons_of_mem _ List.mem_cons_self, rfl⟩
  refine ⟨?_, ?_, ?_, ?_⟩
  · exact ((applies "tuple" [.param 1] binary).eval 1 parameters).symm
  · exact (((l.hoist_cond (.param 0) (.param 3) (.param 2)).2.1 "tuple" unary).eval 1
      parameters).symm
  · exact ((reduces "tuple" (.param 2) binary).eval 1 parameters).symm
  · refine ((l.hoist_cond (.param 0) (.param 3) (.param 0)).2.2.2 _ _).evalWithin 4 3 parameters
      ?_ ?_
    · intro cut
      cases cut
    · intro cut
      cases cut

end Formulary
