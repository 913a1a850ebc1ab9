import Formulary.Proofs.Calls
import Formulary.Proofs.Entries
import Formulary.Proofs.Guards

/-! # Conditions that evaluations keep

Apart from what host programs do, an evaluation hands values on, takes lists apart and
puts lists together, and computes truth values and reals. A property of values that
survives this, and that the constants of all bodies have, passes from the arguments of
a call to its value, however deeply calls are nested. The errors on the way are those
of the evaluation itself, or a host program gives up with them, or arithmetic raises
a fault.
-/

namespace Formulary

/-- The kinds of errors that evaluations raise of their own accord. -/
def evaluationErrors : List ErrorKind :=
  [.invalidType, .invalidParameters, .unknownFunction]

/-- What is asked of all values of an evaluation, and of the error that it may end with. -/
structure Condition where
  value : Value → Prop
  error : EvalError → Prop
  boolean : ∀ b, value (.boolean b)
  real : ∀ x, value (.real x)
  list : ∀ vs, value (.list vs) ↔ ∀ v ∈ vs, value v
  /-- Only host programs and arithmetic may end with errors that are excluded. -/
  ordinary : ∀ e, e.kind ∈ evaluationErrors → error e

/-- A run whose value and whose error are as a condition asks for. -/
abbrev Run.Keeps (c : Condition) (r : Run Value) : Prop :=
  r.Meets c.value c.error

/-- A host program keeps a condition as long as the functions that it calls do. -/
def HostProgram.Keeps (c : Condition) : HostProgram → Prop
  | .answer v => c.value v
  | .fail e => c.error e
  | .call _ arguments next =>
    (∀ a ∈ arguments, c.value a) ∧ ∀ v, c.value v → (next v).Keeps c

def Body.Keeps (c : Condition) : Body → Prop
  | .primitive p =>
    ∀ arguments, (∀ a ∈ arguments, c.value a) → (Run.ofExcept (p.apply arguments)).Keeps c
  | .tree root => ∀ v ∈ root.constants, c.value v
  | .announced => True
  | .host _ program => ∀ arguments, (∀ a ∈ arguments, c.value a) → (program arguments).Keeps c

def Library.Keeps (c : Condition) (l : Library) : Prop :=
  ∀ f ∈ l.functions, f.body.Keeps c

/-- What a host program may do without making anything up: answer with a constant, with one
    of its arguments or with the list of them, or pass them on to a library function. -/
inductive HostForm where
  | constant (v : Value)
  | argument (index : Nat)
  | collect
  | forward (name : String)

def HostForm.program : HostForm → List Value → HostProgram
  | .constant v => fun _ => .answer v
  | .argument index => HostProgram.argument index
  | .collect => HostProgram.collect
  | .forward name => HostProgram.forward name

/-- Whether a value is a constant of a body. Predefined operations have no constants but
    reals. -/
def Body.HasConstant : Body → Value → Prop
  | .primitive _, _ => False
  | .tree root, v => v ∈ root.constants
  | .announced, _ => False
  | .host _ program, v => program = (HostForm.constant v).program

/-- No integer is too large for a real, so that arithmetic raises no fault. -/
def Condition.fitting : Condition where
  value v := ∀ n ∈ v.integers, FitsReal n
  error e := e.kind ≠ .foreign
  boolean _ _ inside := absurd inside List.not_mem_nil
  real _ _ inside := absurd inside List.not_mem_nil
  list _ := Value.forall_mem_integersAll
  ordinary e own := by
    intro foreign
    simp [foreign, evaluationErrors] at own

variable {c : Condition}

theorem Primitive.keeps {p : Primitive}
    (faults : ∀ arguments, (∀ a ∈ arguments, c.value a) → ∀ cause,
      p.FailsOn arguments (.fault cause) → c.error (.fault cause)) :
    Body.Keeps c (.primitive p) := by
  intro arguments holds
  by_cases count : arguments.length = p.signature.arity
  · refine (p.apply_meets count).imp (fun v computed => ?_) fun e fails => ?_
    · cases computed with
      | boolean b => exact c.boolean b
      | real x => exact c.real x
    · cases fails with
      | type kind => exact c.ordinary e (by simp [kind, evaluationErrors])
      | fault cause origin => exact faults arguments holds cause (.fault cause origin)
  · rw [p.apply_of_count_ne count]
    exact .fail (c.ordinary _ (by simp [EvalError.kind, evaluationErrors]))

theorem parameterAt_mem {α : Type} {parameters : List α} {i : Int} {v : α}
    (found : parameterAt parameters i = .ok v) : v ∈ parameters := by
  unfold parameterAt at found
  split at found
  · rename_i k
    cases there : parameters[k]? with
    | none =>
        rw [there] at found
        cases found
    | some w =>
        rw [there] at found
        cases found
        exact List.mem_of_getElem? there
  · cases found

theorem parameterAt_meets {α : Type} {good : α → Prop} {parameters : List α}
    (given : ∀ a ∈ parameters, good a) (index : Int) :
    (Run.ofExcept (parameterAt parameters index)).Meets good c.error := by
  cases found : parameterAt parameters index with
  | ok v => exact .pure (given v (parameterAt_mem found))
  | error e =>
      apply Run.Meets.fail
      unfold parameterAt at found
      apply c.ordinary
      cases index <;> grind [EvalError.kind, evaluationErrors]

theorem elementsFor_keeps (operator : ListOperator) {v : Value} (holds : c.value v) :
    (Run.ofExcept (elementsFor operator v)).Meets (fun xs => ∀ x ∈ xs, c.value x) c.error := by
  cases v with
  | list xs => exact .pure ((c.list xs).mp holds)
  | boolean | integer | real =>
      exact .fail (c.ordinary _ (by simp [EvalError.kind, evaluationErrors]))

namespace Library

variable {l : Library}

theorem callee_keeps (l : Library) (name : String) (given : Nat) :
    (Run.ofExcept (l.callee name given)).Meets (· ∈ l.overloads name) c.error := by
  cases called : l.callee name given with
  | ok f => exact .pure (mem_of_ofArity? (callee_eq_ok_iff.mp called)).1
  | error e =>
      apply Run.Meets.fail
      unfold callee at called
      apply c.ordinary
      grind [EvalError.kind, evaluationErrors]

theorem entry_keeps (l : Library) (name : String) (arguments : List Value) :
    (Run.ofExcept (l.entry name arguments)).Meets (· ∈ l.functions) c.error := by
  cases entered : l.entry name arguments with
  | ok f => exact .pure (mem_overloads.mp (entry_spec entered).1).1
  | error e =>
      apply Run.Meets.fail
      unfold entry at entered
      apply c.ordinary
      grind [EvalError.kind, evaluationErrors]

theorem operand_keeps (l : Library) (operator : ListOperator) (name : String) :
    (Run.ofExcept (l.operand operator name)).Meets (· ∈ l.overloads name) c.error := by
  cases called : l.operand operator name with
  | ok f => exact .pure (mem_of_ofArity? (operand_eq_ok_iff.mp called)).1
  | error e =>
      apply Run.Meets.fail
      unfold operand at called
      apply c.ordinary
      grind [EvalError.kind, evaluationErrors]

end Library

section

variable {l : Library} {invoke : Function → List Value → Run Value} {parameters : List Value}

/-- Entering a function of a library with values that meet a condition keeps it. -/
def Library.EntersKeeping (c : Condition) (l : Library)
    (invoke : Function → List Value → Run Value) : Prop :=
  ∀ f ∈ l.functions, ∀ arguments, (∀ a ∈ arguments, c.value a) → (invoke f arguments).Keeps c

theorem Library.EntersKeeping.choose (enters : l.EntersKeeping c invoke) {name : String}
    {fallback : Function} (member : fallback ∈ l.overloads name) {arguments : List Value}
    (holds : ∀ a ∈ arguments, c.value a) :
    (invoke (l.choose name arguments fallback) arguments).Keeps c :=
  enters _ (mem_overloads.mp (mem_choose member)).1 arguments holds

theorem HostProgram.run_keeps (enters : l.EntersKeeping c invoke) {program : HostProgram}
    (keeps : program.Keeps c) : (program.run l invoke).Keeps c := by
  induction program with
  | answer v => exact .pure keeps
  | fail e => exact .fail keeps
  | call name arguments next ih =>
      obtain ⟨holds, later⟩ := keeps
      simp only [run]
      cases found : l.resolve? name (arguments.map Value.type) with
      | none => exact .fail (c.ordinary _ (by simp [EvalError.kind, evaluationErrors]))
      | some f =>
          have there := (Library.mem_overloads.mp (Library.mem_of_resolve? found).1).1
          apply (enters f there arguments holds).bind
          intro v value
          exact ih v (later v value)

namespace Node

mutual

/-- The constants of a tree and its parameters determine what its value is made of. -/
theorem eval_keeps (enters : l.EntersKeeping c invoke) (given : ∀ v ∈ parameters, c.value v)
    {n : Node} (constants : ∀ v ∈ n.constants, c.value v) :
    (n.eval l invoke parameters).Keeps c := by
  cases n with
  | const v => exact .pure (constants v List.mem_cons_self)
  | param index => exact parameterAt_meets given index
  | cond test yes no =>
      simp only [Node.constants, List.forall_mem_append] at constants
      obtain ⟨⟨inTest, inYes⟩, inNo⟩ := constants
      simp only [eval]
      apply (eval_keeps enters given inTest).bind
      intro v _
      split
      · exact eval_keeps enters given inYes
      · exact eval_keeps enters given inNo
      · exact .fail (c.ordinary _ (by simp [EvalError.kind, evaluationErrors]))
  | apply name arguments =>
      simp only [eval]
      apply (l.callee_keeps name arguments.length).bind
      intro fallback member
      apply (evalAll_keeps enters given constants).bind
      intro vs holds
      exact enters.choose member holds
  | map name list =>
      simp only [eval]
      apply (l.operand_keeps .map name).bind
      intro fallback member
      apply (eval_keeps enters given (n := list) constants).bind
      intro v holds
      apply (elementsFor_keeps .map holds).bind
      intro xs elements
      have each : ∀ x ∈ xs, (invoke (l.choose name [x] fallback) [x]).Keeps c := by
        intro x inside
        exact enters.choose member (by simpa using elements x inside)
      apply (Run.Meets.mapM each).bind
      intro ys results
      exact .pure ((c.list ys).mpr results.2)
  | reduce name first list =>
      simp only [Node.constants, List.forall_mem_append] at constants
      simp only [eval]
      apply (l.operand_keeps .reduce name).bind
      intro fallback member
      apply (eval_keeps enters given constants.1).bind
      intro a start
      apply (eval_keeps enters given constants.2).bind
      intro v holds
      apply (elementsFor_keeps .reduce holds).bind
      intro xs elements
      apply Run.Meets.foldlM start
      intro b sofar x inside
      exact enters.choose member (by simpa using ⟨sofar, elements x inside⟩)
  | stray object => exact .fail (c.ordinary _ (by simp [EvalError.kind, evaluationErrors]))
termination_by sizeOf n

theorem evalAll_keeps (enters : l.EntersKeeping c invoke) (given : ∀ v ∈ parameters, c.value v)
    {ns : List Node} (constants : ∀ v ∈ constantsAll ns, c.value v) :
    (evalAll l invoke parameters ns).Meets (fun vs => ∀ v ∈ vs, c.value v) c.error := by
  cases ns with
  | nil => exact .pure (by simp)
  | cons n ns =>
      simp only [constantsAll, List.forall_mem_append] at constants
      simp only [evalAll]
      apply (eval_keeps enters given constants.1).bind
      intro v here
      apply (evalAll_keeps enters given constants.2).bind
      intro vs there
      exact .pure (by simpa using ⟨here, there⟩)
termination_by sizeOf ns

end

end Node

end

/-- The induction is on how deeply calls may nest. The function itself need not be in the
    library. -/
theorem Library.invoke_keeps {l : Library} (keeps : l.Keeps c) (depth : Nat) {f : Function}
    (body : f.body.Keeps c) {arguments : List Value} (holds : ∀ a ∈ arguments, c.value a) :
    (l.invoke depth f arguments).Keeps c := by
  induction depth generalizing f arguments with
  | zero => exact .tooDeep
  | succ depth ih =>
      have enters : l.EntersKeeping c (l.invoke depth) := by
        intro g member others values
        exact ih (keeps g member) values
      simp only [invoke]
      split
      · exact .fail (c.ordinary _ (by simp [EvalError.kind, evaluationErrors]))
      · generalize f.body = b at body
        cases b with
        | primitive p => exact body arguments holds
        | tree root => exact root.eval_keeps enters holds body
        | announced =>
            exact .fail (c.ordinary _ (by simp [EvalError.kind, evaluationErrors]))
        | host traced program =>
            apply Run.Meets.note.bind
            intro _ _
            exact HostProgram.run_keeps enters (body arguments holds)

theorem Library.Keeps.enters {l : Library} (keeps : l.Keeps c) (depth : Nat) :
    l.EntersKeeping c (l.invoke depth) :=
  fun f member _ holds => invoke_keeps keeps depth (keeps f member) holds

theorem Library.Keeps.call {l : Library} (keeps : l.Keeps c) (depth : Nat) (name : String)
    {arguments : List Value} (holds : ∀ a ∈ arguments, c.value a) :
    (l.call depth name arguments).Keeps c := by
  apply (l.entry_keeps name arguments).bind
  intro f member
  exact keeps.enters depth f member arguments holds

theorem Library.Keeps.eval {l : Library} (keeps : l.Keeps c) (depth : Nat) {root : Node}
    (constants : ∀ v ∈ root.constants, c.value v) {parameters : List Value}
    (given : ∀ v ∈ parameters, c.value v) :
    (root.eval l (l.invoke depth) parameters).Keeps c :=
  root.eval_keeps (keeps.enters depth) given constants

end Formulary
