import Formulary.Evaluation.Nesting
import Formulary.Proofs.Faults
import Formulary.Proofs.Locality
import Formulary.Proofs.Requests

/-! # Building against another library

The builder asks a library how many operands a call takes and whether a list operation has
something to call, and nothing else. Where two libraries answer alike, the same code becomes
the same tree or fails with the same error. A function that was built against one of them is
then as good as the one built against the other: the two differ in their serial numbers only,
and no evaluation looks at these.
-/

namespace Formulary

/-- Whether what the builder asks about an instruction has the same answer in two libraries. -/
def Instr.SameArities (l m : Library) : Instr → Prop
  | .const _ | .param _ | .cond | .stray _ => True
  | .apply name => (l.default? name).map Function.arity = (m.default? name).map Function.arity
  | .map name => (∃ f ∈ l.overloads name, f.arity = 1) ↔ ∃ f ∈ m.overloads name, f.arity = 1
  | .reduce name => (∃ f ∈ l.overloads name, f.arity = 2) ↔ ∃ f ∈ m.overloads name, f.arity = 2

/-- Whether two libraries agree on all that the builder asks about code. -/
def Code.SameArities (l m : Library) (code : Code) : Prop :=
  ∀ instr ∈ code, instr.SameArities l m

theorem Library.ofArity?_congr {l m : Library} {name : String} {arity : Nat}
    (same : (∃ f ∈ l.overloads name, f.arity = arity) ↔ ∃ f ∈ m.overloads name, f.arity = arity) :
    (l.ofArity? name arity = none ∧ m.ofArity? name arity = none) ∨
      ∃ f g, l.ofArity? name arity = some f ∧ m.ofArity? name arity = some g := by
  cases here : l.ofArity? name arity with
  | none => exact .inl ⟨rfl, ofArity?_eq_none_iff.mpr (same.not.mp (ofArity?_eq_none_iff.mp here))⟩
  | some f =>
      obtain ⟨g, there⟩ := exists_ofArity?_iff.mpr (same.mp (exists_ofArity?_iff.mp ⟨f, here⟩))
      exact .inr ⟨f, g, rfl, there⟩

section

variable {l m : Library}

theorem Instr.build_congr {instr : Instr} (same : instr.SameArities l m) (position : Nat)
    (stack : List Node) : instr.build l position stack = instr.build m position stack := by
  cases instr with
  | const | param | cond | stray => rfl
  | apply name =>
      have counts : (l.default? name).map Function.arity =
          (m.default? name).map Function.arity := same
      cases here : l.default? name with
      | none =>
          rw [here, Option.map_none, eq_comm, Option.map_eq_none_iff] at counts
          simp only [build, here, counts]
      | some f =>
          rw [here, Option.map_some, eq_comm, Option.map_eq_some_iff] at counts
          obtain ⟨g, there, count⟩ := counts
          simp only [build, here, there, count]
  | map name =>
      rcases Library.ofArity?_congr same with ⟨here, there⟩ | ⟨f, g, here, there⟩
      · simp only [build, ListOperator.arity, here, there]
      · cases stack <;> simp only [build, ListOperator.arity, here, there]
  | reduce name =>
      rcases Library.ofArity?_congr same with ⟨here, there⟩ | ⟨f, g, here, there⟩
      · simp only [build, ListOperator.arity, here, there]
      · rcases stack with _ | ⟨list, _ | ⟨first, rest⟩⟩ <;>
          simp only [build, ListOperator.arity, here, there]

theorem Code.build_congr {code : Code} (same : code.SameArities l m) (position : Nat)
    (stack : List Node) : build l position code stack = build m position code stack := by
  induction code generalizing position stack with
  | nil => rfl
  | cons instr rest ih =>
      obtain ⟨here, there⟩ := List.forall_mem_cons.mp same
      simp only [build, Instr.build_congr here, ih there]

theorem Rule.ofCode_congr {code : Code} (same : code.SameArities l m) :
    Rule.ofCode l code = Rule.ofCode m code := by
  rw [ofCode, ofCode, Code.build_congr same]

end

theorem Code.SameArities.of_arities {l m : Library}
    (same : ∀ name, (l.overloads name).map Function.arity = (m.overloads name).map Function.arity)
    (code : Code) : code.SameArities l m := by
  have available (name : String) (arity : Nat) :
      (∃ f ∈ l.overloads name, f.arity = arity) ↔ ∃ f ∈ m.overloads name, f.arity = arity := by
    rw [← List.mem_map, ← List.mem_map, same]
  intro instr _
  cases instr with
  | const | param | cond | stray => trivial
  | apply name =>
      change (l.overloads name).head?.map Function.arity =
        (m.overloads name).head?.map Function.arity
      rw [← List.head?_map, ← List.head?_map, same]
  | map name => exact available name 1
  | reduce name => exact available name 2

theorem Code.SameArities.trans {k l m : Library} {code : Code} (first : code.SameArities k l)
    (second : code.SameArities l m) : code.SameArities k m := by
  intro instr member
  have here := first instr member
  have there := second instr member
  cases instr with
  | const | param | cond | stray => trivial
  | apply name => exact Eq.trans here there
  | map name | reduce name => exact Iff.trans here there

theorem Library.arities_substitute (f : Function) (fs : List Function) (name : String) :
    ((substitute f fs).filter (·.name = name)).map Function.arity =
      (fs.filter (·.name = name)).map Function.arity := by
  induction fs with
  | nil => rfl
  | cons x xs ih =>
      rw [substitute]
      split
      · rename_i clash
        have names : x.name = f.name := clash.1
        have arities : x.arity = f.arity := clash.arity
        simp only [List.filter_cons, names]
        split
        · rw [List.map_cons, List.map_cons, arities]
        · rfl
      · simp only [List.filter_cons]
        split
        · rw [List.map_cons, List.map_cons, ih]
        · exact ih

/-- A function that takes the place of another one keeps everything that a builder asks for. -/
theorem Code.sameArities_of_replaced {l m : Library} {f : Function}
    (replaced : l.register f = .replaced m) (code : Code) : code.SameArities l m := by
  have accepted : (l.register f).library? = some m := by rw [replaced]; rfl
  rcases Library.register_eq_some_iff.mp accepted with ⟨fresh, _⟩ | ⟨_, _, _, rfl⟩
  · rw [Library.register, fresh] at replaced
    cases replaced
  · exact .of_arities (fun name => (Library.arities_substitute f l.functions name).symm) code

/-- A function as evaluations see it: apart from the others only by its signature and its body. -/
def Function.bare (f : Function) : Function :=
  { f with predefined := false, serial := 0 }

def Library.bare (l : Library) : Library :=
  ⟨l.functions.map Function.bare⟩

theorem Function.Alike.bare {f g : Function} (alike : f.Alike g) : f.bare = g.bare := by
  rw [Function.bare, Function.bare, alike.signature, alike.body]

theorem Run.ofExcept_map_bind {α β γ : Type} (g : α → β) (x : Except EvalError α)
    (next : β → Run γ) :
    Run.ofExcept (x.map g) >>= next = Run.ofExcept x >>= fun a => next (g a) := by
  cases x <;> rfl

namespace Library

variable (l : Library) (name : String)

theorem overloads_bare : l.bare.overloads name = (l.overloads name).map Function.bare := by
  rw [overloads, overloads, bare, List.filter_map]
  rfl

theorem ofArity?_bare (arity : Nat) :
    l.bare.ofArity? name arity = (l.ofArity? name arity).map Function.bare := by
  rw [ofArity?, ofArity?, overloads_bare, List.find?_map]
  rfl

theorem closest_bare (types : List Ty) (fs : List Function) :
    closest types (fs.map Function.bare) =
      (closest types fs).map fun (f, distance) => (f.bare, distance) := by
  induction fs with
  | nil => rfl
  | cons f fs ih =>
      have signature : f.bare.signature = f.signature := rfl
      rw [List.map_cons, closest, closest, ih, signature]
      cases f.signature.distance? types with
      | none => rfl
      | some d =>
          cases closest types fs with
          | none => rfl
          | some best =>
              simp only [Option.map_some]
              split <;> rfl

theorem resolve?_bare (types : List Ty) :
    l.bare.resolve? name types = (l.resolve? name types).map Function.bare := by
  rw [resolve?, resolve?, overloads_bare, closest_bare, Option.map_map, Option.map_map]
  rfl

theorem choose_bare (arguments : List Value) (fallback : Function) :
    l.bare.choose name arguments fallback.bare = (l.choose name arguments fallback).bare := by
  rw [choose, choose, resolve?_bare, Option.getD_map]

theorem callee_bare (given : Nat) :
    l.bare.callee name given = (l.callee name given).map Function.bare := by
  rw [callee, callee, overloads_bare, ofArity?_bare]
  cases l.overloads name with
  | nil => rfl
  | cons first others => cases l.ofArity? name given <;> rfl

theorem operand_bare (operator : ListOperator) :
    l.bare.operand operator name = (l.operand operator name).map Function.bare := by
  rw [operand, operand, ofArity?_bare]
  cases l.ofArity? name operator.arity <;> rfl

theorem entry_bare (arguments : List Value) :
    l.bare.entry name arguments = (l.entry name arguments).map Function.bare := by
  have known : l.bare.contains name = l.contains name := by
    rw [contains, contains, bare, List.any_map]
    rfl
  have signatures : (l.bare.overloads name).map (·.signature) =
      (l.overloads name).map (·.signature) := by
    rw [overloads_bare, List.map_map]
    rfl
  rw [entry, entry, known, signatures, resolve?_bare, ofArity?_bare]
  split
  · cases l.resolve? name (arguments.map Value.type) with
    | some f => rfl
    | none => cases l.ofArity? name arguments.length <;> rfl
  · rfl

end Library

section

variable {l : Library} {invoke invoke' : Function → List Value → Run Value}

theorem HostProgram.run_bare (enters : ∀ f vs, invoke' f.bare vs = invoke f vs)
    (program : HostProgram) : program.run l.bare invoke' = program.run l invoke := by
  induction program with
  | answer v => rfl
  | fail e => rfl
  | call name arguments next ih =>
      rw [run, run, Library.resolve?_bare]
      cases l.resolve? name (arguments.map Value.type) with
      | none => rfl
      | some f => simp only [Option.map_some, enters, ih]

namespace Node

variable {parameters : List Value}

mutual

theorem eval_bare (enters : ∀ f vs, invoke' f.bare vs = invoke f vs) (n : Node) :
    n.eval l.bare invoke' parameters = n.eval l invoke parameters := by
  cases n with
  | const | param | stray => rfl
  | cond test yes no =>
      simp only [eval, eval_bare enters test, eval_bare enters yes, eval_bare enters no]
  | apply name arguments =>
      simp only [eval, evalAll_bare enters arguments, Library.callee_bare, Run.ofExcept_map_bind,
        Library.choose_bare, enters]
  | map name list =>
      simp only [eval, eval_bare enters list, Library.operand_bare, Run.ofExcept_map_bind,
        Library.choose_bare, enters]
  | reduce name first list =>
      simp only [eval, eval_bare enters first, eval_bare enters list, Library.operand_bare,
        Run.ofExcept_map_bind, Library.choose_bare, enters]
termination_by structural n

theorem evalAll_bare (enters : ∀ f vs, invoke' f.bare vs = invoke f vs) (ns : List Node) :
    evalAll l.bare invoke' parameters ns = evalAll l invoke parameters ns := by
  cases ns with
  | nil => rfl
  | cons n ns => simp only [evalAll, eval_bare enters n, evalAll_bare enters ns]
termination_by structural ns

end

end Node

end

namespace Library

theorem invoke_bare (l : Library) (depth : Nat) (f : Function) (vs : List Value) :
    l.bare.invoke depth f.bare vs = l.invoke depth f vs := by
  induction depth generalizing f vs with
  | zero => rfl
  | succ depth ih =>
      have arity : f.bare.arity = f.arity := rfl
      have body : f.bare.body = f.body := rfl
      rw [invoke, invoke, arity, body]
      split
      · rfl
      · cases f.body with
        | primitive | announced => rfl
        | tree root => exact root.eval_bare ih
        | host traced program => simp only [HostProgram.run_bare ih]; rfl

/-- Where the functions of two libraries stand for each other, a tree means the same in both,
    down to the texts of its errors. -/
theorem eval_of_bare {l m : Library} (same : l.bare = m.bare) (root : Node)
    (parameters : List Value) (depth : Nat) :
    root.eval l (l.invoke depth) parameters = root.eval m (m.invoke depth) parameters := by
  rw [← root.eval_bare (l.invoke_bare depth), same, root.eval_bare (m.invoke_bare depth)]

theorem call_of_bare {l m : Library} (same : l.bare = m.bare) (depth : Nat) (name : String)
    (arguments : List Value) : l.call depth name arguments = m.call depth name arguments := by
  have through (k : Library) : k.call depth name arguments = k.bare.call depth name arguments := by
    simp only [call, entry_bare, Run.ofExcept_map_bind, invoke_bare]
  rw [through l, same, ← through m]

end Library

theorem Library.substitute_bare {f g : Function} {fs : List Function}
    (found : fs.find? (·.signature.Clashes g.signature) = some f) (same : f.bare = g.bare) :
    (substitute g fs).map Function.bare = fs.map Function.bare := by
  induction fs with
  | nil => rfl
  | cons x xs ih =>
      rw [substitute]
      split
      · rename_i clash
        simp only [List.find?_cons, decide_eq_true clash, Option.some.injEq] at found
        rw [List.map_cons, List.map_cons, found, same]
      · rename_i differs
        simp only [List.find?_cons, decide_eq_false differs] at found
        rw [List.map_cons, List.map_cons, ih found]

theorem Library.register_bare {l : Library} {f g : Function}
    (held : l.clash? f.signature = some f) (replaceable : f.predefined = false)
    (alike : f.Alike g) : ∃ m, l.register g = .replaced m ∧ m.bare = l.bare := by
  rw [alike.signature] at held
  refine ⟨⟨substitute g l.functions⟩, ?_, ?_⟩
  · simp only [register, held, replaceable, Bool.false_eq_true, if_false]
  · rw [clash?_eq_find?] at held
    rw [bare, bare, substitute_bare held alike.bare]

theorem Function.Alike.enters {f g : Function} (alike : f.Alike g) (l : Library) (limit : Nat) :
    l.invoke limit f = l.invoke limit g ∧ l.invokeWithin limit f = l.invokeWithin limit g := by
  cases limit with
  | zero => exact ⟨rfl, rfl⟩
  | succ limit =>
      constructor
      · funext arguments
        simp only [Library.invoke, alike.arity, alike.signature, alike.body, Function.name]
      · funext arguments
        simp only [Library.invokeWithin, enterBody, alike.arity, alike.signature, alike.body,
          Function.name]

namespace Workspace

/-- Where two libraries agree on the numbers of parameters that code asks for, the code becomes
    the same tree or fails with the same error; they go on to agree when a function is redefined
    in place. A function that was built from the code in one of them does in every library what
    the function does that is built anew in the other. So where it is still registered, nothing
    changes when the new one takes its place: callers that were built before a function was
    redefined are as good as new ones. -/
theorem build_sameArities {v w : Workspace} {code : Code}
    (same : code.SameArities v.library w.library) (stem : v.stem = w.stem)
    (levels : v.levels = w.levels) (name : String) :
    Node.ofCode v.library code = Node.ofCode w.library code ∧
      (∀ f m, w.library.register f = .replaced m → code.SameArities v.library m) ∧
      (∀ e, (v.build name code).2 = .error e ↔ (w.build name code).2 = .error e) ∧
      ∀ f, (v.build name code).2 = .ok f → ∃ g, (w.build name code).2 = .ok g ∧
        (∀ (l : Library) (limit : Nat),
          l.invoke limit f = l.invoke limit g ∧ l.invokeWithin limit f = l.invokeWithin limit g) ∧
        (w.library.clash? f.signature = some f → ∃ l, w.library.register g = .replaced l ∧
          (∀ depth callee arguments,
            w.library.call depth callee arguments = l.call depth callee arguments) ∧
          ∀ root parameters depth,
            Node.eval w.library (w.library.invoke depth) parameters root =
              root.eval l (l.invoke depth) parameters) := by
  have rules := Rule.ofCode_congr same
  have kept (f : Function) (m : Library) (replaced : w.library.register f = .replaced m) :
      code.SameArities v.library m :=
    same.trans (Code.sameArities_of_replaced replaced code)
  have texts : Rule.written w.library w.levels code = Rule.written v.library v.levels code := by
    rw [Rule.written, Rule.written, rules, levels]
  refine ⟨by rw [Node.ofCode, Node.ofCode, rules], kept, ?_⟩
  cases reading : Rule.written v.library v.levels code with
  | error e =>
      rw [build_error reading name, build_error (texts.trans reading) name]
      refine ⟨fun _ => Iff.rfl, ?_⟩
      intro f built
      cases built
  | ok rule =>
      obtain ⟨v', building, _⟩ := build_ok reading name
      obtain ⟨w', rebuilding, _⟩ := build_ok (texts.trans reading) name
      rw [building, rebuilding]
      constructor
      · intro e
        simp only [reduceCtorEq]
      · intro f built
        cases built
        have alike : (v.functionOf name rule).Alike (w.functionOf name rule) :=
          ⟨by rw [functionOf, functionOf, stem], rfl⟩
        refine ⟨_, rfl, alike.enters, fun held => ?_⟩
        obtain ⟨l, replaced, bare⟩ := Library.register_bare held rfl alike
        exact ⟨l, replaced, Library.call_of_bare bare.symm, Library.eval_of_bare bare.symm⟩

/-- A caller of `k` that is registered before `k` gets another value. -/
theorem build_sameArities_constant :
    let caller : Code := [.apply "k"]
    let u := ((empty "x").perform (.define "k" [.const (.integer 1)])).1
    let v := (u.perform (.define "g" caller)).1
    let w := (v.perform (.define "k" [.const (.integer 2)])).1
    ∃ f g l, (u.build "g" caller).2 = .ok f ∧ (w.build "g" caller).2 = .ok g ∧
      f.serial ≠ g.serial ∧ u.enter f [] = pure (.integer 1) ∧
      w.enter f [] = pure (.integer 2) ∧ w.enter g [] = pure (.integer 2) ∧
      w.library.register g = .replaced l ∧ l.call 2 "g" [] = pure (.integer 2) := by
  intro caller u v w
  have before : caller.SameArities u.library v.library := by
    intro instr member
    obtain rfl := List.mem_singleton.mp member
    rfl
  obtain ⟨_, kept, _⟩ := build_sameArities before (rfl : u.stem = v.stem) rfl "g"
  have same : caller.SameArities u.library w.library :=
    kept (v.functionOf "k" ⟨.const (.integer 2), 0⟩) w.library rfl
  obtain ⟨_, _, _, rebuilt⟩ := build_sameArities same (rfl : u.stem = w.stem) rfl "g"
  obtain ⟨g, again, alike, replaces⟩ := rebuilt _ rfl
  obtain ⟨l, replaced, calls, _⟩ := replaces rfl
  have number : g.serial = w.nextSerial := by
    cases again
    rfl
  refine ⟨_, g, l, rfl, again, ?_, rfl, rfl, ?_, replaced, (calls 2 "g" []).symm⟩
  · rw [number]
    decide
  · rw [enter, ← (alike w.library w.depth).1]
    rfl

end Workspace

end Formulary
