import Formulary.Proofs.Dispatch
import Formulary.Proofs.RecursiveDefinitions

/-! # Calls of a recursive function by its own name

Code that is built while its function is announced can call it. How many operands such a call
takes is not decided by the announced function, however, but by the oldest overload of the
name, as for any other call. Only where the name is new is this the announced one; otherwise
the calls pass what the oldest overload takes, and may enter another function. A call that
passes as many reals as were announced does enter the function.
-/

namespace Formulary

namespace Node

mutual

/-- The calls of a tree, each before those among its operands. -/
def calls : Node → List Call
  | .const _ => []
  | .param _ => []
  | .cond test yes no => test.calls ++ yes.calls ++ no.calls
  | .apply name arguments => .apply name arguments.length :: callsAll arguments
  | .map name list => .overList .map name :: list.calls
  | .reduce name first list => .overList .reduce name :: (first.calls ++ list.calls)
  | .stray _ => []

def callsAll : List Node → List Call
  | [] => []
  | n :: ns => n.calls ++ callsAll ns

end

mutual

theorem Formed.forall_calls {P : Call → Prop} {n : Node} (formed : n.Formed P) :
    ∀ c ∈ n.calls, P c := by
  cases n with
  | const | param | stray => simp [calls]
  | cond test yes no =>
      simp only [calls, List.forall_mem_append]
      exact ⟨⟨formed.1.forall_calls, formed.2.1.forall_calls⟩, formed.2.2.forall_calls⟩
  | apply name arguments =>
      simp only [calls, List.forall_mem_cons]
      exact ⟨formed.1, FormedAll.forall_calls formed.2⟩
  | map name list =>
      simp only [calls, List.forall_mem_cons]
      exact ⟨formed.1, formed.2.forall_calls⟩
  | reduce name first list =>
      simp only [calls, List.forall_mem_cons, List.forall_mem_append]
      exact ⟨formed.1, formed.2.1.forall_calls, formed.2.2.forall_calls⟩
termination_by structural n

theorem FormedAll.forall_calls {P : Call → Prop} {ns : List Node} (formed : FormedAll P ns) :
    ∀ c ∈ callsAll ns, P c := by
  cases ns with
  | nil => simp [callsAll]
  | cons n ns =>
      simp only [callsAll, List.forall_mem_append]
      exact ⟨formed.1.forall_calls, FormedAll.forall_calls formed.2⟩
termination_by structural ns

end

mutual

theorem apply_mem_flatten_iff {name : String} (n : Node) :
    Instr.apply name ∈ n.flatten ↔ ∃ given, .apply name given ∈ n.calls := by
  cases n with
  | const | param | stray => simp [flatten, calls]
  | cond test yes no =>
      simp [flatten, calls, apply_mem_flatten_iff test, apply_mem_flatten_iff yes,
        apply_mem_flatten_iff no, exists_or]
  | apply name' arguments =>
      simp [flatten, calls, apply_mem_flattenAll_iff arguments, exists_or, or_comm]
  | map name list => simp [flatten, calls, apply_mem_flatten_iff list]
  | reduce name first list =>
      simp [flatten, calls, apply_mem_flatten_iff first, apply_mem_flatten_iff list, exists_or]
termination_by structural n

theorem apply_mem_flattenAll_iff {name : String} (ns : List Node) :
    Instr.apply name ∈ flattenAll ns ↔ ∃ given, .apply name given ∈ callsAll ns := by
  cases ns with
  | nil => simp [flattenAll, callsAll]
  | cons n ns =>
      simp [flattenAll, callsAll, apply_mem_flatten_iff n, apply_mem_flattenAll_iff ns, exists_or]
termination_by structural ns

end

end Node

theorem Library.default?_of_register_new {l m : Library} {f : Function}
    (accepted : (l.register f).library? = some m) (new : l.default? f.name = none) :
    m.default? f.name = some f := by
  obtain ⟨newcomer, only, _⟩ := register_spec accepted
  have none : l.overloads f.name = [] := List.head?_eq_none_iff.mp new
  have member : f ∈ m.overloads f.name := mem_overloads.mpr ⟨newcomer, rfl⟩
  have alone : ∀ g ∈ m.overloads f.name, g = f := by
    intro g there
    obtain ⟨inside, named⟩ := mem_overloads.mp there
    rcases only g inside with rfl | old
    · rfl
    · have earlier : g ∈ l.overloads f.name := mem_overloads.mpr ⟨old, named⟩
      rw [none] at earlier
      cases earlier
  cases found : m.overloads f.name with
  | nil =>
      rw [found] at member
      cases member
  | cons g gs =>
      rw [found] at alone
      rw [default?, found, alone g List.mem_cons_self]
      rfl

namespace Workspace

variable {w : Workspace} {name : String} {code : Code} {arity : Int} {f : Function}

/-- A call that passes reals only enters the overload that declares as many of them. -/
theorem evalNode_apply_reals (distinct : w.library.Distinct)
    (member : f ∈ w.library.overloads name) {arguments : List Node} {parameters : List Value}
    {xs : List Float} (declared : f.signature.types = List.replicate arguments.length .real)
    (ended : (Node.evalAll w.library (w.library.invoke w.depth) parameters arguments).outcome =
      .value (xs.map .real)) :
    w.evalNode (.apply name arguments) parameters =
      Node.evalAll w.library (w.library.invoke w.depth) parameters arguments >>= w.enter f := by
  have arity : f.arity = arguments.length := by
    simpa [Function.arity, Signature.arity, Signature.types] using congrArg List.length declared
  have suitable : ∃ g ∈ w.library.overloads name, g.arity = arguments.length := ⟨f, member, arity⟩
  obtain ⟨fallback, found⟩ := Library.exists_ofArity?_iff.mpr suitable
  rw [evalNode, Node.eval, Library.callee_eq_ok_iff.mpr found, Run.ofExcept_ok, pure_bind]
  refine Run.bind_congr_value fun vs result => ?_
  have length : vs.length = arguments.length := (Node.evalAll_length arguments).value vs result
  obtain rfl : vs = xs.map .real := by
    rw [result] at ended
    injection ended
  have types : (xs.map Value.real).map Value.type = f.signature.types := by
    rw [declared, ← length]
    simp [List.eq_replicate_iff, Value.type]
  rw [enter, Library.choose, types, Library.resolve?_types distinct member, Option.getD_some]

/-- In the library that code is built against, the default overload of the name has as many
    parameters as it had before, and as many as announced if the name is new. -/
theorem default?_announcing (made : (w.defineRecursive name code arity).2 = .ok f) :
    ∃ d, (w.announcing name arity).default? name = some d ∧
      (d.arity : Int) = ((w.library.default? name).map fun d => (d.arity : Int)).getD arity := by
  obtain ⟨rule, ⟨m, offered, built, stated⟩, _⟩ := defineRecursive_granted made
  rw [announcing_eq offered]
  cases first : w.library.default? name with
  | none =>
      refine ⟨_, Library.default?_of_register_new offered first, ?_⟩
      have announced : (w.announce name arity).2.arity = arity.toNat := by
        simp [announce, create, Function.arity, Signature.arity, Code.realParameters]
      rw [Option.map_none, Option.getD_none, announced, ← stated, Int.toNat_natCast]
  | some d =>
      obtain ⟨e, first', same⟩ := Library.default?_of_register offered first
      exact ⟨e, first', congrArg Nat.cast same⟩

theorem defineRecursive_arity (made : (w.defineRecursive name code arity).2 = .ok f) :
    (f.arity : Int) = arity := by
  obtain ⟨rule, ⟨m, offered, built, stated⟩, rfl, _⟩ := defineRecursive_granted made
  rw [functionOf_arity, stated]

end Workspace

/-- Every call in a recursive function of its own name passes as many arguments as the oldest
    overload had parameters before, or as the function has if the name was new. Hence all these
    calls pass as many as the function has just in case there are none, or the oldest overload
    has as many parameters too. A call that does pass as many, and only reals, enters the
    function, whatever other overloads there are. -/
theorem Reachable.defineRecursive_selfCalls {includePredefined : Bool} {w : Workspace}
    {held : List Function} (reached : Reachable includePredefined w held) {name : String}
    {code : Code} {arity : Int} {f : Function}
    (made : (w.defineRecursive name code arity).2 = .ok f) :
    let after := (w.defineRecursive name code arity).1
    let oldest : Option Int := (w.library.default? name).map fun d => d.arity
    (∃ root, f.body = .tree root ∧ root.flatten = code ∧
      (∀ given : Nat, .apply name given ∈ root.calls → (given : Int) = oldest.getD arity) ∧
      ((∀ given : Nat, .apply name given ∈ root.calls → (given : Int) = arity) ↔
        Instr.apply name ∉ code ∨ oldest.getD arity = arity)) ∧
    ∀ (arguments : List Node) (parameters : List Value) (xs : List Float),
      (arguments.length : Int) = arity →
      let passed :=
        Node.evalAll after.library (after.library.invoke after.depth) parameters arguments
      passed.outcome = .value (xs.map .real) →
        after.evalNode (.apply name arguments) parameters = passed >>= after.enter f := by
  intro after oldest
  obtain ⟨accepted, signature, root, built, body⟩ := Workspace.defineRecursive_made made
  obtain ⟨d, first, operands⟩ := Workspace.default?_announcing made
  obtain ⟨count, built⟩ := Node.ofCode_eq_ok_iff.mp built
  obtain ⟨flat, fits, _⟩ := Rule.ofCode_eq_ok_iff.mp built
  have carried (given : Nat) (member : .apply name given ∈ root.calls) :
      (given : Int) = oldest.getD arity := by
    obtain ⟨e, first', same⟩ := fits.forall_calls _ member
    rw [first] at first'
    cases first'
    rw [← same, operands]
  refine ⟨⟨root, body, flat, carried, ?_⟩, ?_⟩
  · constructor
    · intro right
      by_cases called : Instr.apply name ∈ code
      · rw [← flat, Node.apply_mem_flatten_iff] at called
        obtain ⟨given, member⟩ := called
        exact .inr ((carried given member).symm.trans (right given member))
      · exact .inl called
    · rintro (uncalled | same) given member
      · rw [← flat, Node.apply_mem_flatten_iff] at uncalled
        exact (uncalled ⟨given, member⟩).elim
      · exact (carried given member).trans same
  · intro arguments parameters xs count passed ended
    have distinct : after.library.Distinct := (reached.defineRecursive name code arity).distinct
    have member : f ∈ after.library.overloads name :=
      Library.mem_overloads.mpr ⟨(Library.register_spec accepted).1, congrArg (·.name) signature⟩
    have stated := Workspace.defineRecursive_arity made
    have declared : f.signature.types = List.replicate f.arity .real := by
      simp [signature, Function.arity, Signature.arity, Signature.types, Code.realParameters,
        List.eq_replicate_iff]
    obtain same : f.arity = arguments.length := by omega
    rw [same] at declared
    exact Workspace.evalNode_apply_reals distinct member declared ended

/-- A new name: the one call of the function passes as many arguments as the function has, and
    such a call enters the function. -/
theorem Reachable.defineRecursive_selfCalls_new :
    let w := Workspace.initial true "x"
    let code : Code := [.param 0, .apply "f"]
    let after := (w.defineRecursive "f" code 1).1
    ∃ f root, (w.defineRecursive "f" code 1).2 = .ok f ∧ f.body = .tree root ∧
      (∀ given : Nat, .apply "f" given ∈ root.calls → (given : Int) = 1) ∧
      after.evalNode (.apply "f" [.const (.real 0.5)]) [] = after.enter f [.real 0.5] := by
  intro w code after
  have reached : Reachable true w Primitive.functions := Reachable.start "x"
  have made : (w.defineRecursive "f" code 1).2 =
      .ok ((w.announce "f" 1).1.functionOf "f" ⟨.apply "f" [.param 0], 1⟩) := rfl
  have new : w.library.default? "f" = none := rfl
  obtain ⟨⟨root, body, _, _, right⟩, entering⟩ := reached.defineRecursive_selfCalls made
  have passed := entering [.const (.real 0.5)] [] [0.5] rfl rfl
  simp only [Node.evalAll, Node.eval, pure_bind] at passed
  rw [new] at right
  exact ⟨_, root, made, body, right.mpr (.inr rfl), passed⟩

def Function.sum : Function where
  signature := ⟨"+", [⟨"lhs", .real⟩, ⟨"rhs", .real⟩], .real⟩
  body := .primitive ⟨"+", .binary "lhs" "rhs" fun x y => .ok (x + y)⟩
  predefined := true
  serial := 1

/-- A name whose oldest overload takes two arguments: the function has one parameter, but the
    call in it passes two arguments and enters the predefined sum. -/
theorem Reachable.defineRecursive_selfCalls_sum :
    let w := Workspace.initial true "param"
    let code : Code := [.param 0, .param 0, .apply "+"]
    let after := (w.defineRecursive "+" code 1).1
    Reachable true w Primitive.functions ∧
      ∃ f root, (w.defineRecursive "+" code 1).2 = .ok f ∧ f.arity = 1 ∧ f.body = .tree root ∧
        (¬∀ given : Nat, .apply "+" given ∈ root.calls → (given : Int) = 1) ∧
        .sum ≠ f ∧
          ∀ x, after.evalNode root [.real x] = after.enter .sum [.real x, .real x] := by
  intro w code after
  have found : after.library.callee "+" 2 = .ok .sum := rfl
  refine ⟨.start "param", _, .apply "+" [.param 0, .param 0], rfl, rfl, rfl, fun one => ?_,
    fun same => ?_, fun x => ?_⟩
  · cases one 2 List.mem_cons_self
  · cases congrArg Function.predefined same
  · have best : after.library.choose "+" [.real x, .real x] .sum = .sum := rfl
    have given : parameterAt [Value.real x] 0 = .ok (.real x) := rfl
    have count : [Node.param 0, .param 0].length = 2 := rfl
    simp only [Workspace.evalNode, Node.eval, Node.evalAll, count, found, given, Run.ofExcept_ok,
      pure_bind, best, Workspace.enter]

end Formulary
