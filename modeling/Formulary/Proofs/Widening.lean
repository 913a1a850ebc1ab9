import Formulary.Proofs.Dispatch
import Formulary.Proofs.Locality
import Formulary.Proofs.TypeFailures

/-! # Integers in place of reals

An integer passes for a real wherever one is asked for, and is then rounded to the
nearest one, if it is not too large for that. A program none of whose functions asks for
an integer cannot tell it from that real. Overloads of one name with the same number of
parameters would have the same types throughout, so there is only one of them and the
types of the arguments have no say in which function is called; predefined operations
round the integers that they get; and everything else hands values on as they are.
-/

namespace Formulary

namespace Value

mutual

/-- The value with every integer in it, at any depth, widened to a real. An integer that is too
    large for a real stays as it is. -/
def widen : Value → Value
  | .boolean b => .boolean b
  | .integer n =>
    match nearest n with
    | .ok x => .real x
    | .error _ => .integer n
  | .real x => .real x
  | .list elements => .list (widenAll elements)

def widenAll : List Value → List Value
  | [] => []
  | v :: vs => v.widen :: widenAll vs

end

/-- Whether two values are equal once their integers are widened. -/
def SameWidened (v w : Value) : Prop :=
  v.widen = w.widen

theorem widenAll_eq_iff {vs ws : List Value} :
    widenAll vs = widenAll ws ↔ List.Forall₂ SameWidened vs ws := by
  induction vs generalizing ws with
  | nil => cases ws <;> simp [widenAll]
  | cons v vs ih =>
      cases ws with
      | nil => simp [widenAll]
      | cons w ws => simp [widenAll, SameWidened, ih]

/-- What arithmetic makes of a number. -/
def number? : Value → Option (Except Fault Float)
  | .integer n => some (nearest n)
  | .real x => some (.ok x)
  | .boolean _ | .list _ => none

theorem number?_widen (v : Value) : v.widen.number? = v.number? := by
  cases v with
  | boolean | real | list => rfl
  | integer n =>
      rw [widen]
      cases rounded : nearest n with
      | ok x => rw [number?, number?, rounded]
      | error e => rfl

/-- Values that are equal once widened are truth values, lists or numbers alike. -/
theorem SameWidened.forms {v w : Value} (same : v.SameWidened w) :
    (∃ b, v = .boolean b ∧ w = .boolean b) ∨
      (∃ xs ys, v = .list xs ∧ w = .list ys ∧ List.Forall₂ SameWidened xs ys) ∨
      ∃ x, v.number? = some x ∧ w.number? = some x := by
  have numbers : v.number? = w.number? := by
    rw [← number?_widen v, same, number?_widen]
  cases v with
  | integer | real => exact .inr (.inr ⟨_, rfl, numbers.symm⟩)
  | boolean b =>
      cases w with
      | integer | real => cases numbers
      | boolean c =>
          cases same
          exact .inl ⟨b, rfl, rfl⟩
      | list ys => cases same
  | list xs =>
      cases w with
      | integer | real => cases numbers
      | boolean c => cases same
      | list ys => exact .inr (.inl ⟨xs, ys, rfl, rfl, widenAll_eq_iff.mp (Value.list.inj same)⟩)

end Value

section

variable {a b v w : Value} {vs ws : List Value}

theorem forms_of_number {x : Except Fault Float} (number : v.number? = some x) :
    (∃ n, v = .integer n) ∨ ∃ y, v = .real y := by
  cases v with
  | integer n => exact .inl ⟨n, rfl⟩
  | real y => exact .inr ⟨y, rfl⟩
  | boolean | list => cases number

theorem realArgument_of_number {x : Except Fault Float} (number : v.number? = some x)
    (function : String) : realArgument function v = x.mapError .fault := by
  rcases forms_of_number number with ⟨n, rfl⟩ | ⟨y, rfl⟩ <;> cases number <;> rfl

theorem realArgument_widened (same : a.SameWidened b) (function : String) :
    (Run.ofExcept (realArgument function a)).Related (· = ·)
      (Run.ofExcept (realArgument function b)) := by
  rcases same.forms with ⟨c, rfl, rfl⟩ | ⟨xs, ys, rfl, rfl, _⟩ | ⟨x, first, second⟩
  · exact .refl _
  · exact .fail rfl
  · rw [realArgument_of_number first, realArgument_of_number second]
    exact .refl _

theorem elementsFor_widened (same : v.SameWidened w) (operator : ListOperator) :
    (Run.ofExcept (elementsFor operator v)).Related (List.Forall₂ Value.SameWidened)
      (Run.ofExcept (elementsFor operator w)) := by
  rcases same.forms with ⟨c, rfl, rfl⟩ | ⟨xs, ys, rfl, rfl, elements⟩ | ⟨x, first, second⟩
  · exact .fail rfl
  · exact .pure elements
  · rcases forms_of_number first with ⟨n, rfl⟩ | ⟨y, rfl⟩ <;>
      rcases forms_of_number second with ⟨m, rfl⟩ | ⟨z, rfl⟩ <;> exact .fail rfl

theorem parameterAt_widened (same : List.Forall₂ Value.SameWidened vs ws) (index : Int) :
    (Run.ofExcept (parameterAt vs index)).Related Value.SameWidened
      (Run.ofExcept (parameterAt ws index)) := by
  cases index with
  | negSucc i => exact .fail rfl
  | ofNat i =>
      have length := same.length_eq
      simp only [parameterAt]
      by_cases inside : i < vs.length
      · have there : i < ws.length := by omega
        rw [List.getElem?_eq_getElem inside, List.getElem?_eq_getElem there]
        exact .pure ((List.forall₂_iff_get.mp same).2 i inside there)
      · rw [List.getElem?_eq_none (by omega), List.getElem?_eq_none (by omega)]
        exact .fail rfl

theorem Primitive.apply_widened (p : Primitive) (blind : .integer ∉ p.signature.types)
    (count : vs.length = p.signature.arity) (same : List.Forall₂ Value.SameWidened vs ws) :
    (Run.ofExcept (p.apply vs)).Related Value.SameWidened (Run.ofExcept (p.apply ws)) := by
  obtain ⟨name, operation⟩ := p
  cases operation with
  | constant x =>
      obtain rfl := List.length_eq_zero_iff.mp count
      cases same
      exact .of_reflexive _ fun _ => rfl
  | unary value f =>
      obtain ⟨a, rfl⟩ := List.length_eq_one_iff.mp count
      obtain ⟨b, rfl⟩ := List.length_eq_one_iff.mp (same.length_eq.symm.trans count)
      simp only [List.forall₂_cons, List.forall₂_nil_right_iff, and_true] at same
      simp only [apply, applyBy, pure_bind, Run.ofExcept_bind]
      refine (realArgument_widened same name).bind ?_
      rintro x _ rfl
      exact .of_reflexive _ fun _ => rfl
  | binary lhs rhs f | comparison lhs rhs f =>
      obtain ⟨a, c, rfl⟩ := List.length_eq_two.mp count
      obtain ⟨b, d, rfl⟩ := List.length_eq_two.mp (same.length_eq.symm.trans count)
      simp only [List.forall₂_cons, List.forall₂_nil_right_iff, and_true] at same
      simp only [apply, applyBy, pure_bind, Run.ofExcept_bind]
      refine (realArgument_widened same.1 name).bind ?_
      rintro x _ rfl
      refine (realArgument_widened same.2 name).bind ?_
      rintro y _ rfl
      exact .of_reflexive _ fun _ => rfl
  | indexed value index f =>
      exact (blind (List.mem_cons_of_mem _ List.mem_cons_self)).elim

end

/-- Whether a function is one of the catalog, for whichever library it was made. -/
def Function.FromCatalog (f : Function) : Prop :=
  ∃ p ∈ Primitive.catalog .standard, f.signature = p.signature ∧ f.body = .primitive p

theorem Primitive.fromCatalog_of_mem {f : Function} (member : f ∈ Primitive.functions) :
    f.FromCatalog := by
  obtain ⟨⟨p, serial⟩, there, rfl⟩ := List.mem_map.mp member
  exact ⟨p, List.fst_mem_of_mem_zipIdx there, rfl, rfl⟩

/-- Whether a function was made from code, in whichever workspace. -/
def Function.FromCode (f : Function) : Prop :=
  ∃ (w : Workspace) (name : String) (code : Code), (w.build name code).2 = .ok f

def Function.TakesReals (f : Function) : Prop :=
  f.signature.types = List.replicate f.arity .real

theorem Function.FromCatalog.takesReals {f : Function} (origin : f.FromCatalog)
    (blind : .integer ∉ f.signature.types) : f.TakesReals := by
  obtain ⟨⟨name, operation⟩, _, signature, _⟩ := origin
  simp only [TakesReals, arity, signature] at blind ⊢
  cases operation with
  | indexed value index f =>
      exact (blind (List.mem_cons_of_mem _ List.mem_cons_self)).elim
  | constant | unary | binary | comparison => rfl

theorem Function.FromCode.exists_rule {f : Function} (origin : f.FromCode) :
    ∃ (w : Workspace) (name : String) (code : Code) (rule : Rule),
      Rule.written w.library w.levels code = .ok rule ∧ f = w.functionOf name rule := by
  obtain ⟨w, name, code, made⟩ := origin
  obtain ⟨rule, built, same⟩ := Workspace.build_made made
  exact ⟨w, name, code, rule, built, same⟩

theorem Function.FromCode.takesReals {f : Function} (origin : f.FromCode) : f.TakesReals := by
  obtain ⟨w, name, code, rule, _, rfl⟩ := origin.exists_rule
  rw [TakesReals, Workspace.functionOf_arity, List.eq_replicate_iff]
  simp [Workspace.functionOf, Signature.types, Code.realParameters]

namespace Library

/-- Whether the functions under certain names are predefined or made from code, do not ask
    for integers, and call only functions under these names. -/
structure IntegerBlind (S : Set String) (l : Library) : Prop where
  origin : ∀ f ∈ l.functions, f.name ∈ S → f.FromCatalog ∨ f.FromCode
  noInteger : ∀ f ∈ l.functions, f.name ∈ S → .integer ∉ f.signature.types
  closed : l.ClosedOn S

variable {S : Set String} {l : Library} {name : String}

theorem IntegerBlind.takesReals (blind : l.IntegerBlind S) (inside : name ∈ S) {f : Function}
    (member : f ∈ l.overloads name) : f.TakesReals := by
  obtain ⟨there, rfl⟩ := mem_overloads.mp member
  rcases blind.origin f there inside with catalog | code
  · exact catalog.takesReals (blind.noInteger f there inside)
  · exact code.takesReals

/-- Overloads that take nothing but reals are told apart by their number of parameters, so
    the one to fall back on is the only one that there is. -/
theorem choose_eq_fallback (distinct : l.Distinct)
    (reals : ∀ f ∈ l.overloads name, f.TakesReals) {vs : List Value} {fallback : Function}
    (member : fallback ∈ l.overloads name) (arity : fallback.arity = vs.length) :
    l.choose name vs fallback = fallback := by
  obtain ⟨chosen, suits⟩ := choose_spec member arity
  apply distinct.eq_of_types chosen member
  rw [reals _ chosen, reals _ member, suits, arity]

end Library

section

variable {S : Set String} {l : Library} {invoke : Function → List Value → Run Value}
  {ps qs : List Value}

/-- Entering a function under one of the names makes no difference between an integer and
    its widened real. -/
def EntersBlindly (S : Set String) (l : Library)
    (invoke : Function → List Value → Run Value) : Prop :=
  ∀ f ∈ l.functions, f.name ∈ S → ∀ vs ws, List.Forall₂ Value.SameWidened vs ws →
    (invoke f vs).Related Value.SameWidened (invoke f ws)

theorem EntersBlindly.choose (enters : EntersBlindly S l invoke) (distinct : l.Distinct)
    (blind : l.IntegerBlind S) {name : String} (inside : name ∈ S) {f : Function} {n : Nat}
    (found : l.ofArity? name n = some f) {vs ws : List Value} (length : vs.length = n)
    (same : List.Forall₂ Value.SameWidened vs ws) :
    (invoke (l.choose name vs f) vs).Related Value.SameWidened
      (invoke (l.choose name ws f) ws) := by
  obtain ⟨member, arity⟩ := Library.mem_of_ofArity? found
  obtain ⟨there, named⟩ := Library.mem_overloads.mp member
  have reals := fun g => blind.takesReals (f := g) inside
  have length' := same.length_eq
  rw [Library.choose_eq_fallback distinct reals member (by omega),
    Library.choose_eq_fallback distinct reals member (by omega)]
  exact enters f there (named ▸ inside) vs ws same

namespace Node

mutual

theorem eval_widened (enters : EntersBlindly S l invoke) (distinct : l.Distinct)
    (blind : l.IntegerBlind S) (same : List.Forall₂ Value.SameWidened ps qs) {n : Node}
    (names : ∀ name ∈ n.names, name ∈ S) :
    (n.eval l invoke ps).Related Value.SameWidened (n.eval l invoke qs) := by
  cases n with
  | const v => exact .pure rfl
  | param index => exact parameterAt_widened same index
  | cond test yes no =>
      simp only [Node.names, List.forall_mem_append] at names
      rw [eval, eval]
      refine (eval_widened enters distinct blind same names.1.1).bind fun v w alike => ?_
      rcases alike.forms with ⟨b, rfl, rfl⟩ | ⟨xs, ys, rfl, rfl, _⟩ | ⟨x, first, second⟩
      · cases b
        · exact eval_widened enters distinct blind same names.2
        · exact eval_widened enters distinct blind same names.1.2
      · exact .fail rfl
      · rcases forms_of_number first with ⟨n, rfl⟩ | ⟨y, rfl⟩ <;>
          rcases forms_of_number second with ⟨m, rfl⟩ | ⟨z, rfl⟩ <;> exact .fail rfl
  | apply name arguments =>
      obtain ⟨inside, others⟩ := List.forall_mem_cons.mp names
      rw [eval, eval]
      refine .ofExcept_bind fun f called => ?_
      have found := Library.callee_eq_ok_iff.mp called
      refine (evalAll_widened enters distinct blind same others).bind fun vs ws values => ?_
      exact enters.choose distinct blind inside found values.1 values.2
  | map name list =>
      obtain ⟨inside, others⟩ := List.forall_mem_cons.mp names
      rw [eval, eval]
      refine .ofExcept_bind fun f called => ?_
      have found := Library.operand_eq_ok_iff.mp called
      refine (eval_widened enters distinct blind same others).bind fun v w alike => ?_
      refine (elementsFor_widened alike .map).bind fun xs ys elements => ?_
      have each : ∀ x y, x.SameWidened y →
          (invoke (l.choose name [x] f) [x]).Related Value.SameWidened
            (invoke (l.choose name [y] f) [y]) := by
        intro x y here
        exact enters.choose distinct blind inside found rfl (.cons here .nil)
      refine (Run.Related.mapM elements each).bind fun as bs results => ?_
      exact .pure (congrArg Value.list (Value.widenAll_eq_iff.mpr results))
  | reduce name first list =>
      obtain ⟨inside, others⟩ := List.forall_mem_cons.mp names
      rw [List.forall_mem_append] at others
      rw [eval, eval]
      refine .ofExcept_bind fun f called => ?_
      have found := Library.operand_eq_ok_iff.mp called
      refine (eval_widened enters distinct blind same others.1).bind fun a b start => ?_
      refine (eval_widened enters distinct blind same others.2).bind fun v w alike => ?_
      refine (elementsFor_widened alike .reduce).bind fun xs ys elements => ?_
      refine Run.Related.foldlM elements start fun c d sofar x y here => ?_
      exact enters.choose distinct blind inside found rfl (.cons sofar (.cons here .nil))
  | stray object => exact .fail rfl
termination_by sizeOf n

theorem evalAll_widened (enters : EntersBlindly S l invoke) (distinct : l.Distinct)
    (blind : l.IntegerBlind S) (same : List.Forall₂ Value.SameWidened ps qs) {ns : List Node}
    (names : ∀ name ∈ namesAll ns, name ∈ S) :
    (evalAll l invoke ps ns).Related
      (fun vs ws => vs.length = ns.length ∧ List.Forall₂ Value.SameWidened vs ws)
      (evalAll l invoke qs ns) := by
  cases ns with
  | nil => exact .pure ⟨rfl, .nil⟩
  | cons n ns =>
      simp only [namesAll, List.forall_mem_append] at names
      rw [evalAll, evalAll]
      refine (eval_widened enters distinct blind same names.1).bind fun v w here => ?_
      refine (evalAll_widened enters distinct blind same names.2).bind fun vs ws others => ?_
      exact .pure ⟨by simp [others.1], .cons here others.2⟩
termination_by sizeOf ns

end

end Node

end

theorem Library.invoke_widened {S : Set String} {l : Library} (distinct : l.Distinct)
    (blind : l.IntegerBlind S) (depth : Nat) : EntersBlindly S l (l.invoke depth) := by
  induction depth with
  | zero =>
      intro f _ _ vs ws _
      exact .tooDeep
  | succ depth ih =>
      intro f member inside vs ws same
      rw [invoke, invoke, same.length_eq]
      split
      · exact .fail rfl
      · rename_i count
        have names := blind.closed f member inside
        rcases blind.origin f member inside with ⟨p, _, signature, body⟩ | code
        · have noInteger := blind.noInteger f member inside
          rw [signature] at noInteger
          rw [body]
          refine p.apply_widened noInteger ?_ same
          rw [same.length_eq, ← signature]
          exact not_not.mp count
        · obtain ⟨w, name, _, rule, _, rfl⟩ := code.exists_rule
          exact rule.root.eval_widened ih distinct blind same names

/-- When the functions that a tree can come to are predefined or made from code, and none
    of them asks for an integer, the tree does not tell integers from the reals that they
    widen to: on parameters that are equal once their integers are widened it ends with
    values that are equal in the same way, with errors of one kind, or in both cases for
    the limit on the depth of calls. -/
theorem Reachable.eval_blind_to_widening {includePredefined : Bool} {w : Workspace}
    {held : List Function} (reached : Reachable includePredefined w held) {S : Set String}
    (blind : w.library.IntegerBlind S) {root : Node} (names : ∀ name ∈ root.names, name ∈ S)
    {ps qs : List Value} (same : List.Forall₂ Value.SameWidened ps qs) (depth : Nat) :
    (root.eval w.library (w.library.invoke depth) ps).Related Value.SameWidened
      (root.eval w.library (w.library.invoke depth) qs) :=
  root.eval_widened (Library.invoke_widened reached.distinct blind depth) reached.distinct blind
    same names

/-- The factorial, with integers among its constants. -/
def Code.factorial : Code :=
  [.param 0, .const (.integer 0), .apply "<=", .const (.integer 1), .param 0,
    .const (.integer 1), .apply "-", .apply "fac", .param 0, .apply "*", .cond]

def Workspace.withFactorial : Workspace :=
  ((initial true "x").defineRecursive "fac" Code.factorial 1).1

def Function.factorial : Function where
  signature := ⟨"fac", [⟨"x0", .real⟩], .real⟩
  body := .tree (.cond (.apply "<=" [.param 0, .const (.integer 0)]) (.const (.integer 1))
    (.apply "*" [.apply "fac" [.apply "-" [.param 0, .const (.integer 1)]], .param 0]))
  predefined := false
  serial := 20

theorem Function.factorial_fromCode : Function.factorial.FromCode :=
  let announced := (Workspace.initial true "x").announce "fac" 1
  ⟨(announced.1.register announced.2).1, "fac", Code.factorial, rfl⟩

theorem Workspace.withFactorial_blind :
    Workspace.withFactorial.library.IntegerBlind {"<=", "-", "*", "fac"} := by
  have functions : withFactorial.library.functions = Primitive.functions ++ [.factorial] := rfl
  have degrees : ∀ f ∈ Primitive.functions, .integer ∈ f.signature.types →
      f.name = "powern" ∨ f.name = "root" := by decide
  constructor
  case' closed => rw [Library.ClosedOn]
  all_goals rw [functions, List.forall_mem_append, List.forall_mem_singleton]
  case origin =>
    refine ⟨fun f member _ => ?_, fun _ => .inr Function.factorial_fromCode⟩
    exact .inl (Primitive.fromCatalog_of_mem member)
  case noInteger =>
    refine ⟨fun f member inside takes => ?_, fun _ => by decide⟩
    rcases degrees f member takes with name | name <;> simp [name] at inside
  case closed =>
    refine ⟨fun f member _ => ?_, fun _ name inside => ?_⟩
    · obtain ⟨p, _, _, body⟩ := Primitive.fromCatalog_of_mem member
      rw [body]
      trivial
    · simp only [Node.names, Node.namesAll] at inside
      grind

/-- The factorials of an integer and of a real, and of two reals. -/
theorem Reachable.eval_blind_to_widening_factorial :
    let l := Workspace.withFactorial.library
    let root : Node := .map "fac" (.param 0)
    let ps := [Value.list [.integer 3, .real 0.5]]
    let qs := [Value.list [.real 3.0, .real 0.5]]
    Reachable true .withFactorial (Primitive.functions ++ [.factorial]) ∧
      l.IntegerBlind {"<=", "-", "*", "fac"} ∧
      (∀ name ∈ root.names, name ∈ ({"<=", "-", "*", "fac"} : Set String)) ∧
      List.Forall₂ Value.SameWidened ps qs ∧
      (root.eval l (l.invoke 9) ps).outcome = .value (.list [.real 6.0, .real 0.5]) ∧
      (root.eval l (l.invoke 9) ps).Related Value.SameWidened
        (root.eval l (l.invoke 9) qs) := by
  intro l root ps qs
  have reached : Reachable true .withFactorial (Primitive.functions ++ [.factorial]) :=
    (Reachable.start "x").defineRecursive "fac" Code.factorial 1
  have blind := Workspace.withFactorial_blind
  have names : ∀ name ∈ root.names, name ∈ ({"<=", "-", "*", "fac"} : Set String) := by
    simp [root, Node.names]
  have same : List.Forall₂ Value.SameWidened ps qs := .cons rfl .nil
  exact ⟨reached, blind, names, same, rfl, reached.eval_blind_to_widening blind names same 9⟩

end Formulary
