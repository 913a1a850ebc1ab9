import Formulary.Proofs.Inlining
import Formulary.Proofs.Limits
import Formulary.Proofs.ListOperations

/-! # Mapping twice

Mapping one function over what mapping another one gives makes all calls of the one before the
first call of the other. Mapping their composition takes the two calls for each element
together, and enters one function more for it. So the two may fail differently; but they end
with values in the same cases, and then with the same.
-/

namespace Formulary

namespace Run

variable {α β γ : Type}

theorem outcome_mapM_cons {f : α → Run β} {x : α} {xs : List α} {ys : List β} :
    ((x :: xs).mapM f).outcome = .value ys ↔
      ∃ z zs, (f x).outcome = .value z ∧ (xs.mapM f).outcome = .value zs ∧ ys = z :: zs := by
  simp only [List.mapM_cons, outcome_bind_eq_value]
  constructor
  · rintro ⟨z, here, zs, there, ended⟩
    cases ended
    exact ⟨z, zs, here, there, rfl⟩
  · rintro ⟨z, zs, here, there, rfl⟩
    exact ⟨z, here, zs, there, rfl⟩

/-- Running one step for all elements and then the next step for all results gives what running
    both steps for one element after the other gives. -/
theorem outcome_mapM_mapM {first : α → Run β} {second : β → Run γ} {xs : List α} {zs : List γ} :
    (∃ ys, (xs.mapM first).outcome = .value ys ∧ (ys.mapM second).outcome = .value zs) ↔
      (xs.mapM fun x => first x >>= second).outcome = .value zs := by
  induction xs generalizing zs with
  | nil =>
      constructor
      · rintro ⟨_, ended, rest⟩
        cases ended
        exact rest
      · exact fun ended => ⟨[], rfl, ended⟩
  | cons x xs ih =>
      simp only [outcome_mapM_cons, ← ih, outcome_bind_eq_value]
      constructor
      · rintro ⟨_, ⟨y, ys, here, there, rfl⟩, rest⟩
        obtain ⟨z, zs', next, others, rfl⟩ := outcome_mapM_cons.mp rest
        exact ⟨z, zs', ⟨y, here, next⟩, ⟨ys, there, others⟩, rfl⟩
      · rintro ⟨z, zs', ⟨y, here, next⟩, ⟨ys, there, others⟩, rfl⟩
        exact ⟨_, ⟨y, ys, here, there, rfl⟩,
          outcome_mapM_cons.mpr ⟨z, zs', next, others, rfl⟩⟩

theorem outcome_mapM_mapM_bind {δ : Type} {first : α → Run β} {second : β → Run γ} {xs : List α}
    {next : List γ → Run δ} {d : δ} :
    ((xs.mapM first) >>= fun ys => ys.mapM second >>= next).outcome = .value d ↔
      ((xs.mapM fun x => first x >>= second) >>= next).outcome = .value d := by
  simp only [outcome_bind_eq_value, ← outcome_mapM_mapM]
  constructor
  · rintro ⟨ys, there, zs, rest, ended⟩
    exact ⟨zs, ⟨ys, there, rest⟩, ended⟩
  · rintro ⟨zs, ⟨ys, there, rest⟩, ended⟩
    exact ⟨ys, there, zs, rest, ended⟩

end Run

theorem Rule.ofCode_composition {l : Library} {f g : String} (outer : (Call.apply f 1).Fits l)
    (inner : (Call.apply g 1).Fits l) :
    Rule.ofCode l [.param 0, .apply g, .apply f] = .ok ⟨.apply f [.apply g [.param 0]], 1⟩ := by
  have gapFree : GapFree [0] 1 := by
    intro i
    rw [List.mem_singleton]
    omega
  exact Rule.ofCode_eq_ok_iff.mpr
    ⟨rfl, ⟨outer, ⟨inner, trivial, trivial⟩, trivial⟩, gapFree⟩

theorem Workspace.build_composition {v : Workspace} {f g h : String} {composed : Function}
    (outer : (Call.apply f 1).Fits v.library) (inner : (Call.apply g 1).Fits v.library)
    (built : (v.build h [.param 0, .apply g, .apply f]).2 = .ok composed) :
    composed.arity = 1 ∧ composed.body = .tree (.apply f [.apply g [.param 0]]) := by
  obtain ⟨rule, written, rfl⟩ := build_made built
  have reading := (Rule.written_eq_ok_iff.mp written).1
  rw [Rule.ofCode_composition outer inner] at reading
  cases reading
  exact ⟨functionOf_arity _ _ _, rfl⟩

/-- A library in which `h` is only what calls `f` with what `g` makes of its argument. For a
    single argument these two fall back on the given functions. -/
structure Library.Composes (l : Library) (f g h : String) (outer inner composed : Function) :
    Prop where
  outer : l.ofArity? f 1 = some outer
  inner : l.ofArity? g 1 = some inner
  only : l.overloads h = [composed]
  unary : composed.arity = 1
  body : composed.body = .tree (.apply f [.apply g [.param 0]])

namespace Library.Composes

variable {l : Library} {f g h : String} {outer inner composed : Function}
  {xs parameters : List Value} {u : Value}

theorem operands (composes : l.Composes f g h outer inner composed) :
    l.operand .map f = .ok outer ∧ l.operand .map g = .ok inner ∧
      l.operand .map h = .ok composed := by
  refine ⟨operand_eq_ok_iff.mpr composes.outer, operand_eq_ok_iff.mpr composes.inner,
    operand_eq_ok_iff.mpr ?_⟩
  rw [ofArity?, composes.only]
  exact List.find?_cons_of_pos (decide_eq_true composes.unary)

theorem callees (composes : l.Composes f g h outer inner composed) :
    l.callee f 1 = .ok outer ∧ l.callee g 1 = .ok inner :=
  ⟨callee_eq_ok_iff.mpr composes.outer, callee_eq_ok_iff.mpr composes.inner⟩

theorem choose (composes : l.Composes f g h outer inner composed) (arguments : List Value) :
    l.choose h arguments composed = composed := by
  have member : composed ∈ l.overloads h := by
    rw [composes.only]
    exact List.mem_singleton_self composed
  have chosen : l.choose h arguments composed ∈ l.overloads h := mem_choose member
  rw [composes.only] at chosen
  exact List.mem_singleton.mp chosen

/-- Entering the composition is calling the one function and then the other. -/
theorem invoke_eq (composes : l.Composes f g h outer inner composed) (depth : Nat) (x : Value) :
    l.invoke (depth + 1) composed [x] =
      l.invoke depth (l.choose g [x] inner) [x] >>= fun y =>
        l.invoke depth (l.choose f [y] outer) [y] := by
  obtain ⟨outerCallee, innerCallee⟩ := composes.callees
  have argument : parameterAt [x] 0 = .ok x := rfl
  have count : [x].length = composed.arity := composes.unary.symm
  rw [invoke_tree composes.body count]
  simp only [Node.eval, Node.evalAll, List.length_singleton, outerCallee, innerCallee, argument,
    Run.ofExcept_ok, pure_bind, bind_assoc]

theorem invokeWithin_eq (composes : l.Composes f g h outer inner composed) (limit : Nat)
    (x : Value) :
    l.invokeWithin (limit + 4) composed [x] =
      l.invokeWithin (limit + 1) (l.choose g [x] inner) [x] >>= fun y =>
        l.invokeWithin (limit + 2) (l.choose f [y] outer) [y] := by
  obtain ⟨outerCallee, innerCallee⟩ := composes.callees
  have argument : parameterAt [x] 0 = .ok x := rfl
  have count : [x].length = composed.arity := composes.unary.symm
  rw [invokeWithin, Function.enterBody, if_neg (by simpa using count), composes.body]
  simp only [Node.evalWithin, Node.evalTop, List.mapM_cons, List.mapM_nil, List.length_singleton,
    outerCallee, innerCallee, argument, Run.ofExcept_ok, pure_bind, bind_assoc]

theorem eval_iff (composes : l.Composes f g h outer inner composed) (depth : Nat) :
    ((Node.map f (.map g (.const (.list xs)))).eval l (l.invoke depth) parameters).outcome =
        .value u ↔
      ((Node.map h (.const (.list xs))).eval l (l.invoke (depth + 1)) parameters).outcome =
        .value u := by
  obtain ⟨outerOperand, innerOperand, operand⟩ := composes.operands
  simp only [Node.eval, outerOperand, innerOperand, operand, composes.choose, composes.invoke_eq,
    Run.ofExcept_ok, pure_bind, bind_assoc, elementsFor, Run.outcome_mapM_mapM_bind]

/-- With a limit on nodes as well, the composition takes two levels more. -/
theorem evalWithin_iff (composes : l.Composes f g h outer inner composed) (limit : Nat) :
    (Node.evalWithin l (limit + 3) parameters (.map f (.map g (.const (.list xs))))).outcome =
        .value u ↔
      (Node.evalWithin l (limit + 5) parameters (.map h (.const (.list xs)))).outcome =
        .value u := by
  obtain ⟨outerOperand, innerOperand, operand⟩ := composes.operands
  simp only [Node.evalWithin, Node.evalTop, outerOperand, innerOperand, operand, composes.choose,
    composes.invokeWithin_eq, Run.ofExcept_ok, pure_bind, bind_assoc, elementsFor,
    Run.outcome_mapM_mapM_bind]

end Library.Composes

/-- Mapping twice is mapping the composition. Where a function calls `f` with what `g` makes of
    its only argument, mapping it over a list ends with a value in the same cases as mapping `f`
    over what mapping `g` gives, and with the same value. The composition takes one level of calls
    more; with a limit on the levels of nodes and calls one of the two ends with a value within
    some limit when the other one does. -/
theorem Library.map_composition {l : Library} {v : Workspace} {f g h : String}
    {composed : Function} (outer : (Call.apply f 1).Fits l) (inner : (Call.apply g 1).Fits l)
    (outer' : (Call.apply f 1).Fits v.library) (inner' : (Call.apply g 1).Fits v.library)
    (built : (v.build h [.param 0, .apply g, .apply f]).2 = .ok composed)
    (only : l.overloads h = [composed]) (xs parameters : List Value) (u : Value) :
    let twice : Node := .map f (.map g (.const (.list xs)))
    let once : Node := .map h (.const (.list xs))
    (∀ depth, (twice.eval l (l.invoke depth) parameters).outcome = .value u ↔
      (once.eval l (l.invoke (depth + 1)) parameters).outcome = .value u) ∧
    ((∃ limit, (Node.evalWithin l limit parameters twice).outcome = .value u) ↔
      ∃ limit, (Node.evalWithin l limit parameters once).outcome = .value u) := by
  intro twice once
  obtain ⟨unary, body⟩ := Workspace.build_composition outer' inner' built
  obtain ⟨first, firstDefault, firstUnary⟩ := outer
  obtain ⟨second, secondDefault, secondUnary⟩ := inner
  have composes : l.Composes f g h first second composed :=
    { outer := firstUnary ▸ ofArity?_of_default? firstDefault
      inner := secondUnary ▸ ofArity?_of_default? secondDefault
      only, unary, body }
  refine ⟨composes.eval_iff, ?_⟩
  -- Whatever the limit is, a larger one leads to the same value.
  have raised {n : Node} {limit : Nat} (more : Nat)
      (ended : (Node.evalWithin l limit parameters n).outcome = .value u) :
      (Node.evalWithin l (limit + more) parameters n).outcome = .value u :=
    ((within_mono (Nat.le_add_right limit more)).2 parameters n).value ended
  constructor
  · rintro ⟨limit, ended⟩
    exact ⟨limit + 5, (composes.evalWithin_iff limit).mp (raised 3 ended)⟩
  · rintro ⟨limit, ended⟩
    exact ⟨limit + 3, (composes.evalWithin_iff limit).mpr (raised 5 ended)⟩

/-- One function in both places, over an element that its overload for one argument does not
    accept. -/
theorem Library.map_composition_tuple :
    let v : Workspace :=
      { library := ⟨[.tuple [.integer] 0, .tuple [.integer, .integer] 1]⟩, nextSerial := 2,
        journal := [] }
    let composed : Function := v.functionOf "h" ⟨.apply "tuple" [.apply "tuple" [.param 0]], 1⟩
    let l : Library := ⟨[.tuple [.integer] 0, .tuple [.integer, .integer] 1, composed]⟩
    let elements := Node.const (.list [.integer 1, .boolean true])
    let nested (v : Value) : Value := .list [.list [v]]
    (v.build "h" [.param 0, .apply "tuple", .apply "tuple"]).2 = .ok composed ∧
      ((Node.map "tuple" (.map "tuple" elements)).eval l (l.invoke 1) []).outcome =
        .value (.list [nested (.integer 1), nested (.boolean true)]) ∧
      ((Node.map "h" elements).eval l (l.invoke 2) []).outcome =
        .value (.list [nested (.integer 1), nested (.boolean true)]) ∧
      ∃ limit, (Node.evalWithin l limit [] (.map "h" elements)).outcome =
        .value (.list [nested (.integer 1), nested (.boolean true)]) := by
  intro v composed l elements nested
  have fits : (Call.apply "tuple" 1).Fits l := ⟨_, rfl, rfl⟩
  have fits' : (Call.apply "tuple" 1).Fits v.library := ⟨_, rfl, rfl⟩
  have built : (v.build "h" [.param 0, .apply "tuple", .apply "tuple"]).2 = .ok composed := rfl
  obtain ⟨atDepth, within⟩ := map_composition fits fits fits' fits' built rfl
    [.integer 1, .boolean true] [] (.list [nested (.integer 1), nested (.boolean true)])
  exact ⟨built, rfl, (atDepth 1).mp rfl, within.mp ⟨4, rfl⟩⟩

end Formulary
