import Formulary.Proofs.Entries
import Formulary.Proofs.Runs

/-! # Calls over lists

Mapping calls a function for one element after the other, and folding does so with what the
call before has given. Each of these calls is one that a host could have made itself: the
overload is chosen anew for every element, by the types that the arguments have then. The
first call that fails ends the whole, and no later one is made.
-/

namespace Formulary

namespace Run

variable {α β : Type}

theorem bind_eq_value_iff {r : Run α} {next : α → Run β} {calls : List HostCall} {b : β} :
    r >>= next = ⟨calls, .value b⟩ ↔
      ∃ earlier a later, r = ⟨earlier, .value a⟩ ∧ next a = ⟨later, .value b⟩ ∧
        calls = earlier ++ later := by
  obtain ⟨made, outcome⟩ := r
  cases outcome with
  | value a =>
      cases ended : next a with
      | mk later result => simp [Bind.bind, andThen, ended, eq_comm, and_comm]
  | error | tooDeep => simp [Bind.bind, andThen]

theorem ended_bind_eq_iff {made calls : List HostCall} {a : α} {next : α → Run β}
    {outcome : Outcome β} :
    (⟨made, .value a⟩ : Run α) >>= next = ⟨calls, outcome⟩ ↔
      ∃ later, next a = ⟨later, outcome⟩ ∧ calls = made ++ later := by
  cases ended : next a with
  | mk later result => simp [Bind.bind, andThen, ended, eq_comm, and_comm]

theorem bind_eq_error_iff {r : Run α} {next : α → Run β} {calls : List HostCall} {e : EvalError} :
    r >>= next = ⟨calls, .error e⟩ ↔
      r = ⟨calls, .error e⟩ ∨
        ∃ earlier a later, r = ⟨earlier, .value a⟩ ∧ next a = ⟨later, .error e⟩ ∧
          calls = earlier ++ later := by
  obtain ⟨made, outcome⟩ := r
  cases outcome with
  | value a =>
      cases ended : next a with
      | mk later result => simp [Bind.bind, andThen, ended, eq_comm, and_comm]
  | error | tooDeep => simp [Bind.bind, andThen]

/-- The runs of all elements end with values, in order, and these are all the calls. -/
inductive MapsTo (f : α → Run β) : List α → List HostCall → List β → Prop
  | nil : MapsTo f [] [] []
  | cons {x xs y ys calls later} (here : f x = ⟨calls, .value y⟩) (rest : MapsTo f xs later ys) :
      MapsTo f (x :: xs) (calls ++ later) (y :: ys)

/-- The run of some element fails after those of the elements before it have ended with values,
    and these are all the calls: nothing is run for the elements behind it. -/
inductive MapFails (f : α → Run β) : List α → List HostCall → EvalError → Prop
  | here {x xs calls e} (failed : f x = ⟨calls, .error e⟩) : MapFails f (x :: xs) calls e
  | later {x xs y calls later e} (here : f x = ⟨calls, .value y⟩)
      (rest : MapFails f xs later e) : MapFails f (x :: xs) (calls ++ later) e

theorem mapM_eq_value_iff {f : α → Run β} {xs : List α} {calls : List HostCall} {ys : List β} :
    xs.mapM f = ⟨calls, .value ys⟩ ↔ MapsTo f xs calls ys := by
  induction xs generalizing calls ys with
  | nil =>
      rw [List.mapM_nil]
      constructor
      · intro ended
        cases ended
        exact .nil
      · intro maps
        cases maps
        rfl
  | cons x xs ih =>
      simp only [List.mapM_cons, bind_eq_value_iff, ih]
      constructor
      · rintro ⟨earlier, y, _, here, ⟨later, zs, _, rest, ended, rfl⟩, rfl⟩
        cases ended
        rw [List.append_nil]
        exact .cons here rest
      · intro maps
        cases maps with
        | cons here rest =>
            exact ⟨_, _, _, here, ⟨_, _, [], rest, rfl, (List.append_nil _).symm⟩, rfl⟩

theorem mapM_eq_error_iff {f : α → Run β} {xs : List α} {calls : List HostCall} {e : EvalError} :
    xs.mapM f = ⟨calls, .error e⟩ ↔ MapFails f xs calls e := by
  induction xs generalizing calls with
  | nil =>
      rw [List.mapM_nil]
      constructor
      · intro ended
        cases ended
      · intro fails
        cases fails
  | cons x xs ih =>
      simp only [List.mapM_cons, bind_eq_error_iff, ih]
      constructor
      · rintro (failed | ⟨earlier, y, _, here, rest | ⟨_, _, _, _, ended, _⟩, rfl⟩)
        · exact .here failed
        · exact .later here rest
        · cases ended
      · intro fails
        cases fails with
        | here failed => exact .inl failed
        | later here rest => exact .inr ⟨_, _, _, here, .inl rest, rfl⟩

/-- Each run takes up what the one before has ended with, the first one what is there at the
    start, and the last one ends with the result; these are all the calls. -/
inductive FoldsTo (f : β → α → Run β) : β → List α → List HostCall → β → Prop
  | nil {b} : FoldsTo f b [] [] b
  | cons {b x xs c d calls later} (here : f b x = ⟨calls, .value c⟩)
      (rest : FoldsTo f c xs later d) : FoldsTo f b (x :: xs) (calls ++ later) d

/-- The run of some element fails, with what those of the elements before it have come to, and
    these are all the calls: nothing is run for the elements behind it. -/
inductive FoldFails (f : β → α → Run β) : β → List α → List HostCall → EvalError → Prop
  | here {b x xs calls e} (failed : f b x = ⟨calls, .error e⟩) : FoldFails f b (x :: xs) calls e
  | later {b x xs c calls later e} (here : f b x = ⟨calls, .value c⟩)
      (rest : FoldFails f c xs later e) : FoldFails f b (x :: xs) (calls ++ later) e

theorem foldlM_eq_value_iff {f : β → α → Run β} {b c : β} {xs : List α} {calls : List HostCall} :
    xs.foldlM f b = ⟨calls, .value c⟩ ↔ FoldsTo f b xs calls c := by
  induction xs generalizing b calls with
  | nil =>
      rw [List.foldlM_nil]
      constructor
      · intro ended
        cases ended
        exact .nil
      · intro folds
        cases folds
        rfl
  | cons x xs ih =>
      simp only [List.foldlM_cons, bind_eq_value_iff, ih]
      constructor
      · rintro ⟨earlier, d, later, here, rest, rfl⟩
        exact .cons here rest
      · intro folds
        cases folds with
        | cons here rest => exact ⟨_, _, _, here, rest, rfl⟩

theorem foldlM_eq_error_iff {f : β → α → Run β} {b : β} {xs : List α} {calls : List HostCall}
    {e : EvalError} : xs.foldlM f b = ⟨calls, .error e⟩ ↔ FoldFails f b xs calls e := by
  induction xs generalizing b calls with
  | nil =>
      rw [List.foldlM_nil]
      constructor
      · intro ended
        cases ended
      · intro fails
        cases fails
  | cons x xs ih =>
      simp only [List.foldlM_cons, bind_eq_error_iff, ih]
      constructor
      · rintro (failed | ⟨earlier, c, later, here, rest, rfl⟩)
        · exact .here failed
        · exact .later here rest
      · intro fails
        cases fails with
        | here failed => exact .inl failed
        | later here rest => exact .inr ⟨_, _, _, here, rest, rfl⟩

end Run

namespace Workspace

variable {w : Workspace} {name : String} {parameters : List Value}

/-- Where there is an overload for so many arguments, a host that calls the function enters the
    one that a tree would choose. -/
theorem call_of_ofArity? {arguments : List Value} {f : Function}
    (found : w.library.ofArity? name arguments.length = some f) :
    w.call name (arguments.map .value) = w.enter (w.library.choose name arguments f) arguments := by
  rw [call_values, Library.entry_of_suitable found, Run.ofExcept_ok, pure_bind]

theorem evalNode_map {list : Node} {xs : List Value}
    (unary : ∃ f ∈ w.library.overloads name, f.arity = 1)
    (ended : (w.evalNode list parameters).outcome = .value (.list xs)) :
    w.evalNode (.map name list) parameters =
      w.evalNode list parameters >>= fun _ =>
        (xs.mapM fun x => w.call name [.value x]) >>= fun ys => pure (.list ys) := by
  obtain ⟨f, found⟩ := Library.exists_ofArity?_iff.mpr unary
  have each (x : Value) : w.call name [.value x] =
      w.library.invoke w.depth (w.library.choose name [x] f) [x] := by
    have found : w.library.ofArity? name [x].length = some f := found
    exact call_of_ofArity? found
  have operand : w.library.operand .map name = .ok f := Library.operand_eq_ok_iff.mpr found
  simp only [each]
  simp only [evalNode, Node.eval, operand, Run.ofExcept_ok, pure_bind]
  refine Run.bind_congr_value fun v result => ?_
  have same : v = .list xs := by
    rw [evalNode, result] at ended
    injection ended
  simp only [same, elementsFor, Run.ofExcept_ok, pure_bind]

theorem evalNode_reduce {first list : Node} {a : Value} {xs : List Value}
    (binary : ∃ f ∈ w.library.overloads name, f.arity = 2)
    (start : (w.evalNode first parameters).outcome = .value a)
    (ended : (w.evalNode list parameters).outcome = .value (.list xs)) :
    w.evalNode (.reduce name first list) parameters =
      w.evalNode first parameters >>= fun _ => w.evalNode list parameters >>= fun _ =>
        xs.foldlM (fun a x => w.call name [.value a, .value x]) a := by
  obtain ⟨f, found⟩ := Library.exists_ofArity?_iff.mpr binary
  have each (a x : Value) : w.call name [.value a, .value x] =
      w.library.invoke w.depth (w.library.choose name [a, x] f) [a, x] := by
    have found : w.library.ofArity? name [a, x].length = some f := found
    exact call_of_ofArity? found
  have operand : w.library.operand .reduce name = .ok f := Library.operand_eq_ok_iff.mpr found
  simp only [each]
  simp only [evalNode, Node.eval, operand, Run.ofExcept_ok, pure_bind]
  refine Run.bind_congr_value fun b result => ?_
  refine Run.bind_congr_value fun v result' => ?_
  have same : b = a := by
    rw [evalNode, result] at start
    injection start
  have same' : v = .list xs := by
    rw [evalNode, result'] at ended
    injection ended
  simp only [same, same', elementsFor, Run.ofExcept_ok, pure_bind]

theorem evalNode_reduce_append (w : Workspace) (name : String) (parameters : List Value)
    (first : Node) (xs ys : List Value) :
    w.evalNode (.reduce name first (.const (.list (xs ++ ys)))) parameters =
      w.evalNode (.reduce name first (.const (.list xs))) parameters >>= fun a =>
        w.evalNode (.reduce name (.const a) (.const (.list ys))) parameters := by
  simp only [evalNode, Node.eval, pure_bind, elementsFor, Run.ofExcept_ok]
  cases w.library.operand .reduce name with
  | error e => rfl
  | ok f => simp only [Run.ofExcept_ok, pure_bind, bind_assoc, List.foldlM_append]

/-- Map and reduce nodes are the calls that a host would make for one element after the other.
    A map node ends with the list of what these calls end with, or as the first of them fails; a
    reduce node ends with what the calls come to that each take up what the one before has
    given, or as the first of them fails. Once a call has failed no other is made. Hence a fold
    over two lists in a row is a fold over the first that goes on over the second. -/
theorem evalNode_overList (w : Workspace) (name : String) (parameters : List Value) :
    ((∃ f ∈ w.library.overloads name, f.arity = 1) → ∀ list xs made,
      w.evalNode list parameters = ⟨made, .value (.list xs)⟩ →
        let call (x : Value) := w.call name [.value x]
        let node := w.evalNode (.map name list) parameters
        (∀ calls v, node = ⟨calls, .value v⟩ ↔
          ∃ later ys, Run.MapsTo call xs later ys ∧ v = .list ys ∧ calls = made ++ later) ∧
        ∀ calls e, node = ⟨calls, .error e⟩ ↔
          ∃ later, Run.MapFails call xs later e ∧ calls = made ++ later) ∧
    ((∃ f ∈ w.library.overloads name, f.arity = 2) → ∀ first list a xs made made',
      w.evalNode first parameters = ⟨made, .value a⟩ →
      w.evalNode list parameters = ⟨made', .value (.list xs)⟩ →
        let call (a x : Value) := w.call name [.value a, .value x]
        let node := w.evalNode (.reduce name first list) parameters
        (∀ calls v, node = ⟨calls, .value v⟩ ↔
          ∃ later, Run.FoldsTo call a xs later v ∧ calls = made ++ (made' ++ later)) ∧
        ∀ calls e, node = ⟨calls, .error e⟩ ↔
          ∃ later, Run.FoldFails call a xs later e ∧ calls = made ++ (made' ++ later)) ∧
    ∀ first xs ys,
      w.evalNode (.reduce name first (.const (.list (xs ++ ys)))) parameters =
        w.evalNode (.reduce name first (.const (.list xs))) parameters >>= fun a =>
          w.evalNode (.reduce name (.const a) (.const (.list ys))) parameters := by
  refine ⟨fun unary list xs made ended => ?_, fun binary first list a xs made made' start ended =>
    ?_, fun first xs ys => w.evalNode_reduce_append name parameters first xs ys⟩
  · have nodes := evalNode_map unary (congrArg Run.outcome ended)
    rw [ended] at nodes
    simp only [nodes, Run.ended_bind_eq_iff]
    constructor
    · intro calls v
      constructor
      · rintro ⟨later, finished, rfl⟩
        obtain ⟨earlier, ys, _, maps, result, rfl⟩ := Run.bind_eq_value_iff.mp finished
        cases result
        exact ⟨_, ys, Run.mapM_eq_value_iff.mp maps, rfl, by rw [List.append_nil]⟩
      · rintro ⟨later, ys, maps, rfl, rfl⟩
        have mapped := Run.mapM_eq_value_iff.mpr maps
        exact ⟨later, Run.bind_eq_value_iff.mpr
          ⟨later, ys, [], mapped, rfl, (List.append_nil later).symm⟩, rfl⟩
    · intro calls e
      have finished (ys : List Value) (later : List HostCall) :
          (pure (.list ys) : Run Value) ≠ ⟨later, .error e⟩ := by
        intro same
        cases same
      simp only [Run.bind_eq_error_iff, finished, false_and, and_false, exists_false, or_false,
        Run.mapM_eq_error_iff]
  · have nodes := evalNode_reduce binary (congrArg Run.outcome start) (congrArg Run.outcome ended)
    rw [start, ended] at nodes
    simp only [nodes, Run.ended_bind_eq_iff, Run.foldlM_eq_value_iff, Run.foldlM_eq_error_iff]
    constructor
    · intro calls v
      constructor
      · rintro ⟨_, ⟨later, folds, rfl⟩, rfl⟩
        exact ⟨later, folds, rfl⟩
      · rintro ⟨later, folds, rfl⟩
        exact ⟨_, ⟨later, folds, rfl⟩, rfl⟩
    · intro calls e
      constructor
      · rintro ⟨_, ⟨later, fails, rfl⟩, rfl⟩
        exact ⟨later, fails, rfl⟩
      · rintro ⟨later, fails, rfl⟩
        exact ⟨_, ⟨later, fails, rfl⟩, rfl⟩

end Workspace

/-- A function with parameters of these types, which lists its arguments. -/
def Function.tuple (types : List Ty) (serial : Nat) : Function where
  signature := ⟨"tuple", types.map (⟨"component", ·⟩), .list⟩
  body := .host true HostProgram.collect
  predefined := false
  serial := serial

/-- Folding nests what mapping puts side by side: from the second element on the first
    component is a list, which no overload accepts, and the call falls back on the one with two
    parameters. -/
theorem Workspace.evalNode_overList_tuple :
    let w : Workspace :=
      { library := ⟨[.tuple [.integer] 0, .tuple [.integer, .integer] 1]⟩, nextSerial := 2,
        journal := [] }
    let made (arguments : List Value) : HostCall := ⟨"tuple", arguments, true⟩
    let one := Value.list [.integer 0, .integer 1]
    let elements := Node.const (.list [.integer 1, .integer 2])
    (∃ f ∈ w.library.overloads "tuple", f.arity = 1) ∧
      (∃ f ∈ w.library.overloads "tuple", f.arity = 2) ∧
      w.evalNode (.map "tuple" elements) [] =
        ⟨[made [.integer 1], made [.integer 2]],
          .value (.list [.list [.integer 1], .list [.integer 2]])⟩ ∧
      w.evalNode (.reduce "tuple" (.const (.integer 0)) elements) [] =
        ⟨[made [.integer 0, .integer 1], made [one, .integer 2]],
          .value (.list [one, .integer 2])⟩ := by
  intro w made one elements
  have unary : ∃ f ∈ w.library.overloads "tuple", f.arity = 1 :=
    ⟨_, List.mem_cons_self, rfl⟩
  have binary : ∃ f ∈ w.library.overloads "tuple", f.arity = 2 :=
    ⟨_, List.mem_cons_of_mem _ List.mem_cons_self, rfl⟩
  obtain ⟨maps, folds, _⟩ := w.evalNode_overList "tuple" []
  refine ⟨unary, binary, ?_, ?_⟩
  · exact ((maps unary elements _ [] rfl).1 _ _).mpr ⟨_, _, .cons rfl (.cons rfl .nil), rfl, rfl⟩
  · exact ((folds binary (.const (.integer 0)) elements _ _ [] [] rfl rfl).1 _ _).mpr
      ⟨_, .cons rfl (.cons rfl .nil), rfl⟩

end Formulary
