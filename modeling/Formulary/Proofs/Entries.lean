import Formulary.Proofs.Resolution
import Formulary.Workspace.Basic

/-! # Calls from outside and calls in trees

A call from outside asks whether the name is there, then for the overload that fits best,
then for one with the right number of parameters. A call in a tree asks first for one with
the right number of parameters, which it needs before it knows its arguments, and then for
the overload that fits best. Since an overload that fits has the right number of
parameters, the two come to the same function, or both to none for the same reason.
-/

namespace Formulary

theorem Datum.toValues_map_value (vs : List Value) :
    Datum.toValues (vs.map .value) = .ok vs := by
  induction vs with
  | nil => rfl
  | cons v vs ih =>
      rw [List.map_cons, toValues, toValue, ih]
      rfl

theorem Node.evalAll_map_const (l : Library) (invoke : Function → List Value → Run Value)
    (parameters vs : List Value) :
    evalAll l invoke parameters (vs.map .const) = pure vs := by
  induction vs with
  | nil => rfl
  | cons v vs ih =>
      rw [List.map_cons, evalAll, eval, ih]
      rfl

namespace Library

variable {l : Library} {name : String} {arguments : List Value} {f : Function}

theorem overloads_eq_nil_iff : l.overloads name = [] ↔ l.contains name = false := by
  rw [← Bool.not_eq_true, contains_iff, List.eq_nil_iff_forall_not_mem, not_exists]

theorem resolve?_of_ofArity?_eq_none (absent : l.ofArity? name arguments.length = none) :
    l.resolve? name (arguments.map Value.type) = none := by
  rw [Option.eq_none_iff_forall_ne_some]
  intro f found
  obtain ⟨member, arity⟩ := mem_of_resolve? found
  rw [List.length_map] at arity
  obtain ⟨g, first⟩ := exists_ofArity?_iff.mpr ⟨f, member, arity⟩
  rw [absent] at first
  cases first

theorem resolve?_or_ofArity? (found : l.ofArity? name arguments.length = some f) :
    (l.resolve? name (arguments.map Value.type)).or (l.ofArity? name arguments.length) =
      some (l.choose name arguments f) := by
  rw [found, choose]
  cases l.resolve? name (arguments.map Value.type) <;> rfl

theorem entry_of_unknown (unknown : l.overloads name = []) :
    l.entry name arguments = .error (.unknownFunction name) := by
  rw [entry, overloads_eq_nil_iff.mp unknown]
  rfl

theorem entry_of_unsuitable (known : l.overloads name ≠ [])
    (absent : l.ofArity? name arguments.length = none) :
    l.entry name arguments =
      .error (.noOverload name arguments.length ((l.overloads name).map (·.signature))) := by
  have named : l.contains name = true := by
    rwa [← Bool.not_eq_false, ← overloads_eq_nil_iff]
  rw [entry, if_pos named, resolve?_of_ofArity?_eq_none absent, absent]
  rfl

theorem entry_of_suitable (found : l.ofArity? name arguments.length = some f) :
    l.entry name arguments = .ok (l.choose name arguments f) := by
  have named : l.contains name = true := contains_iff.mpr ⟨f, (mem_of_ofArity? found).1⟩
  rw [entry, if_pos named, resolve?_or_ofArity? found]

/-- A call from outside enters an overload that takes as many arguments as it gets. -/
theorem entry_spec (entered : l.entry name arguments = .ok f) :
    f ∈ l.overloads name ∧ f.arity = arguments.length := by
  cases found : l.ofArity? name arguments.length with
  | some g =>
      obtain ⟨member, arity⟩ := mem_of_ofArity? found
      rw [entry_of_suitable found] at entered
      cases entered
      exact choose_spec member arity
  | none =>
      by_cases known : l.overloads name = []
      · rw [entry_of_unknown known] at entered
        cases entered
      · rw [entry_of_unsuitable known found] at entered
        cases entered

theorem callee_of_unknown {given : Nat} (unknown : l.overloads name = []) :
    l.callee name given = .error (.unknownFunction name) := by
  rw [callee, unknown]

theorem callee_of_unsuitable {given : Nat} (known : l.overloads name ≠ [])
    (absent : l.ofArity? name given = none) :
    ∃ first, l.callee name given = .error (.unsuitableCall first given) := by
  unfold callee
  split
  · rename_i unknown
    exact (known unknown).elim
  · rw [absent]
    exact ⟨_, rfl⟩

end Library

namespace Workspace

theorem call_values (w : Workspace) (name : String) (arguments : List Value) :
    w.call name (arguments.map .value) =
      Run.ofExcept (w.library.entry name arguments) >>= fun f => w.enter f arguments := by
  simp only [call, Datum.toValues_map_value, Run.ofExcept_ok, pure_bind]
  rfl

theorem evalNode_apply_const (w : Workspace) (name : String) (arguments parameters : List Value) :
    w.evalNode (.apply name (arguments.map .const)) parameters =
      Run.ofExcept (w.library.callee name arguments.length) >>=
        fun f => w.enter (w.library.choose name arguments f) arguments := by
  simp only [evalNode, Node.eval, Node.evalAll_map_const, List.length_map, pure_bind]
  rfl

/-- A call from outside and a call in a tree, whatever tree it is in, come to the same: the
    name is unknown to both, or neither finds an overload for so many arguments, or both
    enter the one that fits best or else the first for so many arguments. From there on
    they are one run, with the same value or error and the same calls. -/
theorem call_eq_evalNode (w : Workspace) (name : String) (arguments parameters : List Value) :
    let overloads := w.library.overloads name
    let outside := w.call name (arguments.map .value)
    let inside := w.evalNode (.apply name (arguments.map .const)) parameters
    (overloads = [] ∧ outside = Run.fail (.unknownFunction name) ∧
        inside = Run.fail (.unknownFunction name)) ∨
      (overloads ≠ [] ∧ (∀ f ∈ overloads, f.arity ≠ arguments.length) ∧
        ∃ e e', outside = Run.fail e ∧ e.kind = .invalidParameters ∧
          inside = Run.fail e' ∧ e'.kind = .invalidParameters) ∨
      ∃ f ∈ overloads, f.arity = arguments.length ∧
        (w.library.resolve? name (arguments.map Value.type)).or
          (w.library.ofArity? name arguments.length) = some f ∧
        outside = w.enter f arguments ∧ inside = w.enter f arguments := by
  intro overloads outside inside
  have outside_eq : outside = _ := w.call_values name arguments
  have inside_eq : inside = _ := w.evalNode_apply_const name arguments parameters
  by_cases known : overloads = []
  · rw [Library.entry_of_unknown known] at outside_eq
    rw [Library.callee_of_unknown known] at inside_eq
    exact .inl ⟨known, outside_eq, inside_eq⟩
  · cases found : w.library.ofArity? name arguments.length with
    | none =>
        obtain ⟨first, unsuitable⟩ := Library.callee_of_unsuitable known found
        have others : ∀ f ∈ overloads, f.arity ≠ arguments.length := by
          intro f member arity
          obtain ⟨g, there⟩ := Library.exists_ofArity?_iff.mpr ⟨f, member, arity⟩
          rw [found] at there
          cases there
        rw [Library.entry_of_unsuitable known found] at outside_eq
        rw [unsuitable] at inside_eq
        exact .inr (.inl ⟨known, others, _, _, outside_eq, rfl, inside_eq, rfl⟩)
    | some f =>
        obtain ⟨member, arity⟩ := Library.mem_of_ofArity? found
        obtain ⟨chosen, suits⟩ := Library.choose_spec member arity
        rw [Library.entry_of_suitable found] at outside_eq
        rw [Library.callee_eq_ok_iff.mpr found] at inside_eq
        refine .inr (.inr ⟨_, chosen, suits, ?_, outside_eq, inside_eq⟩)
        rw [← found, Library.resolve?_or_ofArity? found]

end Workspace

end Formulary
