import Formulary.Evaluation.Eval

/-! # What resolution finds

Whichever way a name is resolved, the result is an overload of that name. When
it is to take given arguments it also has as many parameters: an overload that
accepts the argument types has, and so has the one to fall back on.
-/

namespace Formulary

theorem length_eq_of_promotions? {arguments parameters : List Ty} {promotions : List Bool}
    (passed : promotions? arguments parameters = some promotions) :
    arguments.length = parameters.length := by
  induction arguments generalizing parameters promotions with
  | nil =>
      cases parameters with
      | nil => rfl
      | cons p ps => simp [promotions?] at passed
  | cons a as ih =>
      cases parameters with
      | nil => simp [promotions?] at passed
      | cons p ps =>
          cases rest : promotions? as ps with
          | none => cases promoted : a.promotion? p <;> simp [promotions?, promoted, rest] at passed
          | some _ => rw [List.length_cons, List.length_cons, ih rest]

theorem Signature.length_eq_of_distance? {s : Signature} {arguments : List Ty} {d : Nat}
    (accepted : s.distance? arguments = some d) : arguments.length = s.arity := by
  obtain ⟨_, passed, _⟩ := Option.map_eq_some_iff.mp accepted
  rw [length_eq_of_promotions? passed, types, List.length_map, arity]

namespace Library

theorem mem_of_ofArity? {l : Library} {name : String} {arity : Nat} {f : Function}
    (found : l.ofArity? name arity = some f) : f ∈ l.overloads name ∧ f.arity = arity := by
  have suits := List.find?_some found
  exact ⟨List.mem_of_find?_eq_some found, of_decide_eq_true suits⟩

theorem exists_ofArity?_iff {l : Library} {name : String} {arity : Nat} :
    (∃ f, l.ofArity? name arity = some f) ↔ ∃ f ∈ l.overloads name, f.arity = arity := by
  rw [← Option.isSome_iff_exists, ofArity?, List.find?_isSome]
  simp only [decide_eq_true_eq]

theorem ofArity?_of_default? {l : Library} {name : String} {f : Function}
    (first : l.default? name = some f) : l.ofArity? name f.arity = some f := by
  obtain ⟨rest, overloads⟩ := List.head?_eq_some_iff.mp first
  rw [ofArity?, overloads]
  exact List.find?_cons_of_pos (decide_eq_true rfl)

theorem closest_spec {types : List Ty} {fs : List Function} {f : Function} {d : Nat}
    (best : closest types fs = some (f, d)) :
    f ∈ fs ∧ f.signature.distance? types = some d := by
  induction fs generalizing f d with
  | nil => simp [closest] at best
  | cons g gs ih =>
      rw [closest] at best
      split at best
      · have later := ih best
        exact ⟨List.mem_cons_of_mem g later.1, later.2⟩
      · rename_i accepted _
        cases best
        exact ⟨List.mem_cons_self, accepted⟩
      · rename_i accepted others
        have later := ih others
        split at best
        · cases best
          exact ⟨List.mem_cons_self, accepted⟩
        · cases best
          exact ⟨List.mem_cons_of_mem g later.1, later.2⟩

theorem mem_of_resolve? {l : Library} {name : String} {types : List Ty} {f : Function}
    (found : l.resolve? name types = some f) :
    f ∈ l.overloads name ∧ f.arity = types.length := by
  obtain ⟨⟨g, d⟩, best, rfl⟩ := Option.map_eq_some_iff.mp found
  have ⟨member, accepted⟩ := closest_spec best
  exact ⟨member, (Signature.length_eq_of_distance? accepted).symm⟩

/-- The overload that is called takes as many arguments as it gets, provided that
    the one to fall back on does. -/
theorem choose_spec {l : Library} {name : String} {arguments : List Value} {fallback : Function}
    (member : fallback ∈ l.overloads name) (arity : fallback.arity = arguments.length) :
    l.choose name arguments fallback ∈ l.overloads name ∧
      (l.choose name arguments fallback).arity = arguments.length := by
  unfold choose
  cases found : l.resolve? name (arguments.map Value.type) with
  | none => exact ⟨member, arity⟩
  | some f =>
      have ⟨resolved, suits⟩ := mem_of_resolve? found
      rw [List.length_map] at suits
      exact ⟨resolved, suits⟩

theorem mem_choose {l : Library} {name : String} {arguments : List Value} {fallback : Function}
    (member : fallback ∈ l.overloads name) :
    l.choose name arguments fallback ∈ l.overloads name := by
  unfold choose
  cases found : l.resolve? name (arguments.map Value.type) with
  | none => exact member
  | some f => exact (mem_of_resolve? found).1

theorem callee_eq_ok_iff {l : Library} {name : String} {given : Nat} {f : Function} :
    l.callee name given = .ok f ↔ l.ofArity? name given = some f := by
  unfold callee
  split
  · rename_i none
    simp [ofArity?, none]
  · cases l.ofArity? name given <;> simp

theorem operand_eq_ok_iff {l : Library} {operator : ListOperator} {name : String} {f : Function} :
    l.operand operator name = .ok f ↔ l.ofArity? name operator.arity = some f := by
  unfold operand
  cases l.ofArity? name operator.arity <;> simp

end Library

end Formulary
