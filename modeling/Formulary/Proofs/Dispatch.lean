import Formulary.Proofs.Reachability
import Mathlib.Order.Basic
import Mathlib.Data.List.Lex

/-! # Which overload a call gets

Read as binary numbers, promotions of the same length are ordered as they are when
compared position by position from the left. For given argument types they also
determine the parameter types, so among the overloads of a name no two are equally
far from a call: there is one best overload, wherever it stands.
-/

namespace Formulary

/-- Promotions as a bit pattern, the first one being the most significant bit. -/
def promotionBits : List Bool → Nat
  | [] => 0
  | promoted :: rest => promoted.toNat <<< rest.length ||| promotionBits rest

theorem promotionBits_lt (v : List Bool) : promotionBits v < 2 ^ v.length := by
  induction v with
  | nil => exact Nat.one_pos
  | cons a v ih =>
      have head : a.toNat <<< v.length < 2 ^ (v.length + 1) := by
        rw [Nat.shiftLeft_eq, Nat.pow_succ, Nat.mul_comm]
        exact (Nat.mul_lt_mul_left (Nat.two_pow_pos _)).mpr (Bool.toNat_lt a)
      exact Nat.or_lt_two_pow head (ih.trans (Nat.pow_lt_pow_succ (by decide)))

/-- A bit that is set outweighs all bits after it. -/
theorem promotionBits_cons (a : Bool) (v : List Bool) :
    promotionBits (a :: v) = 2 ^ v.length * a.toNat + promotionBits v := by
  rw [promotionBits, Nat.two_pow_add_eq_or_of_lt (promotionBits_lt v), Nat.shiftLeft_eq,
    Nat.mul_comm]

theorem foldl_promotions_eq (v : List Bool) (c : Nat) :
    v.foldl (fun cost promoted => 2 * cost + promoted.toNat) c =
      2 ^ v.length * c + promotionBits v := by
  induction v generalizing c with
  | nil => simp [promotionBits]
  | cons a v ih =>
      rw [List.foldl_cons, ih, promotionBits_cons, List.length_cons, Nat.pow_succ, Nat.mul_add]
      ac_rfl

theorem promotionCost_eq_promotionBits (v : List Bool) : promotionCost v = promotionBits v := by
  rw [promotionCost, foldl_promotions_eq, Nat.mul_zero, Nat.zero_add]

/-- The cost of promotions orders them lexicographically, a promotion being more than
    none. -/
theorem promotionCost_lt_iff {v w : List Bool} (length : v.length = w.length) :
    promotionCost v < promotionCost w ↔ List.Lex (· < ·) v w := by
  rw [promotionCost_eq_promotionBits, promotionCost_eq_promotionBits]
  induction v generalizing w with
  | nil =>
      obtain rfl := List.length_eq_zero_iff.mp length.symm
      simp
  | cons a v ih =>
      cases w with
      | nil => cases length
      | cons b w =>
          have rest : v.length = w.length := Nat.succ.inj length
          have below := promotionBits_lt v
          have below' := promotionBits_lt w
          rw [promotionBits_cons, promotionBits_cons, List.cons_lex_cons_iff, ← ih rest]
          rw [rest] at below ⊢
          have backwards : ¬true < false := by decide
          cases a <;> cases b <;> simp [backwards] <;> omega

/-- Whether an argument of the first type can be passed to a parameter of the second. -/
def Ty.PassesFor (argument parameter : Ty) : Prop :=
  argument = parameter ∨ argument = .integer ∧ parameter = .real

instance (argument parameter : Ty) : Decidable (argument.PassesFor parameter) :=
  inferInstanceAs (Decidable (_ ∨ _))

theorem Ty.promotion?_eq_some_iff {argument parameter : Ty} {promoted : Bool} :
    argument.promotion? parameter = some promoted ↔
      argument.PassesFor parameter ∧ promoted = decide (argument ≠ parameter) := by
  cases argument <;> cases parameter <;> cases promoted <;> decide

namespace Signature

/-- Whether there are as many arguments as parameters and each can be passed to its own. -/
def Accepts (s : Signature) (arguments : List Ty) : Prop :=
  List.Forall₂ Ty.PassesFor arguments s.types

/-- Position by position, whether an argument is promoted. -/
def promotions (s : Signature) (arguments : List Ty) : List Bool :=
  List.zipWith (fun argument parameter => decide (argument ≠ parameter)) arguments s.types

end Signature

theorem promotions?_eq_some_iff {arguments parameters : List Ty} {promotions : List Bool} :
    promotions? arguments parameters = some promotions ↔
      List.Forall₂ Ty.PassesFor arguments parameters ∧
        promotions = List.zipWith (fun a p => decide (a ≠ p)) arguments parameters := by
  induction arguments generalizing parameters promotions with
  | nil => cases parameters <;> simp [promotions?, eq_comm]
  | cons a as ih =>
      cases parameters with
      | nil => simp [promotions?]
      | cons p ps =>
          simp only [promotions?, Option.bind_eq_bind, Option.bind_eq_some_iff,
            Ty.promotion?_eq_some_iff, ih, List.forall₂_cons, List.zipWith_cons_cons]
          constructor
          · rintro ⟨_, ⟨passes, rfl⟩, _, ⟨rest, rfl⟩, built⟩
            cases built
            exact ⟨⟨passes, rest⟩, rfl⟩
          · rintro ⟨⟨passes, rest⟩, rfl⟩
            exact ⟨_, ⟨passes, rfl⟩, _, ⟨rest, rfl⟩, rfl⟩

/-- Argument types and promotions tell what the parameter types are: a promoted argument
    stands for a real, any other one for its own type. -/
theorem parameters_eq_of_promotions {arguments ps qs : List Ty}
    (first : List.Forall₂ Ty.PassesFor arguments ps)
    (second : List.Forall₂ Ty.PassesFor arguments qs)
    (same : List.zipWith (fun a p => decide (a ≠ p)) arguments ps =
      List.zipWith (fun a p => decide (a ≠ p)) arguments qs) : ps = qs := by
  induction first generalizing qs with
  | nil =>
      cases second
      rfl
  | @cons a p as ps passes _ ih =>
      cases second with
      | @cons _ q _ qs passes' rest' =>
          rw [List.zipWith_cons_cons, List.zipWith_cons_cons, List.cons.injEq] at same
          have equal : p = q := by
            have here := same.1
            revert passes passes' here
            cases a <;> cases p <;> cases q <;> decide
          rw [equal, ih rest' same.2]

namespace Signature

variable {s t : Signature} {arguments : List Ty}

theorem distance?_eq_some_iff {d : Nat} :
    s.distance? arguments = some d ↔
      s.Accepts arguments ∧ d = promotionCost (s.promotions arguments) := by
  simp only [distance?, Option.map_eq_some_iff, promotions?_eq_some_iff, Accepts, promotions]
  constructor
  · rintro ⟨_, ⟨passes, rfl⟩, rfl⟩
    exact ⟨passes, rfl⟩
  · rintro ⟨passes, rfl⟩
    exact ⟨_, ⟨passes, rfl⟩, rfl⟩

theorem distance?_eq_none_iff : s.distance? arguments = none ↔ ¬s.Accepts arguments := by
  rw [Option.eq_none_iff_forall_ne_some]
  constructor
  · intro none accepts
    exact none _ (distance?_eq_some_iff.mpr ⟨accepts, rfl⟩)
  · intro refuses d found
    exact refuses (distance?_eq_some_iff.mp found).1

theorem length_promotions (accepts : s.Accepts arguments) :
    (s.promotions arguments).length = arguments.length := by
  rw [promotions, List.length_zipWith, ← accepts.length_eq, Nat.min_self]

end Signature

namespace Library

variable {l m : Library} {name : String} {types : List Ty} {f g : Function}

theorem closest_eq_none_iff {fs : List Function} :
    closest types fs = none ↔ ∀ f ∈ fs, ¬f.signature.Accepts types := by
  induction fs with
  | nil => simp [closest]
  | cons f fs ih =>
      rw [closest, List.forall_mem_cons, ← ih, ← Signature.distance?_eq_none_iff]
      cases f.signature.distance? types with
      | none => simp
      | some d =>
          cases closest types fs with
          | none => simp
          | some best =>
              simp only [reduceCtorEq, false_and, iff_false]
              split <;> simp

theorem closest_le {fs : List Function} {d e : Nat} (best : closest types fs = some (f, d))
    (member : g ∈ fs) (accepted : g.signature.distance? types = some e) : d ≤ e := by
  induction fs generalizing f d with
  | nil => cases member
  | cons x xs ih =>
      rw [closest] at best
      rcases List.mem_cons.mp member with rfl | there
      · rw [accepted] at best
        split at best
        · rename_i none
          cases none
        · rename_i same _
          cases same
          cases best
          exact Nat.le_refl _
        · rename_i same _
          cases same
          split at best
          · cases best
            exact Nat.le_refl _
          · cases best
            omega
      · split at best
        · exact ih best there
        · rename_i none
          have refuses := closest_eq_none_iff.mp none g there
          exact (refuses (Signature.distance?_eq_some_iff.mp accepted).1).elim
        · rename_i others
          have below := ih others there
          split at best
          · cases best
            omega
          · cases best
            exact below

theorem eq_of_promotions_eq (distinct : l.Distinct) (first : f ∈ l.overloads name)
    (second : g ∈ l.overloads name) (accepts : f.signature.Accepts types)
    (accepts' : g.signature.Accepts types)
    (same : f.signature.promotions types = g.signature.promotions types) : f = g :=
  distinct.eq_of_types first second (parameters_eq_of_promotions accepts accepts' same)

theorem resolve?_eq_none_iff :
    l.resolve? name types = none ↔ ∀ f ∈ l.overloads name, ¬f.signature.Accepts types := by
  rw [resolve?, Option.map_eq_none_iff, closest_eq_none_iff]

/-- Resolution finds the accepting overload that comes before all others in the
    lexicographic order of promotions. -/
theorem lex_of_resolve? (distinct : l.Distinct) (found : l.resolve? name types = some f) :
    f ∈ l.overloads name ∧ f.signature.Accepts types ∧
      ∀ g ∈ l.overloads name, g ≠ f → g.signature.Accepts types →
        List.Lex (· < ·) (f.signature.promotions types) (g.signature.promotions types) := by
  obtain ⟨⟨f, d⟩, best, rfl⟩ := Option.map_eq_some_iff.mp found
  have ⟨member, near⟩ := closest_spec best
  have ⟨accepts, cost⟩ := Signature.distance?_eq_some_iff.mp near
  refine ⟨member, accepts, fun g other differs accepts' => ?_⟩
  have length := (Signature.length_promotions accepts).trans
    (Signature.length_promotions accepts').symm
  have below := closest_le best other (Signature.distance?_eq_some_iff.mpr ⟨accepts', rfl⟩)
  have compared := lt_trichotomy (f.signature.promotions types) (g.signature.promotions types)
  rcases compared with less | same | more
  · exact List.lex_lt.mpr less
  · exact (differs (eq_of_promotions_eq distinct member other accepts accepts' same).symm).elim
  · have dearer := (promotionCost_lt_iff length.symm).mpr (List.lex_lt.mpr more)
    omega

theorem resolve?_eq_some_iff (distinct : l.Distinct) :
    l.resolve? name types = some f ↔
      f ∈ l.overloads name ∧ f.signature.Accepts types ∧
        ∀ g ∈ l.overloads name, g ≠ f → g.signature.Accepts types →
          List.Lex (· < ·) (f.signature.promotions types) (g.signature.promotions types) := by
  refine ⟨lex_of_resolve? distinct, ?_⟩
  rintro ⟨member, accepts, least⟩
  cases found : l.resolve? name types with
  | none => exact (resolve?_eq_none_iff.mp found f member accepts).elim
  | some g =>
      have ⟨other, accepts', least'⟩ := lex_of_resolve? distinct found
      by_contra differs
      have apart : g ≠ f := fun same => differs (same ▸ rfl)
      have here := List.lex_lt.mp (least g other apart accepts')
      have there := List.lex_lt.mp (least' f member apart.symm accepts)
      exact lt_asymm here there

theorem resolve?_congr (distinct : l.Distinct) (distinct' : m.Distinct)
    (same : ∀ f, f ∈ l.overloads name ↔ f ∈ m.overloads name) :
    l.resolve? name types = m.resolve? name types := by
  ext f
  simp only [resolve?_eq_some_iff distinct, resolve?_eq_some_iff distinct', same]

theorem resolve?_types (distinct : l.Distinct) (member : f ∈ l.overloads name) :
    l.resolve? name f.signature.types = some f := by
  have exact : f.signature.distance? f.signature.types = some 0 :=
    Signature.distance?_eq_zero_iff.mpr rfl
  cases found : l.resolve? name f.signature.types with
  | none =>
      have accepts := (Signature.distance?_eq_some_iff.mp exact).1
      exact (resolve?_eq_none_iff.mp found f member accepts).elim
  | some g =>
      obtain ⟨⟨_, d⟩, best, rfl⟩ := Option.map_eq_some_iff.mp found
      have ⟨other, near⟩ := closest_spec best
      have nearest := closest_le best member exact
      obtain rfl : d = 0 := by omega
      have equal := Signature.distance?_eq_zero_iff.mp near
      rw [distinct.eq_of_types other member equal.symm]

end Library

/-- In every reachable library a call gets the accepting overload whose promotions are
    lexicographically least, and none if no overload accepts its arguments. No two
    accepting overloads have the same promotions. Hence it makes no difference in which
    order the overloads came in. -/
theorem Reachable.resolve?_lexicographic {includePredefined includePredefined' : Bool}
    {v w : Workspace} {held held' : List Function} (reached : Reachable includePredefined v held)
    (reached' : Reachable includePredefined' w held') (name : String) (arguments : List Value) :
    let types := arguments.map Value.type
    (v.library.resolve? name types = none ↔
        ∀ f ∈ v.library.overloads name, ¬f.signature.Accepts types) ∧
      (∀ f, v.library.resolve? name types = some f ↔
        f ∈ v.library.overloads name ∧ f.signature.Accepts types ∧
          ∀ g ∈ v.library.overloads name, g ≠ f → g.signature.Accepts types →
            List.Lex (· < ·) (f.signature.promotions types) (g.signature.promotions types)) ∧
      (∀ f ∈ v.library.overloads name, ∀ g ∈ v.library.overloads name,
        f.signature.Accepts types → g.signature.Accepts types →
          f.signature.promotions types = g.signature.promotions types → f = g) ∧
      ((∀ f, f ∈ v.library.overloads name ↔ f ∈ w.library.overloads name) →
        v.library.resolve? name types = w.library.resolve? name types) := by
  intro types
  have distinct := reached.distinct
  refine ⟨Library.resolve?_eq_none_iff, fun f => Library.resolve?_eq_some_iff distinct, ?_, ?_⟩
  · intro f first g second accepts accepts' same
    exact Library.eq_of_promotions_eq distinct first second accepts accepts' same
  · exact Library.resolve?_congr distinct reached'.distinct

def Function.area (first second : Ty) (serial : Nat) : Function where
  signature := ⟨"area", [⟨"width", first⟩, ⟨"height", second⟩], .list⟩
  body := .host false HostProgram.collect
  predefined := false
  serial := serial

/-- A workspace with two functions that are still to be registered. -/
def Workspace.twoAreas : Workspace :=
  let made := (Workspace.initial false "x").create (Function.area .integer .real 0).signature
    (.host false HostProgram.collect) false
  (made.1.create (Function.area .real .integer 1).signature (.host false HostProgram.collect)
    false).1

/-- Two integers are further from `area(real, integer)` than from `area(integer, real)`,
    whichever of the two was registered first. -/
theorem Reachable.resolve?_lexicographic_area :
    let f := Function.area .integer .real 0
    let g := Function.area .real .integer 1
    let v := ((Workspace.twoAreas.register f).1.register g).1
    let w := ((Workspace.twoAreas.register g).1.register f).1
    Reachable false v [f, g] ∧ Reachable false w [f, g] ∧
      v.library.resolve? "area" [.integer, .integer] = some f ∧
        w.library.resolve? "area" [.integer, .integer] = some f := by
  intro f g v w
  have made : Reachable false .twoAreas [f, g] := ((Reachable.start "x").create _ _ _).create _ _ _
  have first : f ∈ [f, g] := List.mem_cons_self
  have second : g ∈ [f, g] := List.mem_cons_of_mem f List.mem_cons_self
  have reached : Reachable false v [f, g] := (made.register first).register second
  have reached' : Reachable false w [f, g] := (made.register second).register first
  have best : v.library.resolve? "area" [.integer, .integer] = some f := rfl
  have inOrder : v.library.overloads "area" = [f, g] := rfl
  have swapped : w.library.overloads "area" = [g, f] := rfl
  have general := resolve?_lexicographic reached reached' "area" [.integer 2, .integer 3]
  refine ⟨reached, reached', best, best ▸ (general.2.2.2 fun h => ?_).symm⟩
  rw [inOrder, swapped, List.mem_pair, List.mem_pair, or_comm]

end Formulary
