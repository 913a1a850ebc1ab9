import Formulary.Value.Basic

/-! # Signatures

A function has a name, typed parameters and a result type. Its signature
decides which arguments it accepts: those of the declared types, where an
integer may also stand for a real. Such a promotion costs something, and
the cost orders the overloads of a name.
-/

namespace Formulary

structure Parameter where
  name : String
  type : Ty
  deriving Repr, DecidableEq

def Parameter.text (p : Parameter) : String :=
  p.name ++ ": " ++ p.type.text

structure Signature where
  name : String
  parameters : List Parameter
  returns : Ty
  deriving Repr, DecidableEq

/-- Whether passing an argument of the first type to a parameter of the second
    promotes it; `none` when it cannot be passed. -/
def Ty.promotion? (argument parameter : Ty) : Option Bool :=
  if argument = parameter then some false
  else if argument = .integer ∧ parameter = .real then some true
  else none

/-- Position by position, which arguments are promoted; `none` when one cannot be
    passed or their number differs from that of the parameters. -/
def promotions? : List Ty → List Ty → Option (List Bool)
  | [], [] => some []
  | a :: as, p :: ps => do
    let promoted ← a.promotion? p
    let rest ← promotions? as ps
    return promoted :: rest
  | _, _ => none

/-- Promotions read as a binary number whose first digit is the most
    significant, so an early promotion outweighs all later ones. -/
def promotionCost (promotions : List Bool) : Nat :=
  promotions.foldl (fun cost promoted => 2 * cost + promoted.toNat) 0

theorem foldl_promotions_eq_zero_iff (cost : Nat) (promotions : List Bool) :
    promotions.foldl (fun cost promoted => 2 * cost + promoted.toNat) cost = 0 ↔
      cost = 0 ∧ ∀ promoted ∈ promotions, promoted = false := by
  induction promotions generalizing cost with
  | nil => simp
  | cons promoted rest ih =>
    rw [List.foldl_cons, ih, List.forall_mem_cons]
    cases promoted with
    | false =>
      have free : 2 * cost + false.toNat = 0 ↔ cost = 0 := by rw [Bool.toNat_false]; omega
      rw [free]
      simp
    | true => simp

theorem promotionCost_eq_zero_iff {promotions : List Bool} :
    promotionCost promotions = 0 ↔ ∀ promoted ∈ promotions, promoted = false := by
  simp [promotionCost, foldl_promotions_eq_zero_iff]

theorem Ty.promotion?_eq_some_false_iff {argument parameter : Ty} :
    argument.promotion? parameter = some false ↔ argument = parameter := by
  cases argument <;> cases parameter <;> decide

/-- Arguments are passed without any promotion exactly when their types are the
    declared ones. -/
theorem promotions?_unpromoted_iff {arguments parameters : List Ty} :
    (∃ promotions, promotions? arguments parameters = some promotions ∧
      ∀ promoted ∈ promotions, promoted = false) ↔ arguments = parameters := by
  induction arguments generalizing parameters with
  | nil => cases parameters <;> simp [promotions?]
  | cons a as ih =>
    cases parameters with
    | nil => simp [promotions?]
    | cons p ps =>
      rw [List.cons.injEq, ← Ty.promotion?_eq_some_false_iff, ← ih]
      constructor
      · rintro ⟨promotions, h, unpromoted⟩
        cases ha : a.promotion? p with
        | none => simp [promotions?, ha] at h
        | some promoted =>
          cases hs : promotions? as ps with
          | none => simp [promotions?, ha, hs] at h
          | some rest =>
            simp only [promotions?, ha, hs, Option.bind_eq_bind, Option.bind_some] at h
            cases h
            simp_all
      · rintro ⟨ha, rest, hs, unpromoted⟩
        exact ⟨false :: rest, by simp [promotions?, ha, hs], by simpa using unpromoted⟩

namespace Signature

def arity (s : Signature) : Nat :=
  s.parameters.length

/-- The declared parameter types, in order. -/
def types (s : Signature) : List Ty :=
  s.parameters.map (·.type)

/-- How far argument types are from the declared ones: zero for the very same
    types, `none` when the arguments are not accepted. -/
def distance? (s : Signature) (arguments : List Ty) : Option Nat :=
  (promotions? arguments s.types).map promotionCost

theorem distance?_eq_zero_iff {s : Signature} {arguments : List Ty} :
    s.distance? arguments = some 0 ↔ arguments = s.types := by
  rw [← promotions?_unpromoted_iff]
  simp [distance?, Option.map_eq_some_iff, promotionCost_eq_zero_iff]

/-- Two signatures clash when one name could not tell them apart by types. -/
def Clashes (s t : Signature) : Prop :=
  s.name = t.name ∧ s.types = t.types

instance (s t : Signature) : Decidable (s.Clashes t) :=
  inferInstanceAs (Decidable (_ ∧ _))

def parameterList (s : Signature) : String :=
  ", ".intercalate (s.parameters.map Parameter.text)

/-- The parameter list as messages show it by itself. -/
def parametersText (s : Signature) : String :=
  if s.parameters.isEmpty then "(no parameters)" else s.parameterList

/-- The whole signature, as in `sqrt(value: real) -> real`. -/
def text (s : Signature) : String :=
  s!"{s.name}({s.parameterList}) -> {s.returns.text}"

end Signature

end Formulary
