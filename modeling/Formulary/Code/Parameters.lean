import Formulary.Error.Definition

/-! # Parameters of code

Code does not declare its parameters. They are inferred from the indices that it
refers to, which have to be the first so many naturals, in any order and as
often as wanted. All inferred parameters are reals.
-/

namespace Formulary

/-- The index of an instruction that refers to a parameter. -/
def Instr.index? : Instr → Option Int
  | .param index => some index
  | _ => none

namespace Code

/-- The distinct parameter indices of code, in the order of their first
    appearance. -/
def indices (code : Code) : List Int :=
  (code.filterMap Instr.index?).eraseDups

/-- How many parameters code has. The first index that is negative or too large
    for the number of distinct indices is reported. -/
def arity (code : Code) : Except DefinitionError Nat :=
  let count := code.indices.length
  match code.indices.find? fun index => index < 0 ∨ (count : Int) ≤ index with
  | some index => .error (.parameterIndex index code.indices)
  | none => .ok count

/-- The name of a parameter is a common stem and the parameter's index. -/
def realParameters (stem : String) (count : Nat) : List Parameter :=
  (List.range count).map fun i => ⟨stem ++ toString i, .real⟩

end Code

end Formulary
