import Formulary.Proofs.Parameters
import Formulary.Workspace.Basic

/-! # Inferred parameters

How many parameters code has, and what they are called, depends only on the set of the
indices that it refers to. Which index is reported if that set has a gap depends on the
order as well. Taking out repetitions keeps that order, so what is reported is the first
reference in the code itself that is out of range.
-/

namespace Formulary

theorem find?_eraseDups {α : Type} [BEq α] [LawfulBEq α] (p : α → Bool) (is : List α) :
    is.eraseDups.find? p = is.find? p := by
  cases is with
  | nil => rfl
  | cons i is =>
      rw [List.eraseDups_cons, List.find?_cons, List.find?_cons]
      cases here : p i with
      | true => rfl
      | false =>
          -- What is left out equals `i`, which is not of the kind.
          have kept (j : α) : ((!j == i) = true ∧ p j = true) ↔ p j = true := by
            simp only [Bool.not_eq_true', beq_eq_false_iff_ne, and_iff_right_iff_imp]
            intro found same
            rw [same, here] at found
            cases found
          have shorter := find?_eraseDups p (is.filter fun j => !j == i)
          simp only [shorter, List.find?_filter, kept, Bool.decide_eq_true]
termination_by is.length
decreasing_by exact Nat.lt_succ_of_le (List.length_filter_le _ _)

namespace Code

/-- The set of the parameter indices that code refers to. -/
def referenced (code : Code) : Finset Int :=
  (code.filterMap Instr.index?).toFinset

/-- The first reference of code to a parameter that is not one of so many. -/
def FirstBeyond (code : Code) (count : Nat) (index : Int) : Prop :=
  ∃ before behind, code = before ++ .param index :: behind ∧ ¬(0 ≤ index ∧ index < count) ∧
    ∀ i : Int, .param i ∈ before → 0 ≤ i ∧ i < count

variable {code : Code} {count : Nat} {index : Int}

theorem card_referenced (code : Code) : code.referenced.card = code.indices.length := by
  have same : code.referenced = code.indices.toFinset := by
    ext i
    rw [referenced, List.mem_toFinset, List.mem_toFinset, mem_indices]
  rw [same, List.toFinset_card_of_nodup code.nodup_indices]

theorem gapFree_iff_referenced :
    GapFree (code.filterMap Instr.index?) count ↔
      ∀ i : Int, i ∈ code.referenced ↔ 0 ≤ i ∧ i < count := by
  simp only [GapFree, referenced, List.mem_toFinset]

theorem arity_eq_ok_iff_referenced :
    code.arity = .ok count ↔ count = code.referenced.card ∧
      ∀ i : Int, i ∈ code.referenced ↔ 0 ≤ i ∧ i < code.referenced.card := by
  rw [arity_eq_ok_iff, gapFree_iff_referenced]
  constructor
  · intro full
    have interval : code.referenced = Finset.Ico 0 (count : Int) := by
      ext i
      rw [full, Finset.mem_Ico]
    have size : code.referenced.card = count := by
      rw [interval, Int.card_Ico, Int.sub_zero, Int.toNat_natCast]
    exact ⟨size.symm, by rw [size]; exact full⟩
  · intro counted
    obtain ⟨size, full⟩ := counted
    rw [size]
    exact full

theorem index?_eq_some_iff {instr : Instr} : instr.index? = some index ↔ instr = .param index := by
  cases instr <;> simp [Instr.index?]

theorem firstBeyond_iff_find? :
    code.FirstBeyond count index ↔
      (code.filterMap Instr.index?).find? (fun i => i < 0 ∨ (count : Int) ≤ i) = some index := by
  have outside (i : Int) : (i < 0 ∨ (count : Int) ≤ i) ↔ ¬(0 ≤ i ∧ i < count) := by omega
  have reference (instr : Instr) :
      (!instr.index?.any fun i => decide (i < 0 ∨ (count : Int) ≤ i)) = true ↔
        ∀ i : Int, instr = .param i → 0 ≤ i ∧ i < count := by
    cases instr <;> simp [Instr.index?, outside]
  rw [List.find?_filterMap, Option.bind_eq_some_iff]
  simp only [List.find?_eq_some_iff_append, reference, index?_eq_some_iff]
  constructor
  · intro first
    obtain ⟨before, behind, split, beyond, within⟩ := first
    refine ⟨.param index, ⟨?_, before, behind, split, fun instr member i same => ?_⟩, rfl⟩
    · simpa [Instr.index?, outside] using beyond
    · exact within i (same ▸ member)
  · intro first
    obtain ⟨instr, ⟨beyond, before, behind, split, within⟩, rfl⟩ := first
    refine ⟨before, behind, split, ?_, fun i member => within _ member i rfl⟩
    simpa [Instr.index?, outside] using beyond

theorem arity_eq_error_iff_firstBeyond {e : DefinitionError} :
    code.arity = .error e ↔
      ∃ index, code.FirstBeyond code.referenced.card index ∧
        e = .parameterIndex index code.indices := by
  have first (p : Int → Bool) : (code.filterMap Instr.index?).find? p = code.indices.find? p :=
    (find?_eraseDups p _).symm
  simp only [arity_eq_error_iff_find?, firstBeyond_iff_find?, card_referenced, first]

theorem eq_realParameters_iff {stem : String} {parameters : List Parameter} :
    parameters = realParameters stem count ↔
      parameters.length = count ∧
        ∀ i < count, parameters[i]? = some ⟨stem ++ toString i, .real⟩ := by
  have length : (realParameters stem count).length = count := by simp [realParameters]
  have entry (i : Nat) (within : i < count) :
      (realParameters stem count)[i]? = some ⟨stem ++ toString i, .real⟩ := by
    simp [realParameters, within]
  constructor
  · intro same
    rw [same]
    exact ⟨length, entry⟩
  · intro listed
    obtain ⟨long, entries⟩ := listed
    apply List.ext_getElem?
    intro i
    by_cases within : i < count
    · rw [entries i within, entry i within]
    · rw [List.getElem?_eq_none (by omega), List.getElem?_eq_none (by omega)]

end Code

namespace Workspace

variable {w : Workspace} {code : Code} {parameters : List Parameter} {e : DefinitionError}

theorem inferParameters_eq_ok_iff :
    w.inferParameters code = .ok parameters ↔
      ∃ count, code.arity = .ok count ∧ parameters = Code.realParameters w.stem count := by
  rw [inferParameters]
  cases code.arity <;> simp [Except.map, eq_comm]

theorem inferParameters_eq_error_iff :
    w.inferParameters code = .error e ↔ code.arity = .error e := by
  rw [inferParameters]
  cases code.arity <;> simp [Except.map]

/-- The parameters of code are inferred exactly when the set of the indices that it refers to
    has no gap from zero up to its own size. There is then one real parameter for each index,
    named by the stem and the index, in the order of the indices. Otherwise the first
    reference in the code that is negative or as large as the number of distinct indices
    is reported. -/
theorem inferParameters_gapFree (w : Workspace) (code : Code) :
    let count := code.referenced.card
    (∀ parameters, w.inferParameters code = .ok parameters ↔
      (∀ i : Int, i ∈ code.referenced ↔ 0 ≤ i ∧ i < count) ∧ parameters.length = count ∧
        ∀ i < count, parameters[i]? = some ⟨w.stem ++ toString i, .real⟩) ∧
    ∀ e, w.inferParameters code = .error e ↔
      ∃ index, code.FirstBeyond count index ∧ e = .parameterIndex index code.indices ∧
        e.kind = .invalidParameterIndex := by
  intro count
  constructor
  · intro parameters
    rw [inferParameters_eq_ok_iff, ← Code.eq_realParameters_iff]
    simp only [Code.arity_eq_ok_iff_referenced, and_assoc, exists_eq_left, count]
  · intro e
    rw [inferParameters_eq_error_iff, Code.arity_eq_error_iff_firstBeyond]
    constructor
    · intro reported
      obtain ⟨index, first, rfl⟩ := reported
      exact ⟨index, first, rfl, rfl⟩
    · intro reported
      obtain ⟨index, first, same, _⟩ := reported
      exact ⟨index, first, same⟩

/-- Neither the order nor the repetition of references matters, but where the first one stands
    that leaves a gap does. -/
example : (empty "x").inferParameters [.param 1, .param 0, .param 1] =
      .ok [⟨"x0", .real⟩, ⟨"x1", .real⟩] ∧
    (empty "x").inferParameters [.param 2, .param 0, .param 2, .param (-1), .param 3] =
      .error (.parameterIndex (-1) [2, 0, -1, 3]) := by
  constructor <;> rfl

end Workspace

end Formulary
