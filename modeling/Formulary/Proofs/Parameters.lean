import Formulary.Code.Parameters
import Mathlib.Data.Int.Interval

/-! # Parameters without gaps

Code is accepted when no index reaches the number of distinct indices that it
refers to. By the pigeonhole principle this says that the distinct indices are
exactly the first so many naturals.
-/

namespace Formulary

/-- Whether the indices are exactly the first `count` naturals, in any order and
    each any number of times. -/
def GapFree (indices : List Int) (count : Nat) : Prop :=
  ∀ i, i ∈ indices ↔ 0 ≤ i ∧ i < count

namespace GapFree

theorem congr {is js : List Int} {count : Nat} (same : ∀ i, i ∈ is ↔ i ∈ js) :
    GapFree is count ↔ GapFree js count :=
  forall_congr' fun i => by rw [same i]

theorem length {distinct : List Int} {count : Nat} (nodup : distinct.Nodup)
    (gapFree : GapFree distinct count) : distinct.length = count := by
  have interval : distinct.toFinset = Finset.Ico 0 (count : Int) := by
    ext i
    rw [List.mem_toFinset, Finset.mem_Ico, gapFree i]
  calc
    distinct.length = distinct.toFinset.card := (List.toFinset_card_of_nodup nodup).symm
    _ = count := by rw [interval, Int.card_Ico, Int.sub_zero, Int.toNat_natCast]

theorem of_bounded {distinct : List Int} (nodup : distinct.Nodup)
    (bounded : ∀ i ∈ distinct, 0 ≤ i ∧ i < distinct.length) :
    GapFree distinct distinct.length := by
  have inside : distinct.toFinset ⊆ Finset.Ico 0 (distinct.length : Int) := by
    intro i member
    rw [Finset.mem_Ico]
    exact bounded i (List.mem_toFinset.mp member)
  have full : distinct.toFinset = Finset.Ico 0 (distinct.length : Int) := by
    apply Finset.eq_of_subset_of_card_le inside
    rw [List.toFinset_card_of_nodup nodup, Int.card_Ico, Int.sub_zero, Int.toNat_natCast]
  intro i
  rw [← List.mem_toFinset, full, Finset.mem_Ico]

end GapFree

theorem nodup_eraseDups {α : Type} [BEq α] [LawfulBEq α] (is : List α) :
    is.eraseDups.Nodup := by
  cases is with
  | nil => exact List.nodup_nil
  | cons i is =>
      rw [List.eraseDups_cons, List.nodup_cons]
      refine ⟨?_, nodup_eraseDups _⟩
      intro again
      have kept := (List.mem_filter.mp (List.mem_eraseDups.mp again)).2
      simp at kept
termination_by is.length
decreasing_by exact Nat.lt_succ_of_le (List.length_filter_le _ _)

namespace Code

theorem mem_indices {code : Code} {i : Int} : i ∈ code.indices ↔ i ∈ code.filterMap Instr.index? :=
  List.mem_eraseDups

theorem nodup_indices (code : Code) : code.indices.Nodup :=
  nodup_eraseDups _

theorem arity_eq_ok_iff_bounded {code : Code} {count : Nat} :
    code.arity = .ok count ↔
      code.indices.length = count ∧ ∀ i ∈ code.indices, 0 ≤ i ∧ i < code.indices.length := by
  simp only [arity]
  split
  · rename_i i stray
    have outside := List.find?_some stray
    have member := List.mem_of_find?_eq_some stray
    simp only [decide_eq_true_eq] at outside
    simp only [reduceCtorEq, false_iff]
    rintro ⟨_, bounded⟩
    have := bounded i member
    omega
  · rename_i inside
    have bounded : ∀ i ∈ code.indices, 0 ≤ i ∧ i < code.indices.length := by
      intro i member
      have kept := List.find?_eq_none.mp inside i member
      simp only [decide_eq_true_eq] at kept
      omega
    simp only [Except.ok.injEq]
    exact ⟨fun same => ⟨same, bounded⟩, And.left⟩

/-- Code has `count` parameters exactly when it refers to the first `count`
    naturals. -/
theorem arity_eq_ok_iff {code : Code} {count : Nat} :
    code.arity = .ok count ↔ GapFree (code.filterMap Instr.index?) count := by
  rw [arity_eq_ok_iff_bounded, ← GapFree.congr fun _ => mem_indices]
  constructor
  · rintro ⟨rfl, bounded⟩
    exact GapFree.of_bounded code.nodup_indices bounded
  · intro gapFree
    have length := gapFree.length code.nodup_indices
    exact ⟨length, fun i member => by rw [length]; exact (gapFree i).mp member⟩

theorem arity_eq_error_iff_find? {code : Code} {e : DefinitionError} :
    code.arity = .error e ↔ ∃ index,
      code.indices.find? (fun i => i < 0 ∨ (code.indices.length : Int) ≤ i) = some index ∧
        e = .parameterIndex index code.indices := by
  cases found : code.indices.find? fun i => i < 0 ∨ (code.indices.length : Int) ≤ i with
  | none => simp only [arity, found, reduceCtorEq, false_and, exists_false]
  | some index =>
      simp only [arity, found, Except.error.injEq, Option.some.injEq, exists_eq_left', eq_comm]

end Code

end Formulary
