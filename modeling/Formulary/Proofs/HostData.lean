import Formulary.Proofs.Provenance
import Mathlib.Data.Nat.Size

/-! # Host data and back

Conversion fails only because of a leaf: an object that is no number, or an integer that
does not fit 64 bits. The leaves are judged depth first and from left to right, and those of
parts that are values already are not judged at all. Where conversion succeeds, the plain
data of the value is the host data itself, with plain data in the place of each such part.
-/

namespace Formulary

theorem EvalError.bitLength_eq_size (n : Int) : bitLength n = n.natAbs.size := by
  rw [bitLength]
  split
  · rename_i zero
    rw [zero]
    rfl
  · rename_i nonzero
    have positive : n.natAbs ≠ 0 := Int.natAbs_ne_zero.mpr nonzero
    have enough : n.natAbs.size ≤ n.natAbs.log2 + 1 := Nat.size_le.mpr Nat.lt_log2_self
    have needed : n.natAbs.log2 < n.natAbs.size := Nat.lt_size.mpr (Nat.log2_self_le positive)
    omega

theorem EvalError.received_notConvertible (object : Stray) :
    (notConvertible object).report.received = some object.shown :=
  rfl

theorem EvalError.received_integerOutOfRange (n : Int) :
    (integerOutOfRange n).report.received = some s!"An integer of {n.natAbs.size} bits" := by
  rw [← bitLength_eq_size]
  rfl

namespace Datum

mutual

/-- The leaves of host data outside the parts that are values already, depth first and from
    left to right. -/
def leaves : Datum → List Datum
  | .boolean b => [.boolean b]
  | .integer n => [.integer n]
  | .real x => [.real x]
  | .list elements => leavesAll elements
  | .value _ => []
  | .stray object => [.stray object]

def leavesAll : List Datum → List Datum
  | [] => []
  | d :: ds => d.leaves ++ leavesAll ds

end

mutual

/-- Host data with plain data in the place of each part that is a value already. -/
def plain : Datum → Datum
  | .boolean b => .boolean b
  | .integer n => .integer n
  | .real x => .real x
  | .list elements => .list (plainAll elements)
  | .value v => v.toDatum
  | .stray object => .stray object

def plainAll : List Datum → List Datum
  | [] => []
  | d :: ds => d.plain :: plainAll ds

end

/-- What is reported of a leaf that no value stands for. -/
inductive Refused : Datum → EvalError → Prop
  | stray (object : Stray) : Refused (.stray object) (.notConvertible object)
  | integer {n : Int} (outside : n < -2 ^ 63 ∨ 2 ^ 63 - 1 < n) :
      Refused (.integer n) (.integerOutOfRange n)

/-- Whether a value stands for a leaf. -/
def Accepted (leaf : Datum) : Prop :=
  ∀ e, ¬leaf.Refused e

/-- The first of some leaves that no value stands for, and what is reported of it. -/
inductive FirstRefused : List Datum → Datum → EvalError → Prop
  | here {leaf rest e} (refused : leaf.Refused e) : FirstRefused (leaf :: rest) leaf e
  | later {other rest leaf e} (accepted : other.Accepted) (first : FirstRefused rest leaf e) :
      FirstRefused (other :: rest) leaf e

/-- How a message shows a leaf that no value stands for: an object by its own text, an
    integer by the number of its binary digits. -/
def shown : Datum → String
  | .stray object => object.shown
  | .integer n => s!"An integer of {n.natAbs.size} bits"
  | .boolean _ | .real _ | .list _ | .value _ => ""

variable {leaves leaves' : List Datum} {leaf leaf' : Datum} {e e' : EvalError}

theorem inRange_iff {n : Int} : InRange n ↔ -2 ^ 63 ≤ n ∧ n ≤ 2 ^ 63 - 1 :=
  Iff.rfl

theorem Refused.describes (refused : leaf.Refused e) :
    e.kind = .invalidType ∧ e.report.received = some leaf.shown := by
  cases refused with
  | stray object => exact ⟨rfl, EvalError.received_notConvertible object⟩
  | @integer n => exact ⟨rfl, EvalError.received_integerOutOfRange n⟩

theorem accepted_integer_iff {n : Int} : (integer n).Accepted ↔ InRange n := by
  rw [inRange_iff]
  constructor
  · intro accepted
    by_contra outside
    exact accepted _ (.integer (by omega))
  · intro fits e refused
    cases refused with
    | integer outside => omega

theorem accepted_boolean (b : Bool) : (boolean b).Accepted := by
  intro e refused
  cases refused

theorem accepted_real (x : Float) : (real x).Accepted := by
  intro e refused
  cases refused

theorem Refused.unique (first : leaf.Refused e) (second : leaf.Refused e') : e = e' := by
  cases first <;> cases second <;> rfl

namespace FirstRefused

theorem not_accepted (first : FirstRefused leaves leaf e) : ¬∀ l ∈ leaves, l.Accepted := by
  intro accepted
  induction first with
  | here refused => exact accepted _ List.mem_cons_self _ refused
  | later _ _ ih => exact ih fun l member => accepted l (List.mem_cons_of_mem _ member)

theorem append_right (first : FirstRefused leaves leaf e) :
    FirstRefused (leaves ++ leaves') leaf e := by
  induction first with
  | here refused => exact .here refused
  | later accepted _ ih => exact .later accepted ih

theorem append_left (accepted : ∀ l ∈ leaves, l.Accepted) (first : FirstRefused leaves' leaf e) :
    FirstRefused (leaves ++ leaves') leaf e := by
  induction leaves with
  | nil => exact first
  | cons l ls ih =>
      obtain ⟨here, there⟩ := List.forall_mem_cons.mp accepted
      exact .later here (ih there)

theorem unique (first : FirstRefused leaves leaf e) (second : FirstRefused leaves leaf' e') :
    e = e' := by
  induction first with
  | here refused =>
      cases second with
      | here refused' => exact refused.unique refused'
      | later accepted => exact (accepted _ refused).elim
  | later accepted _ ih =>
      cases second with
      | here refused => exact (accepted _ refused).elim
      | later _ second => exact ih second

theorem refused (first : FirstRefused leaves leaf e) : leaf.Refused e := by
  induction first with
  | here refused => exact refused
  | later _ _ ih => exact ih

end FirstRefused

/-- Whether a conversion is right about some leaves: it succeeds with a result of a kind if
    all of them are accepted, and otherwise reports the first one that is not. -/
def Judges {α : Type} (leaves : List Datum) (right : α → Prop) : Except EvalError α → Prop
  | .ok a => (∀ leaf ∈ leaves, leaf.Accepted) ∧ right a
  | .error e => ∃ leaf, FirstRefused leaves leaf e

theorem Judges.accepted {right : Value → Prop} {v : Value} (accepted : leaf.Accepted)
    (good : right v) : Judges [leaf] right (.ok v) :=
  ⟨by simpa using accepted, good⟩

theorem Judges.refused {right : Value → Prop} (refused : leaf.Refused e) :
    Judges [leaf] right (.error e) :=
  ⟨leaf, .here refused⟩

mutual

theorem toValue_judges (d : Datum) : Judges d.leaves (fun v => v.toDatum = d.plain) d.toValue := by
  cases d with
  | boolean b => exact .accepted (accepted_boolean b) rfl
  | real x => exact .accepted (accepted_real x) rfl
  | value v => exact ⟨by simp [Datum.leaves], rfl⟩
  | stray object => exact .refused (.stray object)
  | integer n =>
      rw [toValue]
      by_cases fits : leastInteger ≤ n ∧ n ≤ greatestInteger
      · rw [if_pos fits]
        exact .accepted (accepted_integer_iff.mpr fits) rfl
      · rw [if_neg fits]
        have outside : ¬(-2 ^ 63 ≤ n ∧ n ≤ 2 ^ 63 - 1) := fits
        exact .refused (.integer (by omega))
  | list elements =>
      have judged := toValues_judges elements
      rw [toValue]
      cases converted : toValues elements with
      | error e =>
          rw [converted] at judged
          exact judged
      | ok vs =>
          rw [converted] at judged
          exact ⟨judged.1, congrArg Datum.list judged.2⟩
termination_by structural d

theorem toValues_judges (ds : List Datum) :
    Judges (leavesAll ds) (fun vs => Value.toData vs = plainAll ds) (toValues ds) := by
  cases ds with
  | nil => exact ⟨by simp [leavesAll], rfl⟩
  | cons d ds =>
      have first := toValue_judges d
      have rest := toValues_judges ds
      rw [toValues, leavesAll]
      cases converted : d.toValue with
      | error e =>
          rw [converted] at first
          obtain ⟨leaf, reported⟩ := first
          exact ⟨leaf, reported.append_right⟩
      | ok v =>
          rw [converted] at first
          cases converted' : toValues ds with
          | error e =>
              rw [converted'] at rest
              obtain ⟨leaf, reported⟩ := rest
              exact ⟨leaf, reported.append_left first.1⟩
          | ok vs =>
              rw [converted'] at rest
              refine ⟨List.forall_mem_append.mpr ⟨first.1, rest.1⟩, ?_⟩
              simp only [Value.toData, plainAll, first.2, rest.2]
termination_by structural ds

end

end Datum

namespace Value

mutual

theorem toDatum_injective {v w : Value} (same : v.toDatum = w.toDatum) : v = w := by
  cases v <;> cases w <;> simp only [toDatum, reduceCtorEq, Datum.boolean.injEq,
    Datum.integer.injEq, Datum.real.injEq, Datum.list.injEq] at same
  case boolean | integer | real => rw [same]
  case list => rw [toData_injective same]
termination_by structural v

theorem toData_injective {vs ws : List Value} (same : toData vs = toData ws) : vs = ws := by
  cases vs <;> cases ws <;> simp only [toData, reduceCtorEq, List.cons.injEq] at same
  case nil => rfl
  case cons => rw [toDatum_injective same.1, toData_injective same.2]
termination_by structural vs

end

mutual

theorem plain_toDatum (v : Value) : v.toDatum.plain = v.toDatum := by
  cases v with
  | boolean | integer | real => rfl
  | list elements => rw [toDatum, Datum.plain, plainAll_toData elements]
termination_by structural v

theorem plainAll_toData (vs : List Value) : Datum.plainAll (toData vs) = toData vs := by
  cases vs with
  | nil => rfl
  | cons v vs => rw [toData, Datum.plainAll, plain_toDatum v, plainAll_toData vs]
termination_by structural vs

end

mutual

theorem accepted_toDatum (v : Value) :
    (∀ leaf ∈ v.toDatum.leaves, leaf.Accepted) ↔ ∀ n ∈ v.integers, InRange n := by
  cases v with
  | boolean b => simp [toDatum, Datum.leaves, integers, Datum.accepted_boolean]
  | integer n => simp [toDatum, Datum.leaves, integers, Datum.accepted_integer_iff]
  | real x => simp [toDatum, Datum.leaves, integers, Datum.accepted_real]
  | list elements => exact accepted_toData elements
termination_by structural v

theorem accepted_toData (vs : List Value) :
    (∀ leaf ∈ Datum.leavesAll (toData vs), leaf.Accepted) ↔ ∀ n ∈ integersAll vs, InRange n := by
  cases vs with
  | nil => simp [toData, Datum.leavesAll, integersAll]
  | cons v vs =>
      simp only [toData, Datum.leavesAll, integersAll, List.forall_mem_append, accepted_toDatum v,
        accepted_toData vs]
termination_by structural vs

end

end Value

namespace Datum

variable {d : Datum} {v : Value} {e : EvalError}

theorem toValue_eq_ok_iff :
    d.toValue = .ok v ↔ (∀ leaf ∈ d.leaves, leaf.Accepted) ∧ v.toDatum = d.plain := by
  have judged := d.toValue_judges
  cases converted : d.toValue with
  | error e =>
      rw [converted] at judged
      obtain ⟨leaf, first⟩ := judged
      simp [first.not_accepted]
  | ok u =>
      rw [converted] at judged
      obtain ⟨accepted, right⟩ := judged
      rw [Except.ok.injEq, ← right]
      constructor
      · intro same
        exact ⟨accepted, by rw [same]⟩
      · intro same
        exact (Value.toDatum_injective same.2).symm

theorem exists_toValue_iff : (∃ v, d.toValue = .ok v) ↔ ∀ leaf ∈ d.leaves, leaf.Accepted := by
  have judged := d.toValue_judges
  cases converted : d.toValue with
  | error e =>
      rw [converted] at judged
      obtain ⟨leaf, first⟩ := judged
      simp [first.not_accepted]
  | ok u =>
      rw [converted] at judged
      simpa using judged.1

theorem toValue_eq_error_iff : d.toValue = .error e ↔ ∃ leaf, FirstRefused d.leaves leaf e := by
  have judged := d.toValue_judges
  cases converted : d.toValue with
  | ok u =>
      rw [converted] at judged
      have none (leaf : Datum) : ¬FirstRefused d.leaves leaf e :=
        fun first => first.not_accepted judged.1
      simp [none]
  | error e' =>
      rw [converted] at judged
      obtain ⟨leaf, first⟩ := judged
      rw [Except.error.injEq]
      constructor
      · intro same
        exact ⟨leaf, same ▸ first⟩
      · intro reported
        obtain ⟨leaf', first'⟩ := reported
        exact first.unique first'

/-- Host data is converted exactly when it has no leaf, at any depth outside the parts that
    are values already, that is a text, nothing, or an integer beyond 64 bits. If it has one,
    the first of them, depth first and from left to right, is reported as being of a wrong
    type. A value that is made stands for the very data that it was made from, and every
    value is made again from its plain data, provided that its integers fit 64 bits. -/
theorem conversion_exact (d : Datum) :
    ((∃ v, d.toValue = .ok v) ↔ ∀ leaf ∈ d.leaves, leaf.Accepted) ∧
    (∀ e, d.toValue = .error e ↔ ∃ leaf, FirstRefused d.leaves leaf e ∧
      e.kind = .invalidType ∧ e.report.received = some leaf.shown) ∧
    (∀ v, d.toValue = .ok v ↔ (∀ leaf ∈ d.leaves, leaf.Accepted) ∧ v.toDatum = d.plain) ∧
    ∀ v : Value, v.toDatum.toValue = .ok v ↔ ∀ n ∈ v.integers, -2 ^ 63 ≤ n ∧ n ≤ 2 ^ 63 - 1 := by
  refine ⟨exists_toValue_iff, fun e => ?_, fun v => toValue_eq_ok_iff, fun v => ?_⟩
  · rw [toValue_eq_error_iff]
    constructor
    · intro reported
      obtain ⟨leaf, first⟩ := reported
      exact ⟨leaf, first, first.refused.describes⟩
    · intro reported
      obtain ⟨leaf, first, _⟩ := reported
      exact ⟨leaf, first⟩
  · rw [toValue_eq_ok_iff, v.plain_toDatum, v.accepted_toDatum]
    exact and_iff_left rfl

/-- A value is taken as it is, even with an integer that could not be converted. -/
example : (list [.value (.integer (2 ^ 63)), .list [.integer (2 ^ 63)], .stray .nothing]).toValue =
    .error (.integerOutOfRange (2 ^ 63)) := rfl

end Datum

end Formulary
