import Formulary.Number.Layout
import Mathlib.Algebra.Order.Field.Power
import Mathlib.Data.Rat.Cast.Order
import Mathlib.Tactic.FieldSimp
import Mathlib.Tactic.Linarith
import Mathlib.Tactic.Positivity
import Mathlib.Tactic.Ring

/-! # Decimals that identify reals

The numbers that are closer to a magnitude than to any other one form an interval between two
halfway points. Intervals of different magnitudes have no number in common: where they
touch, one of the two significands is odd, and its interval is without its ends. The
shortest decimal of a magnitude lies in its interval, so it identifies the magnitude.
-/

namespace Formulary

/-- The number that a decimal stands for. -/
def Decimal.value (d : Decimal) : ℚ :=
  d.digits * 10 ^ d.exponent

namespace Window

theorem search_contains {w : Window} (inside : w.contains w.value = true) (dropped : Nat) :
    ∃ n, w.contains n = true ∧ (w.search dropped).value = n * 10 ^ w.exponent := by
  induction dropped with
  | zero => exact ⟨w.value, inside, rfl⟩
  | succ dropped ih =>
      rw [search]
      cases found : w.nearest (Nat.pow 10 (dropped + 1)) with
      | none => exact ih
      | some digits =>
          refine ⟨_, contains_of_nearest_eq_some found, ?_⟩
          rw [Decimal.value, zpow_add₀ (by norm_num), zpow_natCast]
          push_cast [Nat.pow_eq]
          ring

end Window

namespace Magnitude

variable {x y : Magnitude} {q : ℚ}

/-- How far the lower halfway point is away, in quarters of the last binary place. -/
def gapBelow (x : Magnitude) : Nat :=
  if x.closeBelow then 1 else 2

/-- The lower end of the interval of numbers that identify a magnitude. -/
def low (x : Magnitude) : ℚ :=
  (4 * x.significand - x.gapBelow) * 2 ^ (x.exponent - 2)

/-- The upper end. -/
def high (x : Magnitude) : ℚ :=
  (4 * x.significand + 2) * 2 ^ (x.exponent - 2)

/-- Whether a number identifies a magnitude. The ends of the interval do so if the significand
    is even. -/
def IdentifiedBy (x : Magnitude) (q : ℚ) : Prop :=
  if x.significand % 2 = 0 then x.low ≤ q ∧ q ≤ x.high else x.low < q ∧ q < x.high

theorem quarter_value (x : Magnitude) : x.quarter.value = 2 ^ (x.exponent - 2) := by
  rw [quarter]
  cases x.exponent - 2 with
  | ofNat n => simp [Decimal.value, Nat.pow_eq]
  | negSucc n =>
      have split : (10 : ℚ) = 2 * 5 := by norm_num
      simp only [Decimal.value, zpow_negSucc, Nat.pow_eq, split, mul_pow]
      push_cast
      field_simp

theorem quarter_digits_pos (x : Magnitude) : 0 < x.quarter.digits := by
  rw [quarter]
  split
  · exact Nat.pow_pos (by decide)
  · exact Nat.pow_pos (by decide)

theorem window_value_contains (positive : 0 < x.significand) :
    x.window.contains x.window.value = true := by
  have unit := x.quarter_digits_pos
  have below : x.window.low < x.window.value := by
    apply Nat.mul_lt_mul_of_pos_right _ unit
    split <;> omega
  have above : x.window.value < x.window.high := by
    apply Nat.mul_lt_mul_of_pos_right _ unit
    omega
  rw [Window.contains]
  split <;> simp [below, above, Nat.le_of_lt]

theorem window_low (positive : 0 < x.significand) :
    x.window.low * 10 ^ x.window.exponent = x.low := by
  have unit := x.quarter_value
  rw [Decimal.value] at unit
  have whole : ((4 * x.significand - x.gapBelow : Nat) : ℚ) = 4 * x.significand - x.gapBelow := by
    rw [Nat.cast_sub (by rw [gapBelow]; split <;> omega)]
    push_cast
    rfl
  rw [low, ← whole, ← unit, ← mul_assoc, ← Nat.cast_mul]
  rfl

theorem window_high (x : Magnitude) : x.window.high * 10 ^ x.window.exponent = x.high := by
  have unit := x.quarter_value
  rw [Decimal.value] at unit
  have whole : ((4 * x.significand + 2 : Nat) : ℚ) = 4 * x.significand + 2 := by
    push_cast
    rfl
  rw [high, ← whole, ← unit, ← mul_assoc, ← Nat.cast_mul]
  rfl

theorem identifiedBy_of_contains (positive : 0 < x.significand) {n : Nat}
    (inside : x.window.contains n = true) : x.IdentifiedBy (n * 10 ^ x.window.exponent) := by
  have scale : (0 : ℚ) < 10 ^ x.window.exponent := by positivity
  rw [IdentifiedBy, ← window_low positive, ← window_high]
  simp only [mul_le_mul_iff_left₀ scale, mul_lt_mul_iff_left₀ scale, Nat.cast_le, Nat.cast_lt]
  have closed : x.window.closed = decide (x.significand % 2 = 0) := rfl
  rw [Window.contains, closed] at inside
  split
  · rename_i even
    simpa [even] using inside
  · rename_i odd
    simpa [odd] using inside

/-- The shortest decimal of a magnitude identifies it. -/
theorem identifiedBy_shortest (positive : 0 < x.significand) :
    x.IdentifiedBy x.shortest.value := by
  obtain ⟨n, inside, value⟩ := Window.search_contains (window_value_contains positive)
    (toString x.window.value).length
  rw [shortest, value]
  exact identifiedBy_of_contains positive inside

/-- The magnitudes of the reals: a significand of 53 binary places, whose first one is taken up
    unless the exponent is the least. -/
structure Normal (x : Magnitude) : Prop where
  fits : x.significand < 2 * leadingOne
  least : -1074 ≤ x.exponent
  leading : leadingOne ≤ x.significand ∨ x.exponent = -1074

theorem Normal.eq_of_zero (normal : x.Normal) (normal' : y.Normal) (zero : x.significand = 0)
    (zero' : y.significand = 0) : x = y := by
  have leading := normal.leading
  have leading' := normal'.leading
  obtain ⟨s, e⟩ := x
  obtain ⟨s', e'⟩ := y
  simp only [leadingOne] at zero zero' leading leading'
  rw [mk.injEq]
  omega

theorem gapBelow_eq_one_iff : x.gapBelow = 1 ↔ x.significand = leadingOne ∧ -1074 < x.exponent := by
  simp [gapBelow, closeBelow]

theorem gapBelow_cases (x : Magnitude) : x.gapBelow = 1 ∨ x.gapBelow = 2 := by
  rw [gapBelow]
  split
  · exact .inl rfl
  · exact .inr rfl

/-- The order of magnitudes, by the exponent first. -/
def Less (x y : Magnitude) : Prop :=
  x.exponent < y.exponent ∨ x.exponent = y.exponent ∧ x.significand < y.significand

theorem eq_of_not_less (notLess : ¬x.Less y) (notGreater : ¬y.Less x) : x = y := by
  obtain ⟨s, e⟩ := x
  obtain ⟨s', e'⟩ := y
  simp only [Less] at notLess notGreater
  rw [mk.injEq]
  omega

/-- The upper end of the interval of a magnitude, in quarters of its last binary place. -/
def top (x : Magnitude) : ℤ :=
  4 * x.significand + 2

/-- The lower end of the interval of a greater magnitude, in quarters of the last binary place
    of a smaller one. -/
def bottomFor (x y : Magnitude) : ℤ :=
  (4 * y.significand - y.gapBelow) * 2 ^ (y.exponent - x.exponent).toNat

theorem high_eq_top (x : Magnitude) : x.high = x.top * 2 ^ (x.exponent - 2) := by
  rw [high, top]
  push_cast
  rfl

theorem Less.low_eq_bottomFor (less : x.Less y) :
    y.low = x.bottomFor y * 2 ^ (x.exponent - 2) := by
  have above : x.exponent ≤ y.exponent := by
    rcases less with smaller | same
    · exact Int.le_of_lt smaller
    · exact Int.le_of_eq same.1
  have places : y.exponent - 2 = ((y.exponent - x.exponent).toNat : ℤ) + (x.exponent - 2) := by
    omega
  rw [low, bottomFor, places, zpow_add₀ two_ne_zero, zpow_natCast, ← mul_assoc]
  push_cast
  rfl

/-- Between the intervals of two magnitudes there is room, or they touch and one of the
    significands is odd. -/
theorem Less.room (less : x.Less y) (normal : x.Normal) (normal' : y.Normal) :
    x.top < x.bottomFor y ∨
      x.top = x.bottomFor y ∧ (x.significand % 2 ≠ 0 ∨ y.significand % 2 ≠ 0) := by
  have gap := y.gapBelow_eq_one_iff
  have gaps := y.gapBelow_cases
  obtain ⟨fits, least, leading⟩ := normal
  obtain ⟨fits', least', leading'⟩ := normal'
  simp only [leadingOne] at gap fits leading fits' leading'
  rw [top]
  rcases less with smaller | ⟨same, smaller⟩
  · -- The greater significand has its first place taken up, and counts at least double.
    obtain ⟨k, places⟩ : ∃ k, (y.exponent - x.exponent).toNat = k + 1 :=
      ⟨(y.exponent - x.exponent).toNat - 1, by omega⟩
    have doubled : 2 * (4 * y.significand - y.gapBelow : ℤ) ≤ x.bottomFor y := by
      have nonneg : (0 : ℤ) ≤ 2 * (4 * y.significand - y.gapBelow) := by omega
      calc
        2 * (4 * y.significand - y.gapBelow : ℤ)
          ≤ 2 * (4 * y.significand - y.gapBelow) * 2 ^ k :=
            le_mul_of_one_le_right nonneg (one_le_pow₀ (by norm_num))
        _ = x.bottomFor y := by
            rw [bottomFor, places, pow_succ]
            ring
    omega
  · have places : (y.exponent - x.exponent).toNat = 0 := by omega
    rw [bottomFor, places, pow_zero, mul_one]
    omega

theorem IdentifiedBy.bounds (identified : x.IdentifiedBy q) :
    x.low ≤ q ∧ q ≤ x.high ∧ (x.significand % 2 ≠ 0 → x.low < q ∧ q < x.high) := by
  rw [IdentifiedBy] at identified
  split at identified
  · rename_i even
    exact ⟨identified.1, identified.2, fun odd => (odd even).elim⟩
  · exact ⟨identified.1.le, identified.2.le, fun _ => identified⟩

theorem Less.not_identifiedBy (less : x.Less y) (normal : x.Normal) (normal' : y.Normal)
    (identified : x.IdentifiedBy q) : ¬y.IdentifiedBy q := by
  intro identified'
  obtain ⟨_, upper, strict⟩ := identified.bounds
  obtain ⟨lower, _, strict'⟩ := identified'.bounds
  have unit : (0 : ℚ) < 2 ^ (x.exponent - 2) := by positivity
  rcases less.room normal normal' with apart | ⟨touching, odd⟩
  · have order : x.high < y.low := by
      rw [x.high_eq_top, less.low_eq_bottomFor, mul_lt_mul_iff_left₀ unit, Int.cast_lt]
      exact apart
    linarith
  · have same : x.high = y.low := by rw [x.high_eq_top, less.low_eq_bottomFor, touching]
    rcases odd with odd | odd
    · linarith [(strict odd).2]
    · linarith [(strict' odd).1]

/-- A number identifies one magnitude only. -/
theorem Normal.eq_of_identifiedBy (normal : x.Normal) (normal' : y.Normal)
    (identified : x.IdentifiedBy q) (identified' : y.IdentifiedBy q) : x = y :=
  eq_of_not_less (fun less => less.not_identifiedBy normal normal' identified identified')
    fun greater => greater.not_identifiedBy normal' normal identified' identified

theorem IdentifiedBy.positive (identified : x.IdentifiedBy q) (positive : 0 < x.significand) :
    0 < q := by
  have unit : (0 : ℚ) < 2 ^ (x.exponent - 2) := by positivity
  have gap : x.gapBelow < 4 * x.significand := by
    rcases x.gapBelow_cases with one | two <;> omega
  have above : (x.gapBelow : ℚ) < 4 * x.significand := by exact_mod_cast gap
  calc
    (0 : ℚ) < x.low := mul_pos (by linarith) unit
    _ ≤ q := identified.bounds.1

theorem Normal.eq_of_shortest (normal : x.Normal) (normal' : y.Normal)
    (positive : 0 < x.significand) (positive' : 0 < y.significand)
    (same : x.shortest.value = y.shortest.value) : x = y := by
  have identified := identifiedBy_shortest positive
  rw [same] at identified
  exact normal.eq_of_identifiedBy normal' identified (identifiedBy_shortest positive')

end Magnitude

namespace Denotation

open Magnitude (leadingOne)

variable {a b : Nat}

theorem bits_eq (bound : a < 2 ^ 64) :
    a = a / (2048 * leadingOne) % 2 * (2048 * leadingOne) + a / leadingOne % 2048 * leadingOne +
      a % leadingOne := by
  simp only [leadingOne]
  omega

def isFinite : Denotation → Bool
  | .finite .. => true
  | _ => false

/-- A denotation is infinite, or NaN, or its magnitude is one of those of the reals. -/
def Normal (d : Denotation) : Prop :=
  ∀ negative x, d = .finite negative x → x.Normal

theorem normal_ofBits (a : Nat) : (ofBits a).Normal := by
  intro negative x finite
  have field : a / leadingOne % 2048 < 2048 := Nat.mod_lt _ (by decide)
  have fraction : a % leadingOne < leadingOne := Nat.mod_lt _ (by decide)
  simp only [ofBits] at finite
  split at finite
  · split at finite <;> cases finite
  · split at finite
    · cases finite
      exact ⟨by simp only; omega, by simp, .inr rfl⟩
    · cases finite
      exact ⟨by simp only; omega, by simp only; omega, .inl (by simp only; omega)⟩

theorem sign_eq_of_beq {s t : Nat} (bit : s < 2) (bit' : t < 2) (same : (s == 1) = (t == 1)) :
    s = t := by
  have alike : s = 1 ↔ t = 1 := by
    rw [← beq_iff_eq (a := s), ← beq_iff_eq (a := t), same]
  omega

theorem ofBits_injective (bound : a < 2 ^ 64) (bound' : b < 2 ^ 64) (number : ofBits a ≠ .nan)
    (same : ofBits a = ofBits b) : a = b := by
  have fraction : a % leadingOne < leadingOne := Nat.mod_lt _ (by decide)
  have fraction' : b % leadingOne < leadingOne := Nat.mod_lt _ (by decide)
  have sign : a / (2048 * leadingOne) % 2 < 2 := Nat.mod_lt _ (by decide)
  have sign' : b / (2048 * leadingOne) % 2 < 2 := Nat.mod_lt _ (by decide)
  rw [bits_eq bound, bits_eq bound']
  simp only [ofBits] at number same
  generalize a / (2048 * leadingOne) % 2 = s, b / (2048 * leadingOne) % 2 = t at *
  generalize a / leadingOne % 2048 = field, b / leadingOne % 2048 = field' at *
  generalize a % leadingOne = r, b % leadingOne = r' at *
  have parts : s = t ∧ field = field' ∧ r = r' := by
    -- A significand with the leading one is none without it.
    split_ifs at number same <;>
      simp only [infinite.injEq, finite.injEq, Magnitude.mk.injEq, reduceCtorEq, ne_eq,
        not_true_eq_false] at number same
    · exact ⟨sign_eq_of_beq sign sign' same, by omega, by omega⟩
    all_goals exact ⟨sign_eq_of_beq sign sign' same.1, by omega, by omega⟩
  rw [parts.1, parts.2.1, parts.2.2]

open Float.Model in
theorem toBits_of_nan {x : Float} (nan : ofFloat x = .nan) :
    x.toBits.toBitVec = UnpackedFloat.packedNaN Format.binary64 := by
  have field : x.toBits.toNat / leadingOne % 2048 = 2047 ∧ x.toBits.toNat % leadingOne ≠ 0 := by
    simp only [ofFloat, ofBits] at nan
    split_ifs at nan with top empty
    exact ⟨top, empty⟩
  apply x.toModel.valid.eq_packedNaN
  · apply BitVec.eq_of_toNat_eq
    simp [UnpackedFloat.unpackExponent, Nat.shiftRight_eq_div_pow]
    exact field.1
  · intro zero
    have fraction := congrArg BitVec.toNat zero
    simp [UnpackedFloat.unpackMantissa] at fraction
    exact field.2 fraction

theorem ofFloat_injective {x y : Float} (same : ofFloat x = ofFloat y) : x = y := by
  have bound (z : Float) : z.toBits.toNat < 2 ^ 64 := z.toBits.toNat_lt
  have bits : x.toBits = y.toBits := by
    by_cases number : ofFloat x = .nan
    · apply UInt64.toBitVec_inj.mp
      rw [toBits_of_nan number, toBits_of_nan (same ▸ number)]
    · exact UInt64.toNat_inj.mp (ofBits_injective (bound x) (bound y) number same)
  cases x with | ofModel m => cases y with | ofModel m' =>
  cases m; cases m'
  cases bits
  rfl

end Denotation

end Formulary
