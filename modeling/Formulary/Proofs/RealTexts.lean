import Formulary.Proofs.Identification
import Mathlib.Data.List.TakeWhile

/-! # The texts of reals

The text of a finite real reads back as a number: digits with a point among them, times a
power of ten. Wherever the layout puts the point, and whether or not it writes the power,
that number is the shortest decimal of the real, which identifies it. With the sign in front,
which zero has as well, different reals have different texts.
-/

namespace Formulary

namespace Numeral

/-- What stands before the first occurrence of a mark, and what stands behind it. -/
def cut (mark : Char) (cs : List Char) : List Char × List Char :=
  (cs.takeWhile (· != mark), (cs.dropWhile (· != mark)).drop 1)

/-- The number that digits stand for. -/
def whole (cs : List Char) : Nat :=
  Nat.ofDigitChars 10 cs 0

/-- The number that digits with a point among them stand for. -/
def pointed (cs : List Char) : ℚ :=
  whole ((cut '.' cs).1 ++ (cut '.' cs).2) / 10 ^ (cut '.' cs).2.length

/-- The power that a sign and digits stand for. -/
def power (cs : List Char) : ℤ :=
  if cs.head? = some '-' then -whole (cs.drop 1) else whole (cs.drop 1)

/-- The number that an unsigned text stands for. -/
def number (cs : List Char) : ℚ :=
  pointed (cut 'e' cs).1 * 10 ^ power (cut 'e' cs).2

section

variable {mark : Char} {front back cs : List Char}

theorem bne_of_notMem (absent : mark ∉ cs) : ∀ c ∈ cs, (c != mark) = true := by
  intro c mem
  simp only [bne_iff_ne, ne_eq]
  intro same
  exact absent (same ▸ mem)

theorem cut_append (absent : mark ∉ front) : cut mark (front ++ mark :: back) = (front, back) := by
  have other := bne_of_notMem absent
  simp [cut, List.takeWhile_append_of_pos other, List.dropWhile_append_of_pos other]

theorem cut_of_notMem (absent : mark ∉ cs) : cut mark cs = (cs, []) := by
  have other := bne_of_notMem absent
  simp [cut, List.takeWhile_eq_self_iff.mpr other, List.dropWhile_eq_nil_iff.mpr other]

theorem pointed_append (absent : '.' ∉ front) :
    pointed (front ++ '.' :: back) = whole (front ++ back) / 10 ^ back.length := by
  rw [pointed, cut_append absent]

theorem pointed_of_notMem (absent : '.' ∉ cs) : pointed cs = whole cs := by
  simp [pointed, cut_of_notMem absent]

theorem number_append (absent : 'e' ∉ front) :
    number (front ++ 'e' :: back) = pointed front * 10 ^ power back := by
  rw [number, cut_append absent]

theorem number_of_notMem (absent : 'e' ∉ cs) : number cs = pointed cs := by
  simp [number, cut_of_notMem absent, power, whole]

end

theorem notMem_of_forall {part : Char → Bool} {cs : List Char} {c : Char}
    (inside : ∀ c ∈ cs, part c = true) (outside : part c = false) : c ∉ cs := by
  intro mem
  rw [inside c mem] at outside
  cases outside

/-- Texts of nothing but digits. -/
def AllDigits (cs : List Char) : Prop :=
  ∀ c ∈ cs, c.isDigit = true

namespace AllDigits

variable {cs ds : List Char} {c : Char}

theorem notMem (digits : AllDigits cs) (other : c.isDigit = false) : c ∉ cs :=
  notMem_of_forall digits other

theorem append (digits : AllDigits cs) (digits' : AllDigits ds) : AllDigits (cs ++ ds) := by
  intro c mem
  exact (List.mem_append.mp mem).elim (digits c) (digits' c)

theorem subset (digits : AllDigits cs) (part : ds ⊆ cs) : AllDigits ds := by
  intro c mem
  exact digits c (part mem)

theorem replicate_zero (n : Nat) : AllDigits (List.replicate n '0') := by
  intro c mem
  rw [List.eq_of_mem_replicate mem]
  rfl

theorem toString (n : Nat) : AllDigits (toString n).toList := by
  intro c mem
  rw [Nat.toString_eq_repr, Nat.toList_repr] at mem
  exact Nat.isDigit_of_mem_toDigits (by decide) (by decide) mem

end AllDigits

theorem toString_toList_ne_nil (n : Nat) : (toString n).toList ≠ [] := by
  rw [Nat.toString_eq_repr, Nat.toList_repr]
  exact Nat.toDigits_ne_nil

theorem whole_toString (n : Nat) : whole (toString n).toList = n := by
  rw [Nat.toString_eq_repr, Nat.toList_repr]
  exact Nat.ofDigitChars_toDigits (by decide) (by decide)

theorem whole_append (cs ds : List Char) :
    whole (cs ++ ds) = 10 ^ ds.length * whole cs + whole ds := by
  rw [whole, Nat.ofDigitChars_append, Nat.ofDigitChars_eq_ofDigitChars_zero]
  rfl

theorem whole_zeros (n : Nat) : whole (List.replicate n '0') = 0 := by
  rw [whole, Nat.ofDigitChars_replicate_zero, Nat.mul_zero]

/-- The characters that texts of reals are made of. -/
def isRealChar (c : Char) : Bool :=
  c.isDigit || "+-.einfa".toList.contains c

/-- A text reads as a number. It starts with a digit, and a point or a power tells it from the
    text of an integer. -/
structure Reads (cs : List Char) (q : ℚ) : Prop where
  number_eq : number cs = q
  opens : cs.head?.any Char.isDigit = true
  alphabet : ∀ c ∈ cs, isRealChar c = true
  fractional : '.' ∈ cs ∨ 'e' ∈ cs

/-- What stands behind a sign tells the sign, if it has none of its own. -/
theorem signed_injective {a b : Bool} {s t : String} (unsigned : s.toList.head? ≠ some '-')
    (unsigned' : t.toList.head? ≠ some '-')
    (same : (if a then "-" else "") ++ s = (if b then "-" else "") ++ t) : a = b ∧ s = t := by
  have chars := congrArg String.toList same
  cases a <;> cases b <;>
    simp only [Bool.false_eq_true, if_false, if_true, String.empty_append, String.toList_append]
      at same chars
  · exact ⟨rfl, same⟩
  · rw [chars] at unsigned
    exact (unsigned rfl).elim
  · rw [← chars] at unsigned'
    exact (unsigned' rfl).elim
  · exact ⟨rfl, String.toList_inj.mp (List.cons.inj chars).2⟩

theorem Reads.unsigned {cs : List Char} {q : ℚ} (reads : Reads cs q) :
    cs.head? ≠ some '-' := by
  intro sign
  have opens := reads.opens
  rw [sign] at opens
  cases opens

theorem AllDigits.alphabet {cs : List Char} (digits : AllDigits cs) :
    ∀ c ∈ cs, isRealChar c = true := by
  intro c mem
  simp [isRealChar, digits c mem]

theorem AllDigits.opens {cs : List Char} (digits : AllDigits cs) (filled : cs ≠ [])
    (rest : List Char) : (cs ++ rest).head?.any Char.isDigit = true := by
  cases cs with
  | nil => exact (filled rfl).elim
  | cons c cs => exact digits c List.mem_cons_self

theorem div_ten_pow {m n j k : Nat} {p : ℤ} (scale : m = n * 10 ^ j) (places : p = j - k) :
    (m : ℚ) / 10 ^ k = n * 10 ^ p := by
  rw [scale, places, zpow_sub₀ (by norm_num), zpow_natCast, zpow_natCast, Nat.cast_mul,
    Nat.cast_pow, Nat.cast_ofNat, mul_div_assoc]

theorem div_ten_pow_mul (n k : Nat) (e : ℤ) :
    (n : ℚ) / 10 ^ k * 10 ^ e = n * 10 ^ (e - k) := by
  rw [zpow_sub₀ (by norm_num), zpow_natCast, div_mul_eq_mul_div, mul_div_assoc]

theorem reads_point {front back : List Char} {n j : Nat} {p : ℤ} (digits : AllDigits front)
    (filled : front ≠ []) (digits' : AllDigits back) (scale : whole (front ++ back) = n * 10 ^ j)
    (places : p = j - back.length) : Reads (front ++ '.' :: back) (n * 10 ^ p) where
  number_eq := by
    have noPower : 'e' ∉ front ++ '.' :: back := by
      simp [digits.notMem (c := 'e') rfl, digits'.notMem (c := 'e') rfl]
    rw [number_of_notMem noPower, pointed_append (digits.notMem rfl)]
    exact div_ten_pow scale places
  opens := digits.opens filled _
  alphabet := by
    intro c mem
    rcases List.mem_append.mp mem with mem | mem
    · exact digits.alphabet c mem
    · cases mem with
      | head => rfl
      | tail _ mem => exact digits'.alphabet c mem
  fractional := .inl (by simp)

end Numeral

namespace Layout

open Numeral

theorem zeros_toList (n : Nat) : (zeros n).toList = List.replicate n '0' := by
  rw [zeros, String.pushn_eq_repeat_push]
  induction n with
  | zero => rfl
  | succ n ih => rw [Nat.repeat, String.toList_push, ih, List.replicate_succ']

section

variable {text : String} {n : Nat} {places : ℤ} (digits : AllDigits text.toList)
  (value : whole text.toList = n)
include digits value

theorem reads_front (front : places ≤ 0) :
    Reads ("0." ++ zeros (-places).toNat ++ text).toList (n * 10 ^ (places - text.length)) := by
  have shape : ("0." ++ zeros (-places).toNat ++ text).toList =
      List.replicate 1 '0' ++ '.' :: (List.replicate (-places).toNat '0' ++ text.toList) := by
    simp [zeros_toList]
  rw [shape]
  apply reads_point (j := 0) (.replicate_zero 1) (by simp)
    ((AllDigits.replicate_zero _).append digits)
  · simp only [whole_append, whole_zeros, value, Nat.mul_zero, Nat.zero_add, Nat.pow_zero,
      Nat.mul_one]
  · simp only [List.length_append, List.length_replicate, String.length_toList]
    omega

theorem reads_behind (filled : text.toList ≠ []) (behind : (text.length : ℤ) ≤ places) :
    Reads (text ++ zeros (places.toNat - text.length) ++ ".0").toList
      (n * 10 ^ (places - text.length)) := by
  have shape : (text ++ zeros (places.toNat - text.length) ++ ".0").toList =
      (text.toList ++ List.replicate (places.toNat - text.length) '0') ++
        '.' :: List.replicate 1 '0' := by
    simp [zeros_toList]
  rw [shape]
  apply reads_point (j := places.toNat - text.length + 1) (digits.append (.replicate_zero _))
    (by simp [filled]) (.replicate_zero 1)
  · simp only [whole_append, whole_zeros, value, List.length_replicate]
    ring
  · simp only [List.length_replicate]
    omega

theorem reads_among (positive : 0 < places) (among : places < text.length) :
    Reads (String.ofList (text.toList.take places.toNat) ++ "." ++
      String.ofList (text.toList.drop places.toNat)).toList (n * 10 ^ (places - text.length)) := by
  have shape : (String.ofList (text.toList.take places.toNat) ++ "." ++
      String.ofList (text.toList.drop places.toNat)).toList =
      text.toList.take places.toNat ++ '.' :: text.toList.drop places.toNat := by
    simp
  have size := text.length_toList
  rw [shape]
  apply reads_point (j := 0) (digits.subset (List.take_subset _ _)) _
    (digits.subset (List.drop_subset _ _))
  · rw [List.take_append_drop, value, Nat.pow_zero, Nat.mul_one]
  · simp only [List.length_drop]
    omega
  · apply List.ne_nil_of_length_pos
    simp only [List.length_take]
    omega

end

theorem reads_positional (n : Nat) (places : ℤ) :
    Reads (positional (toString n) places).toList
      (n * 10 ^ (places - (toString n).length)) := by
  have digits := AllDigits.toString n
  have value := whole_toString n
  rw [positional]
  split
  · rename_i front
    exact reads_front digits value front
  · rename_i positive
    split
    · rename_i behind
      exact reads_behind digits value (toString_toList_ne_nil n) behind
    · rename_i among
      exact reads_among digits value (Int.not_le.mp positive) (Int.not_le.mp among)

/-- A first digit, and the others behind a point if there are any. -/
def mantissa (first : Char) (rest : List Char) : List Char :=
  first :: if rest.isEmpty then [] else '.' :: rest

section

variable {first c : Char} {rest : List Char}

theorem mem_of_mem_mantissa (mem : c ∈ mantissa first rest) : c ∈ first :: rest ∨ c = '.' := by
  cases rest with
  | nil => exact .inl mem
  | cons second rest =>
      simp only [mantissa, List.isEmpty_cons, Bool.false_eq_true, if_false, List.mem_cons] at mem ⊢
      tauto

theorem pointed_mantissa (digits : AllDigits (first :: rest)) :
    pointed (mantissa first rest) = whole (first :: rest) / 10 ^ rest.length := by
  cases rest with
  | nil => simp [mantissa, pointed_of_notMem (digits.notMem (c := '.') rfl)]
  | cons second rest =>
      have single : AllDigits [first] := digits.subset (by simp)
      have absent : '.' ∉ [first] := single.notMem rfl
      have shape : mantissa first (second :: rest) = [first] ++ '.' :: second :: rest := rfl
      rw [shape, pointed_append absent]
      rfl

end

theorem exponentText_toList (layout : Layout) (e : ℤ) :
    ∃ n, (layout.exponentText e).toList = (if e < 0 then '-' else '+') ::
      (List.replicate n '0' ++ (toString e.natAbs).toList) := by
  use layout.exponentWidth - (toString e.natAbs).length
  rw [exponentText]
  split <;> simp [zeros_toList]

theorem power_exponentText (layout : Layout) (e : ℤ) :
    power (layout.exponentText e).toList = e := by
  obtain ⟨n, shape⟩ := layout.exponentText_toList e
  have value : whole (List.replicate n '0' ++ (toString e.natAbs).toList) = e.natAbs := by
    rw [whole_append, whole_zeros, whole_toString, Nat.mul_zero, Nat.zero_add]
  rw [shape, power]
  simp only [List.head?_cons, List.drop_succ_cons, List.drop_zero, value, Option.some.injEq]
  split_ifs with negative sign sign
  · omega
  · exact (sign rfl).elim
  · cases sign
  · omega

theorem exponentText_alphabet (layout : Layout) (e : ℤ) :
    ∀ c ∈ (layout.exponentText e).toList, isRealChar c = true := by
  obtain ⟨n, shape⟩ := layout.exponentText_toList e
  have digits := (AllDigits.replicate_zero n).append (.toString e.natAbs)
  intro c mem
  rw [shape] at mem
  cases mem with
  | head => split <;> rfl
  | tail _ mem => exact digits.alphabet c mem

theorem reads_scientific (n : Nat) (leading : ℤ) :
    Reads (valueLayout.scientific (toString n) leading).toList
      (n * 10 ^ (leading + 1 - (toString n).length)) := by
  have digits := AllDigits.toString n
  have value := whole_toString n
  have size := (toString n).length_toList
  obtain ⟨first, rest, filled⟩ := List.exists_cons_of_ne_nil (toString_toList_ne_nil n)
  have shape : (valueLayout.scientific (toString n) leading).toList =
      mantissa first rest ++ 'e' :: (valueLayout.exponentText leading).toList := by
    have mark : valueLayout.mark = "e" := rfl
    rw [scientific, filled, mark]
    cases rest <;> simp [mantissa]
  rw [filled] at digits value size
  rw [shape, ← size]
  have noPower : 'e' ∉ mantissa first rest := by
    intro mem
    rcases mem_of_mem_mantissa mem with mem | point
    · exact digits.notMem rfl mem
    · cases point
  constructor
  · have places : leading + 1 - (first :: rest).length = leading - rest.length := by
      simp only [List.length_cons]
      omega
    rw [number_append noPower, pointed_mantissa digits, power_exponentText, value, places,
      div_ten_pow_mul]
  · exact digits _ List.mem_cons_self
  · intro c mem
    rcases List.mem_append.mp mem with mem | mem
    · rcases mem_of_mem_mantissa mem with mem | rfl
      · exact digits.alphabet c mem
      · rfl
    · cases mem with
      | head => rfl
      | tail _ mem => exact exponentText_alphabet _ _ c mem
  · exact .inr (by simp)

theorem reads_decimal (d : Decimal) : Reads (valueLayout.decimal d).toList d.value := by
  rw [decimal]
  split
  · have reads := reads_positional d.digits (d.exponent + (toString d.digits).length)
    rwa [Int.add_sub_cancel] at reads
  · have reads := reads_scientific d.digits (d.exponent + (toString d.digits).length - 1)
    rwa [Int.sub_add_cancel, Int.add_sub_cancel] at reads

/-- The text of a magnitude. -/
def magnitudeText (x : Magnitude) : String :=
  if x.significand = 0 then "0.0" else valueLayout.decimal x.shortest

/-- The number that the text of a magnitude reads as. -/
def magnitudeNumber (x : Magnitude) : ℚ :=
  if x.significand = 0 then 0 else x.shortest.value

theorem reads_magnitudeText (x : Magnitude) :
    Reads (magnitudeText x).toList (magnitudeNumber x) := by
  rw [magnitudeText, magnitudeNumber]
  split
  · have reads := reads_point (n := 0) (j := 0) (p := -1) (.replicate_zero 1) (by simp)
      (.replicate_zero 1) (whole_zeros 2) (by simp)
    rwa [Nat.cast_zero, zero_mul] at reads
  · exact reads_decimal _

theorem magnitudeNumber_eq_zero_iff {x : Magnitude} :
    magnitudeNumber x = 0 ↔ x.significand = 0 := by
  rw [magnitudeNumber]
  split
  · rename_i zero
    simp [zero]
  · rename_i nonzero
    have positive := Nat.pos_of_ne_zero nonzero
    have identified := Magnitude.identifiedBy_shortest positive
    simp [nonzero, (identified.positive positive).ne']

theorem magnitudeText_injective {x y : Magnitude} (normal : x.Normal) (normal' : y.Normal)
    (same : magnitudeText x = magnitudeText y) : x = y := by
  have number : magnitudeNumber x = magnitudeNumber y := by
    rw [← (reads_magnitudeText x).number_eq, same, (reads_magnitudeText y).number_eq]
  -- Zero is no shortest decimal: it identifies no magnitude.
  by_cases zero : x.significand = 0
  · have zero' : y.significand = 0 := by
      rw [← magnitudeNumber_eq_zero_iff, ← number, magnitudeNumber_eq_zero_iff, zero]
    exact normal.eq_of_zero normal' zero zero'
  · have nonzero : y.significand ≠ 0 := by
      rwa [ne_eq, ← magnitudeNumber_eq_zero_iff, ← number, magnitudeNumber_eq_zero_iff]
    rw [magnitudeNumber, magnitudeNumber, if_neg zero, if_neg nonzero] at number
    exact normal.eq_of_shortest normal' (Nat.pos_of_ne_zero zero) (Nat.pos_of_ne_zero nonzero)
      number

theorem render_finite (negative : Bool) (x : Magnitude) :
    valueLayout.render (.finite negative x) = (if negative then "-" else "") ++ magnitudeText x :=
  rfl

theorem any_isDigit_render (d : Denotation) :
    (valueLayout.render d).toList.any Char.isDigit = d.isFinite := by
  cases d with
  | nan => decide
  | infinite negative => cases negative <;> decide
  | finite negative x =>
      have opens := (reads_magnitudeText x).opens
      rw [render_finite, String.toList_append, List.any_append]
      generalize (magnitudeText x).toList = cs at *
      cases cs with
      | nil => cases opens
      | cons first rest =>
          have digit : first.isDigit = true := opens
          simp [digit, Denotation.isFinite]

theorem render_injective {d d' : Denotation} (normal : d.Normal) (normal' : d'.Normal)
    (same : valueLayout.render d = valueLayout.render d') : d = d' := by
  have kind : d.isFinite = d'.isFinite := by
    rw [← any_isDigit_render, same, any_isDigit_render]
  cases d with
  | nan =>
      cases d' with
      | nan => rfl
      | infinite negative => cases negative <;> exact absurd same (by decide)
      | finite => cases kind
  | infinite negative =>
      cases d' with
      | nan => cases negative <;> exact absurd same (by decide)
      | infinite negative' =>
          have unsigned : "inf".toList.head? ≠ some '-' := by decide
          obtain ⟨sign, _⟩ := signed_injective unsigned unsigned same
          rw [sign]
      | finite => cases kind
  | finite negative x =>
      cases d' with
      | nan => cases kind
      | infinite => cases kind
      | finite negative' y =>
          obtain ⟨sign, text⟩ := signed_injective (reads_magnitudeText x).unsigned
            (reads_magnitudeText y).unsigned same
          rw [sign, magnitudeText_injective (normal _ _ rfl) (normal' _ _ rfl) text]

/-- Every character of the text of a real is a digit, a sign, the point or a letter. -/
theorem render_alphabet (d : Denotation) :
    ∀ c ∈ (valueLayout.render d).toList, isRealChar c = true := by
  cases d with
  | nan => exact List.all_eq_true.mp rfl
  | infinite negative => cases negative <;> exact List.all_eq_true.mp rfl
  | finite negative x =>
      intro c mem
      rw [render_finite, String.toList_append] at mem
      rcases List.mem_append.mp mem with mem | mem
      · cases negative <;> simp at mem
        rw [mem]
        rfl
      · exact (reads_magnitudeText x).alphabet c mem

theorem render_fractional (d : Denotation) :
    '.' ∈ (valueLayout.render d).toList ∨ 'e' ∈ (valueLayout.render d).toList ∨
      'n' ∈ (valueLayout.render d).toList := by
  cases d with
  | nan => decide
  | infinite negative => cases negative <;> decide
  | finite negative x =>
      rw [render_finite, String.toList_append]
      rcases (reads_magnitudeText x).fractional with point | power
      · exact .inl (List.mem_append_right _ point)
      · exact .inr (.inl (List.mem_append_right _ power))

end Layout

/-- Different reals have different texts. -/
theorem realText_injective : Function.Injective realText := by
  intro x y same
  have normal (z : Float) : Denotation.Normal (.ofFloat z) := Denotation.normal_ofBits _
  exact Denotation.ofFloat_injective (Layout.render_injective (normal x) (normal y) same)

end Formulary
