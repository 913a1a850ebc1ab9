import Formulary.Primitive.Catalog
import Formulary.Proofs.Runs

/-! # Guarded arithmetic

The operations of the catalog ask the host only what the host answers, and catch what the host
may raise. One thing is left that nothing guards: an integer may be too large for a real. So a
predefined operation ends with a truth value or a real, or refuses an argument for its type, or
breaks off on such an integer.
-/

namespace Formulary

/-- Whether there is a real for an integer to be rounded to. -/
def FitsReal (n : Int) : Prop :=
  n.natAbs < leastTooLarge

/-- Whether an integer fits 64 bits. -/
def InRange (n : Int) : Prop :=
  leastInteger ≤ n ∧ n ≤ greatestInteger

instance (n : Int) : Decidable (InRange n) :=
  inferInstanceAs (Decidable (_ ∧ _))

theorem InRange.fitsReal {n : Int} (inRange : InRange n) : FitsReal n := by
  have small : 0x8000000000000000 < leastTooLarge := by decide +kernel
  unfold InRange leastInteger greatestInteger at inRange
  unfold FitsReal
  omega

namespace Value

mutual

/-- The integers in a value, at any depth, from left to right. -/
def integers : Value → List Int
  | .boolean _ => []
  | .integer n => [n]
  | .real _ => []
  | .list elements => integersAll elements

def integersAll : List Value → List Int
  | [] => []
  | v :: vs => v.integers ++ integersAll vs

end

theorem mem_integersAll {n : Int} {vs : List Value} :
    n ∈ integersAll vs ↔ ∃ v ∈ vs, n ∈ v.integers := by
  induction vs with
  | nil => simp [integersAll]
  | cons v vs ih => simp [integersAll, ih]

theorem forall_mem_integersAll {S : Int → Prop} {vs : List Value} :
    (∀ n ∈ integersAll vs, S n) ↔ ∀ v ∈ vs, ∀ n ∈ v.integers, S n := by
  simp only [mem_integersAll]
  exact ⟨fun all v member n part => all n ⟨v, member, part⟩,
    fun all n ⟨v, member, part⟩ => all v member n part⟩

end Value

section

open Float.Model

theorem less_iff (x y : Float) :
    x < y ↔ x.toModel.unpack.compare y.toModel.unpack = some .lt := by
  change decide (x.toModel < y.toModel) = true ↔ _
  rw [decide_eq_true_eq]
  change UnpackedFloat.lt _ _ = true ↔ _
  rw [UnpackedFloat.lt, beq_iff_eq]

theorem equal_iff (x y : Float) :
    (x == y) = true ↔ x.toModel.unpack.compare y.toModel.unpack = some .eq := by
  change (x.toModel.unpack.compare y.toModel.unpack == some .eq) = true ↔ _
  rw [beq_iff_eq]

theorem sign_cases (x : Float) :
    x < 0.0 ∨ (x == 0.0) = true ∨ 0.0 < x ∨ x.isNaN = true := by
  have zero : (0.0 : Float).toModel.unpack = .zero .positive := rfl
  have nan : x.isNaN = x.toModel.unpack.isNaN := rfl
  rw [less_iff, equal_iff, less_iff, nan, zero]
  cases x.toModel.unpack with
  | notANumber => exact .inr (.inr (.inr rfl))
  | zero sign => exact .inr (.inl rfl)
  | infinity sign | finite sign =>
      cases sign with
      | positive => exact .inr (.inr (.inl rfl))
      | negative => exact .inl rfl

end

/-- What a host promises of its functions: a power raises nothing but an overflow or a domain
    error, an exponential nothing but an overflow, and logarithms and square roots succeed
    where they are defined, infinity and NaN included. -/
structure HostMath.Documented (m : HostMath) : Prop where
  pow : ∀ x y fault, m.pow x y = .error fault → fault = .overflow ∨ fault = .domain
  exp : ∀ x fault, m.exp x = .error fault → fault = .overflow
  log : ∀ x, 0.0 < x ∨ x.isNaN = true → ∃ y, m.log x = .ok y
  log2 : ∀ x, 0.0 < x ∨ x.isNaN = true → ∃ y, m.log2 x = .ok y
  log10 : ∀ x, 0.0 < x ∨ x.isNaN = true → ∃ y, m.log10 x = .ok y
  sqrt : ∀ x, (x == 0.0) = true ∨ 0.0 < x ∨ x.isNaN = true → ∃ y, m.sqrt x = .ok y

theorem nearest_settles {n : Int} (fits : FitsReal n) : nearest n = .ok (Float.ofInt n) :=
  if_pos fits

theorem nearest_overflows {n : Int} (large : ¬FitsReal n) : nearest n = .error .overflow :=
  if_neg large

theorem reciprocal_settles {n : Int} (fits : FitsReal n) (nonzero : n ≠ 0) :
    reciprocal n = .ok (1.0 / Float.ofInt n) := by
  rw [reciprocal, nearest_settles fits]
  exact if_neg nonzero

theorem divide_settles (x y : Float) : ∃ z, divide x y = .ok z := by
  unfold divide
  split
  · split <;> exact ⟨_, rfl⟩
  · rename_i nonzero
    exact ⟨x / y, if_neg nonzero⟩

namespace HostMath

variable {m : HostMath}

theorem power_settles (documented : m.Documented) (base exponent : Float) :
    ∃ y, m.power base exponent = .ok y := by
  unfold power
  cases result : m.pow base exponent with
  | ok y => exact ⟨y, rfl⟩
  | error fault =>
      rcases documented.pow base exponent fault result with rfl | rfl
      · exact ⟨_, rfl⟩
      · dsimp only
        split <;> exact ⟨_, rfl⟩

theorem integerPower_settles (documented : m.Documented) (base : Float) {n : Int}
    (fits : FitsReal n) : ∃ y, m.integerPower base n = .ok y := by
  rw [integerPower, nearest_settles fits]
  exact power_settles documented base (Float.ofInt n)

theorem root_settles (documented : m.Documented) (x : Float) {degree : Int}
    (fits : FitsReal degree) : ∃ y, m.root x degree = .ok y := by
  unfold root
  split
  · exact ⟨_, rfl⟩
  · rename_i nonzero
    rw [reciprocal_settles fits nonzero]
    obtain ⟨y, direct⟩ := power_settles documented x (1.0 / Float.ofInt degree)
    obtain ⟨z, mirrored⟩ := power_settles documented (-x) (1.0 / Float.ofInt degree)
    change ∃ w, (if x < 0.0 ∧ degree % 2 = 1 then _ else _) = _
    split
    · exact ⟨-z, by rw [mirrored]; rfl⟩
    · exact ⟨y, direct⟩

theorem exponential_settles (documented : m.Documented) (x : Float) :
    ∃ y, m.exponential x = .ok y := by
  unfold exponential
  cases result : m.exp x with
  | ok y => exact ⟨y, rfl⟩
  | error fault =>
      obtain rfl := documented.exp x fault result
      exact ⟨_, rfl⟩

theorem squareRoot_settles (documented : m.Documented) (x : Float) :
    ∃ y, m.squareRoot x = .ok y := by
  unfold squareRoot
  split
  · exact ⟨_, rfl⟩
  · rename_i guarded
    exact documented.sqrt x ((sign_cases x).resolve_left guarded)

theorem logarithm_settles {log : Float → Except Fault Float}
    (documented : ∀ x, 0.0 < x ∨ x.isNaN = true → ∃ y, log x = .ok y) (x : Float) :
    ∃ y, logarithm log x = .ok y := by
  unfold logarithm
  split
  · exact ⟨_, rfl⟩
  · rename_i nonzero
    split
    · exact ⟨_, rfl⟩
    · rename_i guarded
      exact documented x (((sign_cases x).resolve_left guarded).resolve_left nonzero)

theorem standard_documented : standard.Documented where
  pow := by
    intro x y fault raised
    simp only [standard] at raised
    split at raised
    · cases raised
      split
      · exact .inr rfl
      · exact .inl rfl
    · cases raised
  exp := by
    intro x fault raised
    simp only [standard] at raised
    split at raised
    · cases raised
      rfl
    · cases raised
  log x defined := ⟨x.log, if_pos (by simpa using defined)⟩
  log2 x defined := ⟨x.log2, if_pos (by simpa using defined)⟩
  log10 x defined := ⟨x.log10, if_pos (by simpa using defined)⟩
  sqrt := by
    intro x defined
    by_cases zero : (x == 0.0) = true
    · exact ⟨x.sqrt, if_pos zero⟩
    · have positive := defined.resolve_left zero
      refine ⟨x.sqrt, (if_neg zero).trans (if_pos ?_)⟩
      simpa using positive

end HostMath

/-- Whether the arithmetic of an operation always has a result. -/
def Operation.Settles : Operation → Prop
  | constant x => ∃ y, x = .ok y
  | unary _ f => ∀ x, ∃ y, f x = .ok y
  | binary _ _ f => ∀ x y, ∃ z, f x y = .ok z
  | indexed _ _ f => ∀ x n, FitsReal n → ∃ y, f x n = .ok y
  | comparison .. => True

namespace Primitive

theorem catalog_settles {m : HostMath} (documented : m.Documented) :
    ∀ p ∈ catalog m, p.operation.Settles := by
  have total (f : Float → Float → Float) (x y : Float) :
      ∃ z, (Except.ok (f x y) : Except Fault Float) = .ok z := ⟨_, rfl⟩
  simp only [catalog, constants, arithmetic, exponentials, logarithms, comparisons,
    List.forall_mem_append, List.forall_mem_cons, List.not_mem_nil, false_implies, implies_true,
    and_true]
  refine ⟨⟨⟨⟨⟨_, rfl⟩, ?arithmetic⟩, ?exponentials⟩, ?logarithms⟩, trivial, trivial, trivial⟩
  case arithmetic =>
    exact ⟨total (· + ·), total (· - ·), total (· * ·), divide_settles,
      fun x => ⟨x * x, rfl⟩, HostMath.squareRoot_settles documented,
      HostMath.power_settles documented,
      fun base n => HostMath.integerPower_settles documented base,
      fun x n => HostMath.root_settles documented x⟩
  case exponentials =>
    exact ⟨HostMath.exponential_settles documented, HostMath.power_settles documented 2.0,
      HostMath.power_settles documented 10.0⟩
  case logarithms =>
    exact ⟨HostMath.logarithm_settles documented.log, HostMath.logarithm_settles documented.log2,
      HostMath.logarithm_settles documented.log10⟩

/-- How an operation may fail on arguments, if they are as many as it takes. It raises a fault of
    its own accord only if its guards leave room for one. -/
inductive FailsOn (p : Primitive) (arguments : List Value) : EvalError → Prop
  | type {e} (kind : e.kind = .invalidType) : FailsOn p arguments e
  | fault (cause : Fault)
      (origin : p.operation.Settles → ∃ n, .integer n ∈ arguments ∧ ¬FitsReal n) :
      FailsOn p arguments (.fault cause)

/-- Whether a value is a result of arithmetic. -/
inductive Computed : Value → Prop
  | boolean (b : Bool) : Computed (.boolean b)
  | real (x : Float) : Computed (.real x)

section

variable {p : Primitive} {arguments : List Value}

theorem realArgument_meets {a : Value} (member : a ∈ arguments) :
    (Run.ofExcept (realArgument p.name a)).Meets (fun _ => True) (p.FailsOn arguments) := by
  cases a with
  | real x => exact .pure trivial
  | integer n =>
      by_cases fits : FitsReal n
      · rw [realArgument, nearest_settles fits]
        exact .pure trivial
      · rw [realArgument, nearest_overflows fits]
        exact .fail (.fault .overflow fun _ => ⟨n, member, fits⟩)
  | boolean | list => exact .fail (.type rfl)

theorem integerArgument_meets {a : Value} (member : a ∈ arguments) :
    (Run.ofExcept (integerArgument p.name a)).Meets (fun n => .integer n ∈ arguments)
      (p.FailsOn arguments) := by
  cases a with
  | integer n => exact .pure member
  | real | boolean | list => exact .fail (.type rfl)

theorem result_meets {x : Except Fault Float}
    (settles : p.operation.Settles → (∃ y, x = .ok y) ∨ ∃ n, .integer n ∈ arguments ∧ ¬FitsReal n) :
    (Run.ofExcept (result x)).Meets Computed (p.FailsOn arguments) := by
  cases x with
  | ok y => exact .pure (.real y)
  | error cause =>
      refine .fail (.fault cause fun guarded => ?_)
      rcases settles guarded with ⟨y, same⟩ | origin
      · cases same
      · exact origin

/-- A predefined operation computes a truth value or a real. -/
theorem apply_meets (count : arguments.length = p.signature.arity) :
    (Run.ofExcept (p.apply arguments)).Meets Computed (p.FailsOn arguments) := by
  obtain ⟨name, operation⟩ := p
  cases operation with
  | constant x =>
      obtain rfl := List.length_eq_zero_iff.mp count
      exact result_meets .inl
  | unary value f =>
      obtain ⟨a, rfl⟩ := List.length_eq_one_iff.mp count
      simp only [apply, applyBy, pure_bind, Run.ofExcept_bind]
      refine (realArgument_meets (by simp)).bind fun x _ => ?_
      exact result_meets fun settles => .inl (settles x)
  | binary lhs rhs f =>
      obtain ⟨a, b, rfl⟩ := List.length_eq_two.mp count
      simp only [apply, applyBy, pure_bind, Run.ofExcept_bind]
      refine (realArgument_meets (by simp)).bind fun x _ => ?_
      refine (realArgument_meets (by simp)).bind fun y _ => ?_
      exact result_meets fun settles => .inl (settles x y)
  | indexed value index f =>
      obtain ⟨a, b, rfl⟩ := List.length_eq_two.mp count
      simp only [apply, applyBy, pure_bind, Run.ofExcept_bind]
      refine (realArgument_meets (by simp)).bind fun x _ => ?_
      refine (integerArgument_meets (by simp)).bind fun n taken => ?_
      refine result_meets fun settles => ?_
      by_cases fits : FitsReal n
      · exact .inl (settles x n fits)
      · exact .inr ⟨n, taken, fits⟩
  | comparison lhs rhs f =>
      obtain ⟨a, b, rfl⟩ := List.length_eq_two.mp count
      simp only [apply, applyBy, pure_bind, Run.ofExcept_bind]
      refine (realArgument_meets (by simp)).bind fun x _ => ?_
      refine (realArgument_meets (by simp)).bind fun y _ => ?_
      exact .pure (.boolean _)

theorem applyBy_of_count_ne {α : Type} (look : α → Except EvalError Value) {objects : List α}
    (count : objects.length ≠ p.signature.arity) :
    p.applyBy look objects =
      objects.mapM look >>= fun vs => .error (.wrongArgumentCount p.signature vs) := by
  obtain ⟨name, operation⟩ := p
  rcases objects with _ | ⟨a, _ | ⟨b, _ | ⟨c, rest⟩⟩⟩ <;> cases operation
  case nil.constant => exact (count rfl).elim
  case cons.nil.unary => exact (count rfl).elim
  case cons.cons.nil.binary | cons.cons.nil.indexed | cons.cons.nil.comparison =>
    exact (count rfl).elim
  all_goals rfl

theorem apply_of_count_ne (count : arguments.length ≠ p.signature.arity) :
    p.apply arguments = .error (.wrongArgumentCount p.signature arguments) := by
  rw [apply, applyBy_of_count_ne pure count, List.mapM_pure, List.map_id', pure_bind]

end

end Primitive

end Formulary
