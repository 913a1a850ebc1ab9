import Formulary.Proofs.Dispatch
import Formulary.Proofs.Guards

/-! # Predefined functions keep to their signatures

A predefined function checks its arguments itself, one after the other, and computes once all
of them have passed. Its checks let through just what its signature declares, and nothing goes
wrong behind them as long as integers fit 64 bits.
-/

namespace Formulary

/-- The leftmost argument that cannot be passed to the parameter at its position. -/
inductive FirstRefused : List Value → List Ty → Value → Prop
  | here {a arguments t types} (refused : ¬a.type.PassesFor t) :
      FirstRefused (a :: arguments) (t :: types) a
  | later {b arguments t types a} (passes : b.type.PassesFor t)
      (rest : FirstRefused arguments types a) : FirstRefused (b :: arguments) (t :: types) a

/-- Whether an error reports that a value is of the wrong type. -/
def EvalError.Refuses (e : EvalError) (a : Value) : Prop :=
  e.kind = .invalidType ∧ e.report.received = some a.textWithType

/-- Whether taking an argument for a parameter of a type lets through what can be passed to
    it, and refuses anything else. -/
def Takes {α : Type} (taken : Except EvalError α) (a : Value) (t : Ty) : Prop :=
  a.type.PassesFor t ∧ (∃ x, taken = .ok x) ∨
    ¬a.type.PassesFor t ∧ ∃ e, taken = .error e ∧ e.Refuses a

theorem realArgument_takes (function : String) {a : Value}
    (fits : ∀ n, a = .integer n → FitsReal n) : Takes (realArgument function a) a .real := by
  cases a with
  | real x => exact .inl ⟨by simp [Ty.PassesFor, Value.type], _, rfl⟩
  | integer n =>
      refine .inl ⟨by simp [Ty.PassesFor, Value.type], Float.ofInt n, ?_⟩
      rw [realArgument, nearest_settles (fits n rfl)]
      rfl
  | boolean | list => exact .inr ⟨by simp [Ty.PassesFor, Value.type], _, rfl, rfl, rfl⟩

theorem integerArgument_takes (function : String) (a : Value) :
    Takes (integerArgument function a) a .integer := by
  cases a with
  | integer => exact .inl ⟨by simp [Ty.PassesFor, Value.type], _, rfl⟩
  | real | boolean | list => exact .inr ⟨by simp [Ty.PassesFor, Value.type], _, rfl, rfl, rfl⟩

theorem integerArgument_eq_ok {function : String} {a : Value} {n : Int}
    (taken : integerArgument function a = .ok n) : a = .integer n := by
  cases a <;> cases taken
  rfl

/-- Whether a result is as a signature with these types has it: a value of the type that is
    returned where all arguments can be passed, and otherwise an error about the leftmost one
    that cannot. -/
def KeepsTo (types : List Ty) (returns : Ty) (arguments : List Value)
    (result : Except EvalError Value) : Prop :=
  List.Forall₂ Ty.PassesFor (arguments.map Value.type) types ∧
      (∃ v, result = .ok v ∧ v.type = returns) ∨
    ∃ a e, FirstRefused arguments types a ∧ result = .error e ∧ e.Refuses a

theorem KeepsTo.ofValue {v : Value} {returns : Ty} (type : v.type = returns) :
    KeepsTo [] returns [] (.ok v) :=
  .inl ⟨.nil, v, rfl, type⟩

theorem KeepsTo.ofResult {x : Except Fault Float} (settles : ∃ y, x = .ok y) :
    KeepsTo [] .real [] (Primitive.result x) := by
  obtain ⟨y, rfl⟩ := settles
  exact .ofValue rfl

theorem KeepsTo.take {α : Type} {taken : Except EvalError α} {a : Value} {t returns : Ty}
    {arguments : List Value} {types : List Ty} {next : α → Except EvalError Value}
    (first : Takes taken a t)
    (rest : ∀ x, taken = .ok x → KeepsTo types returns arguments (next x)) :
    KeepsTo (t :: types) returns (a :: arguments) (taken >>= next) := by
  rcases first with ⟨passes, x, rfl⟩ | ⟨refused, e, rfl, refuses⟩
  · rcases rest x rfl with ⟨others, ends⟩ | ⟨b, e, later, ends⟩
    · exact .inl ⟨.cons passes others, ends⟩
    · exact .inr ⟨b, e, .later passes later, ends⟩
  · exact .inr ⟨a, e, .here refused, rfl, refuses⟩

theorem Primitive.apply_keepsTo {p : Primitive} (settles : p.operation.Settles)
    {arguments : List Value} (count : arguments.length = p.signature.arity)
    (fits : ∀ n, .integer n ∈ arguments → FitsReal n) :
    KeepsTo p.signature.types p.signature.returns arguments (p.apply arguments) := by
  have real (a : Value) (member : a ∈ arguments) : Takes (realArgument p.name a) a .real :=
    realArgument_takes p.name fun n same => fits n (same ▸ member)
  obtain ⟨name, operation⟩ := p
  cases operation with
  | constant x =>
      obtain rfl := List.length_eq_zero_iff.mp count
      exact .ofResult settles
  | unary value f =>
      obtain ⟨a, rfl⟩ := List.length_eq_one_iff.mp count
      simp only [apply, applyBy, pure_bind]
      exact .take (real a (by simp)) fun x _ => .ofResult (settles x)
  | binary lhs rhs f =>
      obtain ⟨a, b, rfl⟩ := List.length_eq_two.mp count
      simp only [apply, applyBy, pure_bind]
      refine .take (real a (by simp)) fun x _ => ?_
      exact .take (real b (by simp)) fun y _ => .ofResult (settles x y)
  | comparison lhs rhs f =>
      obtain ⟨a, b, rfl⟩ := List.length_eq_two.mp count
      simp only [apply, applyBy, pure_bind]
      refine .take (real a (by simp)) fun x _ => ?_
      exact .take (real b (by simp)) fun y _ => .ofValue rfl
  | indexed value index f =>
      obtain ⟨a, b, rfl⟩ := List.length_eq_two.mp count
      simp only [apply, applyBy, pure_bind]
      refine .take (real a (by simp)) fun x _ => ?_
      refine .take (integerArgument_takes name b) fun n taken => .ofResult (settles x n ?_)
      exact fits n (integerArgument_eq_ok taken ▸ by simp)

theorem FirstRefused.not_passed {arguments : List Value} {types : List Ty} {a : Value}
    (refused : FirstRefused arguments types a) :
    ¬List.Forall₂ Ty.PassesFor (arguments.map Value.type) types := by
  induction refused with
  | here refused => simp [refused]
  | later _ _ ih => simp [ih]

/-- A function that carries out an operation ends as the operation does. The check that comes
    before its body only anticipates one that the operation makes itself. -/
theorem Library.invoke_primitive (l : Library) (depth : Nat) {f : Function} {p : Primitive}
    (signature : f.signature = p.signature) (body : f.body = .primitive p)
    (arguments : List Value) :
    l.invoke (depth + 1) f arguments = Run.ofExcept (p.apply arguments) := by
  have arity : f.arity = p.signature.arity := congrArg Signature.arity signature
  rw [invoke, arity, body, signature]
  split
  · rename_i count
    rw [Primitive.apply_of_count_ne count]
    rfl
  · rfl

/-- On a host that keeps its promises no predefined function raises a fault, whatever the
    arguments, as long as integers fit 64 bits. It fails for the number of arguments exactly
    when this is not the one of its parameters. With the right number of arguments it fails
    for the type of the leftmost one that its signature does not accept, and if the signature
    accepts all of them it has a value of the type that it declares. -/
theorem Primitive.apply_as_declared {m : HostMath} (documented : m.Documented) {p : Primitive}
    (member : p ∈ catalog m) {arguments : List Value}
    (fits : ∀ n, .integer n ∈ arguments → InRange n) :
    let s := p.signature
    let result := p.apply arguments
    (∀ f : Function, f.signature = s → f.body = .primitive p →
        ∀ (l : Library) (depth : Nat), l.invoke (depth + 1) f arguments = Run.ofExcept result) ∧
      (∀ cause, result ≠ .error (.fault cause)) ∧
      ((∃ e, result = .error e ∧ e.kind = .invalidParameters) ↔ arguments.length ≠ s.arity) ∧
      (arguments.length = s.arity → s.distance? (arguments.map Value.type) = none →
        ∃ a e, FirstRefused arguments s.types a ∧ result = .error e ∧ e.kind = .invalidType ∧
          e.report.received = some a.textWithType) ∧
      ∀ d, s.distance? (arguments.map Value.type) = some d →
        ∃ v, result = .ok v ∧ v.type = s.returns := by
  intro s result
  have keepsTo (count : arguments.length = s.arity) : KeepsTo s.types s.returns arguments result :=
    apply_keepsTo (catalog_settles documented p member) count
      fun n inside => (fits n inside).fitsReal
  have kinds : ∀ e, result = .error e →
      e.kind = if arguments.length = s.arity then .invalidType else .invalidParameters := by
    intro e failed
    split
    · rename_i count
      rcases keepsTo count with ⟨_, v, ended, _⟩ | ⟨a, e', _, ended, refuses⟩ <;>
        rw [ended] at failed <;> cases failed
      exact refuses.1
    · rename_i count
      have ended : result = _ := apply_of_count_ne count
      rw [ended] at failed
      cases failed
      rfl
  refine ⟨fun f signature body l depth => l.invoke_primitive depth signature body arguments,
    fun cause failed => ?_, ⟨?_, fun count => ⟨_, apply_of_count_ne count, rfl⟩⟩, ?_, ?_⟩
  · have kind := kinds _ failed
    split at kind <;> cases kind
  · rintro ⟨e, failed, kind⟩ count
    rw [kinds e failed, if_pos count] at kind
    cases kind
  · intro count none
    rcases keepsTo count with ⟨passed, _⟩ | refusal
    · exact (Signature.distance?_eq_none_iff.mp none passed).elim
    · exact refusal
  · intro d accepted
    have passed := (Signature.distance?_eq_some_iff.mp accepted).1
    have count := Signature.length_eq_of_distance? accepted
    rw [List.length_map] at count
    rcases keepsTo count with ⟨_, ends⟩ | ⟨a, _, refused, _⟩
    · exact ends
    · exact (refused.not_passed passed).elim

/-- The degree of a root is an integer, which a real cannot stand for. The number that the root
    is taken of may be either, and a negative one has its root like any other. -/
theorem Primitive.apply_as_declared_root :
    let p : Primitive := ⟨"root", .indexed "value" "n" HostMath.standard.root⟩
    let f : Function := ⟨p.signature, .primitive p, true, 9⟩
    let l := Library.predefined
    p ∈ catalog .standard ∧ f ∈ l.functions ∧
      (∃ e, p.apply [.integer (-8), .real 3.0] = .error e ∧
        e.kind = .invalidType ∧ e.report.received = some (Value.real 3.0).textWithType ∧
        l.invoke 1 f [.integer (-8), .real 3.0] = Run.fail e) ∧
      ∃ v, p.apply [.integer (-8), .integer 3] = .ok v ∧ v.type = .real ∧
        l.invoke 1 f [.integer (-8), .integer 3] = pure v := by
  intro p f l
  have member : p ∈ catalog .standard := by
    simp [catalog, arithmetic, p]
  have there : f ∈ l.functions := List.mem_of_getElem? (i := 9) rfl
  have documented := HostMath.standard_documented
  refine ⟨member, there, ?_, ?_⟩
  · have fits : ∀ n, .integer n ∈ [Value.integer (-8), .real 3.0] → InRange n := by
      simp [InRange, leastInteger, greatestInteger]
    obtain ⟨entered, _, _, refused, _⟩ := apply_as_declared documented member fits
    obtain ⟨a, e, first, failed, kind, received⟩ := refused rfl rfl
    refine ⟨e, failed, kind, ?_, (entered f rfl rfl l 0).trans (by rw [failed]; rfl)⟩
    cases first with
    | here refused => exact (refused (.inr ⟨rfl, rfl⟩)).elim
    | later _ rest =>
        cases rest with
        | here => exact received
        | later _ rest => cases rest
  · have fits : ∀ n, .integer n ∈ [Value.integer (-8), .integer 3] → InRange n := by
      simp [InRange, leastInteger, greatestInteger]
    obtain ⟨entered, _, _, _, accepted⟩ := apply_as_declared documented member fits
    obtain ⟨v, ended, type⟩ := accepted 2 rfl
    exact ⟨v, ended, type, (entered f rfl rfl l 0).trans (by rw [ended]; rfl)⟩

end Formulary
