import Formulary.Proofs.CatalogValues
import Formulary.Proofs.Widening

/-! # Where integers come from

Predefined operations compute reals and truth values, and everything else hands values on
or makes lists of them. An integer in the result of an evaluation was therefore there
before: in a parameter, in a constant of the tree, or in a constant of some function of the
library. Conversion of host data lets no integer through that does not fit 64 bits, so
none turns up later.
-/

namespace Formulary

namespace Datum

mutual

/-- The parts of host data that are values already. -/
def values : Datum → List Value
  | .list elements => valuesAll elements
  | .value v => [v]
  | .boolean _ | .integer _ | .real _ | .stray _ => []

def valuesAll : List Datum → List Value
  | [] => []
  | d :: ds => d.values ++ valuesAll ds

end

mutual

theorem integers_toValue {d : Datum} {v : Value} (made : d.toValue = .ok v) {n : Int}
    (inside : n ∈ v.integers) : InRange n ∨ ∃ u ∈ d.values, n ∈ u.integers := by
  cases d with
  | boolean b | real x =>
      simp only [toValue, Except.ok.injEq] at made
      subst made
      simp [Value.integers] at inside
  | integer k =>
      simp only [toValue] at made
      split at made
      · rename_i fits
        cases made
        simp only [Value.integers, List.mem_singleton] at inside
        subst inside
        exact .inl fits
      · cases made
  | list elements =>
      simp only [toValue] at made
      cases converted : toValues elements with
      | error e =>
          rw [converted] at made
          cases made
      | ok vs =>
          rw [converted] at made
          cases made
          exact integers_toValues converted inside
  | value u =>
      cases made
      exact .inr ⟨v, by simp [values], inside⟩
  | stray object => cases made
termination_by sizeOf d

theorem integers_toValues {ds : List Datum} {vs : List Value} (made : toValues ds = .ok vs)
    {n : Int} (inside : n ∈ Value.integersAll vs) :
    InRange n ∨ ∃ u ∈ valuesAll ds, n ∈ u.integers := by
  cases ds with
  | nil =>
      cases made
      simp [Value.integersAll] at inside
  | cons d ds =>
      cases first : d.toValue with
      | error e => simp [toValues, first, bind, Except.bind] at made
      | ok v =>
          cases rest : toValues ds with
          | error e => simp [toValues, first, rest, bind, Except.bind] at made
          | ok ws =>
              simp only [toValues, first, rest, bind, Except.bind, pure, Except.pure,
                Except.ok.injEq] at made
              subst made
              simp only [Value.integersAll, List.mem_append] at inside
              simp only [valuesAll, List.mem_append]
              rcases inside with here | there
              · have := integers_toValue first here
                grind
              · have := integers_toValues rest there
                grind
termination_by sizeOf ds

end

end Datum

/-- The values that conversion of host data makes, where values among the data have to be
    made by conversion themselves. -/
inductive Value.Converted : Value → Prop
  | intro {d : Datum} {v : Value} :
      (∀ u ∈ d.values, Converted u) → d.toValue = .ok v → Converted v

theorem Value.Converted.integer {n : Int} (fits : InRange n) : (Value.integer n).Converted :=
  .intro (d := .integer n) (by simp [Datum.values]) (if_pos fits)

theorem Value.Converted.inRange {v : Value} (converted : v.Converted) :
    ∀ n ∈ v.integers, InRange n := by
  induction converted with
  | intro _ made ih =>
      intro n inside
      rcases Datum.integers_toValue made inside with fits | ⟨u, part, there⟩
      · exact fits
      · exact ih u part n there

/-- Whether a function is predefined, made from code, or supplied by a host in one of the
    simple forms. -/
inductive Function.Transparent (f : Function) : Prop
  | catalog (origin : f.FromCatalog)
  | code (origin : f.FromCode)
  | host (traced : Bool) (form : HostForm) (body : f.body = .host traced form.program)

/-- That all integers in values are among certain ones. Errors are of no interest. -/
def Condition.integersIn (S : Int → Prop) : Condition where
  value v := ∀ n ∈ v.integers, S n
  error _ := True
  boolean _ _ inside := absurd inside List.not_mem_nil
  real _ _ inside := absurd inside List.not_mem_nil
  list _ := Value.forall_mem_integersAll
  ordinary _ _ := trivial

theorem HostForm.keeps {S : Int → Prop} (form : HostForm)
    (constants : ∀ v, form = .constant v → ∀ n ∈ v.integers, S n) {arguments : List Value}
    (holds : ∀ a ∈ arguments, ∀ n ∈ a.integers, S n) :
    (form.program arguments).Keeps (.integersIn S) := by
  cases form with
  | constant v => exact constants v rfl
  | argument index =>
      simp only [program, HostProgram.argument]
      cases found : arguments[index]? with
      | none => trivial
      | some v => exact holds v (List.mem_of_getElem? found)
  | collect => exact ((Condition.integersIn S).list arguments).mpr holds
  | forward name => exact ⟨holds, fun _ => id⟩

/-- A function makes up no integer that is not in one of its constants. -/
theorem Function.Transparent.keeps {f : Function} (known : f.Transparent) {S : Int → Prop}
    (constants : ∀ c, f.body.HasConstant c → ∀ n ∈ c.integers, S n) :
    f.body.Keeps (.integersIn S) := by
  cases known with
  | catalog origin =>
      obtain ⟨p, _, _, body⟩ := origin
      rw [body]
      exact Primitive.keeps fun _ _ _ _ => trivial
  | code origin =>
      obtain ⟨w, name, _, rule, _, rfl⟩ := origin.exists_rule
      exact constants
  | host traced form body =>
      rw [body] at constants ⊢
      intro arguments holds
      apply form.keeps ?_ holds
      intro v same
      exact constants v (congrArg HostForm.program same)

/-- Every integer in the value of a tree, at any depth, is in one of the parameters, in a
    constant of the tree or in a constant of some function of the library. When all of
    these come from conversion of host data, it fits 64 bits. -/
theorem Library.integers_of_eval {l : Library} (known : ∀ f ∈ l.functions, f.Transparent)
    {root : Node} {parameters : List Value} {depth : Nat} {v : Value}
    (ended : (root.eval l (l.invoke depth) parameters).outcome = .value v) :
    (∀ n ∈ v.integers, (∃ p ∈ parameters, n ∈ p.integers) ∨
        (∃ c ∈ root.constants, n ∈ c.integers) ∨
        ∃ f ∈ l.functions, ∃ c, f.body.HasConstant c ∧ n ∈ c.integers) ∧
      ((∀ p ∈ parameters, p.Converted) → (∀ c ∈ root.constants, c.Converted) →
        (∀ f ∈ l.functions, ∀ c, f.body.HasConstant c → c.Converted) →
          ∀ n ∈ v.integers, InRange n) := by
  let S (n : Int) : Prop := (∃ p ∈ parameters, n ∈ p.integers) ∨
    (∃ c ∈ root.constants, n ∈ c.integers) ∨
    ∃ f ∈ l.functions, ∃ c, f.body.HasConstant c ∧ n ∈ c.integers
  have keeps : l.Keeps (.integersIn S) := by
    intro f member
    apply (known f member).keeps
    intro c held n part
    exact .inr (.inr ⟨f, member, c, held, part⟩)
  have constants : ∀ c ∈ root.constants, ∀ n ∈ c.integers, S n :=
    fun c inside n part => .inr (.inl ⟨c, inside, part⟩)
  have given : ∀ p ∈ parameters, ∀ n ∈ p.integers, S n :=
    fun p inside n part => .inl ⟨p, inside, part⟩
  have sources : ∀ n ∈ v.integers, S n := (keeps.eval depth constants given).value v ended
  refine ⟨sources, fun given constants bodies n inside => ?_⟩
  rcases sources n inside with ⟨p, there, part⟩ | ⟨c, there, part⟩ | ⟨f, there, c, held, part⟩
  · exact (given p there).inRange n part
  · exact (constants c there).inRange n part
  · exact (bodies f there c held).inRange n part

/-- A host function that makes a pair of its arguments. -/
def Function.pair : Function where
  signature := ⟨"pair", [⟨"first", .real⟩, ⟨"second", .real⟩], .list⟩
  body := .host true HostProgram.collect
  predefined := false
  serial := 21

/-- The factorial of zero is a constant of the factorial, and the integer next to it is a
    constant of the tree. -/
theorem Library.integers_of_eval_pair :
    let l := Workspace.withFactorial.library.after [.register .pair]
    let root : Node := .apply "pair" [.apply "fac" [.param 0], .const (.integer 7)]
    let v : Value := .list [.integer 1, .integer 7]
    (∀ f ∈ l.functions, f.Transparent) ∧
      (root.eval l (l.invoke 2) [.integer 0]).outcome = .value v ∧
      (∀ n ∈ v.integers, (∃ p ∈ [Value.integer 0], n ∈ p.integers) ∨
        (∃ c ∈ root.constants, n ∈ c.integers) ∨
        ∃ f ∈ l.functions, ∃ c, f.body.HasConstant c ∧ n ∈ c.integers) ∧
      ∀ n ∈ v.integers, InRange n := by
  intro l root v
  have functions : l.functions = Primitive.functions ++ [.factorial, .pair] := rfl
  have known : ∀ f ∈ l.functions, f.Transparent := by
    simp only [functions, List.forall_mem_append, List.forall_mem_cons]
    refine ⟨fun f member => .catalog (Primitive.fromCatalog_of_mem member), ?_, ?_, by simp⟩
    · exact .code Function.factorial_fromCode
    · exact .host true .collect rfl
  have ended : (root.eval l (l.invoke 2) [.integer 0]).outcome = .value v := rfl
  obtain ⟨sources, inRange⟩ := integers_of_eval known ended
  have zero : (Value.integer 0).Converted := .integer (by decide)
  have one : (Value.integer 1).Converted := .integer (by decide)
  have seven : (Value.integer 7).Converted := .integer (by decide)
  refine ⟨known, ended, sources, inRange ?_ ?_ ?_⟩
  · simpa using zero
  · simpa [root, Node.constants, Node.constantsAll] using seven
  · simp only [functions, List.forall_mem_append, List.forall_mem_cons]
    refine ⟨?_, ?_, ?_, by simp⟩
    · intro f member c held
      obtain ⟨p, _, _, body⟩ := Primitive.fromCatalog_of_mem member
      simp [body, Body.HasConstant] at held
    · intro c held
      simp only [Function.factorial, Body.HasConstant, Node.constants, Node.constantsAll,
        List.mem_append, List.mem_cons] at held
      grind
    · intro c same
      -- A pair is not a constant: it depends on what is paired.
      have nothing : HostProgram.collect [] = .answer c := congrFun same []
      have something : HostProgram.collect [c] = .answer c := congrFun same [c]
      simp [HostProgram.collect, ← something] at nothing

end Formulary
