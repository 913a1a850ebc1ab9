import Formulary.Proofs.RoundTrip

/-! # Which code is accepted, and what is wrong with the rest

Whether an instruction can be carried out depends on the library and on how many operands the
code before it leaves, but not on what these are. The number of operands changes by a fixed
amount with each instruction. So code can be judged by counting alone, without any tree, and
the first fault that counting finds is the one that is reported.
-/

namespace Formulary

namespace Instr

variable (l : Library)

/-- The name that an instruction refers to. -/
def callee? : Instr → Option String
  | .apply name | .map name | .reduce name => some name
  | .const _ | .param _ | .cond | .stray _ => none

/-- Whether the library has what the instruction refers to. An object that is no instruction
    does not refer to anything that a library could have. -/
def Resolves : Instr → Prop
  | .const _ | .param _ | .cond => True
  | .apply name => ∃ f, f ∈ l.overloads name
  | .map name => ∃ f ∈ l.overloads name, f.arity = 1
  | .reduce name => ∃ f ∈ l.overloads name, f.arity = 2
  | .stray _ => False

/-- How many operands an instruction takes. For a call these are as many as the oldest
    overload of its name has parameters. -/
def needs : Instr → Nat
  | .const _ | .param _ | .stray _ => 0
  | .cond => 3
  | .apply name => ((l.default? name).map Function.arity).getD 0
  | .map _ => 1
  | .reduce _ => 2

/-- By how much an instruction changes the number of operands: it leaves one in the place of
    those that it takes. -/
def change (instr : Instr) : Int :=
  1 - instr.needs l

/-- Whether an instruction can be carried out on so many operands. -/
def Suits (height : Int) (instr : Instr) : Prop :=
  instr.Resolves l ∧ instr.needs l ≤ height

/-- What is wrong with an instruction at a position where there are so many operands. Missing
    operands are a fault only of instructions that the library has something for. -/
inductive Fault (position : Nat) (height : Int) : Instr → DefinitionError → Prop
  | stray (object : Stray) :
      Fault position height (.stray object) (.strayInstruction position object)
  | apply {name} (unresolved : ¬(Instr.apply name).Resolves l) :
      Fault position height (.apply name) (.undefinedCallee position (.apply name) name)
  | map {name} (unresolved : ¬(Instr.map name).Resolves l) :
      Fault position height (.map name) (.undefinedOperand position (.map name) name .map)
  | reduce {name} (unresolved : ¬(Instr.reduce name).Resolves l) :
      Fault position height (.reduce name) (.undefinedOperand position (.reduce name) name .reduce)
  | operands {instr} {available : Nat} (resolves : instr.Resolves l) (here : height = available)
      (short : height < instr.needs l) :
      Fault position height instr
        (.missingOperands position instr (instr.needs l) available)

end Instr

namespace Code

variable (l : Library)

/-- How many operands there are after code, if each of its instructions finds its own. -/
def height (code : Code) : Int :=
  (code.map (Instr.change l)).sum

/-- Whether each instruction can be carried out on the operands that the code before it
    leaves. -/
def Faultless (code : Code) : Prop :=
  ∀ before instr after, code = before ++ instr :: after → instr.Suits l (height l before)

/-- The fault of the first instruction that has one. -/
def FirstFault (code : Code) (e : DefinitionError) : Prop :=
  ∃ before instr after, code = before ++ instr :: after ∧ Faultless l before ∧
    instr.Fault l before.length (height l before) e

/-- The first index, in the order in which they come up, that is negative or as large as the
    number of distinct indices. -/
def FirstOutside (code : Code) (e : DefinitionError) : Prop :=
  ∃ (before : List Int) (index : Int) (after : List Int),
    code.indices = before ++ index :: after ∧ (∀ i ∈ before, 0 ≤ i ∧ i < code.indices.length) ∧
    ¬(0 ≤ index ∧ index < code.indices.length) ∧ e = .parameterIndex index code.indices

end Code

theorem Library.ofArity?_eq_none_iff {l : Library} {name : String} {arity : Nat} :
    l.ofArity? name arity = none ↔ ¬∃ f ∈ l.overloads name, f.arity = arity := by
  rw [← exists_ofArity?_iff, Option.eq_none_iff_forall_ne_some, not_exists]

namespace Instr

variable {l : Library} {position : Nat} {height : Int} {instr : Instr} {e e' : DefinitionError}

theorem Fault.not_suits (fault : instr.Fault l position height e) : ¬instr.Suits l height := by
  rintro ⟨resolves, enough⟩
  cases fault with
  | stray => exact resolves
  | apply unresolved | map unresolved | reduce unresolved => exact unresolved resolves
  | operands _ _ short => omega

theorem Fault.unique (fault : instr.Fault l position height e)
    (fault' : instr.Fault l position height e') : e = e' := by
  cases fault with
  | stray =>
      cases fault' with
      | stray => rfl
      | operands resolves => exact resolves.elim
  | apply unresolved | map unresolved | reduce unresolved =>
      cases fault' with
      | operands resolves => exact (unresolved resolves).elim
      | _ => rfl
  | operands resolves here =>
      cases fault' with
      | stray => exact resolves.elim
      | apply unresolved | map unresolved | reduce unresolved => exact (unresolved resolves).elim
      | operands _ here' =>
          obtain rfl := Int.ofNat.inj (here.symm.trans here')
          rfl

theorem Fault.ofShort {n : Nat} {stack : List Node} (resolves : instr.Resolves l)
    (takes : instr.needs l = n) (short : stack.length < n) :
    instr.Fault l position stack.length (.missingOperands position instr n stack.length) := by
  obtain rfl := takes
  exact .operands resolves rfl (by omega)

theorem Fault.of_unresolved (fault : instr.Fault l position height e)
    (unresolved : ¬instr.Resolves l) : e.name? = instr.callee? ∧
      e.kind = if instr.callee?.isSome then .undefinedFunction else .invalidInstructions := by
  cases fault with
  | operands resolves => exact (unresolved resolves).elim
  | _ => exact ⟨rfl, rfl⟩

theorem Fault.of_resolves (fault : instr.Fault l position height e) (resolves : instr.Resolves l) :
    e.kind = .invalidInstructions ∧ ∃ available : Nat, height = available ∧
      e.report.expected = some s!"{instr.needs l} operands" ∧
      e.report.received = some s!"{available} operands" := by
  cases fault with
  | stray => exact resolves.elim
  | apply unresolved | map unresolved | reduce unresolved => exact (unresolved resolves).elim
  | operands _ here => exact ⟨rfl, _, here, rfl, rfl⟩

/-- Carrying out an instruction succeeds where it suits the number of trees on the stack, and
    changes that number as foretold. Otherwise it fails with what is wrong. -/
theorem build_spec (l : Library) (position : Nat) (instr : Instr) (stack : List Node) :
    match instr.build l position stack with
    | .ok after => instr.Suits l stack.length ∧ (after.length : Int) = stack.length + instr.change l
    | .error e => instr.Fault l position stack.length e := by
  cases instr with
  | const | param => exact ⟨⟨trivial, Int.natCast_nonneg _⟩, rfl⟩
  | cond =>
      rcases stack with _ | ⟨no, _ | ⟨yes, _ | ⟨test, rest⟩⟩⟩
      · exact .ofShort trivial rfl (by simp)
      · exact .ofShort trivial rfl (by simp)
      · exact .ofShort trivial rfl (by simp)
      · simp only [build, Suits, needs, change, List.length_cons]
        exact ⟨⟨trivial, by omega⟩, by omega⟩
  | apply name =>
      cases first : l.default? name with
      | none =>
          simp only [build, first]
          have unknown : l.overloads name = [] := List.head?_eq_none_iff.mp first
          exact .apply (by simp [Resolves, unknown])
      | some f =>
          have known : (Instr.apply name).Resolves l := ⟨f, List.mem_of_head? first⟩
          have takes : (Instr.apply name).needs l = f.arity := by rw [needs, first]; rfl
          by_cases enough : f.arity ≤ stack.length
          · simp only [build, first, if_pos enough, Suits, change, takes, List.length_cons,
              List.length_drop]
            exact ⟨⟨known, by omega⟩, by omega⟩
          · simp only [build, first, if_neg enough]
            exact .ofShort known takes (by omega)
  | map name =>
      cases found : l.ofArity? name ListOperator.map.arity with
      | none =>
          simp only [build, found]
          exact .map (Library.ofArity?_eq_none_iff.mp found)
      | some f =>
          have known : (Instr.map name).Resolves l := Library.exists_ofArity?_iff.mp ⟨f, found⟩
          cases stack with
          | nil =>
              simp only [build, found]
              exact .ofShort known rfl (by simp)
          | cons list rest =>
              simp only [build, found, Suits, needs, change, List.length_cons]
              exact ⟨⟨known, by omega⟩, by omega⟩
  | reduce name =>
      cases found : l.ofArity? name ListOperator.reduce.arity with
      | none =>
          simp only [build, found]
          exact .reduce (Library.ofArity?_eq_none_iff.mp found)
      | some f =>
          have known : (Instr.reduce name).Resolves l := Library.exists_ofArity?_iff.mp ⟨f, found⟩
          rcases stack with _ | ⟨list, _ | ⟨first, rest⟩⟩
          · simp only [build, found]
            exact .ofShort known rfl (by simp)
          · simp only [build, found]
            exact .ofShort known rfl (by simp)
          · simp only [build, found, Suits, needs, change, List.length_cons]
            exact ⟨⟨known, by omega⟩, by omega⟩
  | stray object => exact .stray object

theorem build_eq_error_iff {stack : List Node} :
    instr.build l position stack = .error e ↔ instr.Fault l position stack.length e := by
  have spec := build_spec l position instr stack
  constructor
  · intro failed
    rwa [failed] at spec
  · intro fault
    cases built : instr.build l position stack with
    | ok after =>
        rw [built] at spec
        exact (fault.not_suits spec.1).elim
    | error e' =>
        rw [built] at spec
        rw [fault.unique spec]

theorem build_eq_ok {stack after : List Node} (built : instr.build l position stack = .ok after) :
    instr.Suits l stack.length ∧ (after.length : Int) = stack.length + instr.change l := by
  have spec := build_spec l position instr stack
  rwa [built] at spec

end Instr

namespace Code

variable {l : Library} {code : Code} {instr : Instr} {e : DefinitionError}

theorem height_snoc (l : Library) (code : Code) (instr : Instr) :
    height l (code ++ [instr]) = height l code + instr.change l := by
  simp [height]

theorem snoc_eq_append_cons_iff {before after : Code} {instr' : Instr} :
    code ++ [instr] = before ++ instr' :: after ↔
      (∃ between, code = before ++ instr' :: between ∧ after = between ++ [instr]) ∨
        code = before ∧ instr = instr' ∧ after = [] := by
  constructor
  · intro split
    rcases after.eq_nil_or_concat' with rfl | ⟨between, last, rfl⟩
    · obtain ⟨same, same'⟩ := List.append_inj' split rfl
      exact .inr ⟨same, List.singleton_inj.mp same', rfl⟩
    · rw [← List.cons_append, ← List.append_assoc] at split
      obtain ⟨same, same'⟩ := List.append_inj' split rfl
      exact .inl ⟨between, same, by rw [List.singleton_inj.mp same']⟩
  · rintro (⟨between, rfl, rfl⟩ | ⟨rfl, rfl, rfl⟩)
    · rw [List.append_assoc, List.cons_append]
    · rfl

theorem faultless_nil (l : Library) : Faultless l [] := by
  intro before instr after split
  simp at split

theorem faultless_snoc : Faultless l (code ++ [instr]) ↔
    Faultless l code ∧ instr.Suits l (height l code) := by
  constructor
  · intro faultless
    refine ⟨fun before instr' after split => ?_, faultless code instr [] rfl⟩
    exact faultless before instr' (after ++ [instr]) (by rw [split]; simp)
  · rintro ⟨faultless, suits⟩ before instr' after split
    rcases snoc_eq_append_cons_iff.mp split with ⟨between, inside, _⟩ | ⟨rfl, rfl, _⟩
    · exact faultless before instr' between inside
    · exact suits

theorem firstFault_nil : ¬FirstFault l [] e := by
  rintro ⟨before, instr, after, split, _⟩
  simp at split

theorem firstFault_snoc : FirstFault l (code ++ [instr]) e ↔
    FirstFault l code e ∨ Faultless l code ∧ instr.Fault l code.length (height l code) e := by
  constructor
  · rintro ⟨before, instr', after, split, faultless, fault⟩
    rcases snoc_eq_append_cons_iff.mp split with ⟨between, inside, _⟩ | ⟨rfl, rfl, _⟩
    · exact .inl ⟨before, instr', between, inside, faultless, fault⟩
    · exact .inr ⟨faultless, fault⟩
  · rintro (⟨before, instr', after, rfl, faultless, fault⟩ | ⟨faultless, fault⟩)
    · exact ⟨before, instr', after ++ [instr], by simp, faultless, fault⟩
    · exact ⟨code, instr, [], rfl, faultless, fault⟩

theorem FirstFault.not_faultless (first : FirstFault l code e) : ¬Faultless l code := by
  obtain ⟨before, instr, after, rfl, _, fault⟩ := first
  exact fun faultless => fault.not_suits (faultless before instr after rfl)

theorem build_append (l : Library) (position : Nat) (before after : Code) (stack : List Node) :
    build l position (before ++ after) stack =
      build l position before stack >>= build l (position + before.length) after := by
  induction before generalizing position stack with
  | nil => rfl
  | cons instr before ih =>
      rw [List.cons_append, build, build]
      cases instr.build l position stack with
      | error e => rfl
      | ok next =>
          rw [List.length_cons, ← Nat.add_assoc, Nat.add_right_comm]
          exact ih (position + 1) next

theorem build_snoc (l : Library) (code : Code) (instr : Instr) :
    build l 0 (code ++ [instr]) [] = build l 0 code [] >>= instr.build l code.length := by
  rw [build_append, Nat.zero_add]
  cases build l 0 code [] with
  | error e => rfl
  | ok stack =>
      change build l code.length [instr] stack = instr.build l code.length stack
      rw [build]
      cases instr.build l code.length stack <;> rfl

theorem build_eq_ok {stack : List Node} (built : build l 0 code [] = .ok stack) :
    Faultless l code ∧ (stack.length : Int) = height l code := by
  induction code using List.reverseRecOn generalizing stack with
  | nil =>
      cases built
      exact ⟨faultless_nil l, rfl⟩
  | append_singleton code instr ih =>
      rw [build_snoc] at built
      cases earlier : build l 0 code [] with
      | error e =>
          rw [earlier] at built
          cases built
      | ok before =>
          rw [earlier] at built
          obtain ⟨faultless, count⟩ := ih earlier
          obtain ⟨suits, changed⟩ := Instr.build_eq_ok built
          rw [count] at suits changed
          exact ⟨faultless_snoc.mpr ⟨faultless, suits⟩, changed.trans (height_snoc ..).symm⟩

/-- Code cannot be carried out exactly when some instruction of it has a fault, and the first of
    these faults is reported. -/
theorem build_eq_error_iff : build l 0 code [] = .error e ↔ FirstFault l code e := by
  induction code using List.reverseRecOn generalizing e with
  | nil => exact ⟨fun failed => (nomatch failed), fun first => (firstFault_nil first).elim⟩
  | append_singleton code instr ih =>
      rw [build_snoc, firstFault_snoc, ← ih]
      cases earlier : build l 0 code [] with
      | error e' =>
          have faulty : ¬Faultless l code := (ih.mp earlier).not_faultless
          simp only [bind, Except.bind, faulty, false_and, or_false]
      | ok before =>
          obtain ⟨faultless, count⟩ := build_eq_ok earlier
          simp only [bind, Except.bind, faultless, true_and, ← count, Instr.build_eq_error_iff,
            reduceCtorEq, false_or]

theorem arity_eq_error_iff : code.arity = .error e ↔ FirstOutside code e := by
  have outside (i : Int) : i < 0 ∨ (code.indices.length : Int) ≤ i ↔
      ¬(0 ≤ i ∧ i < code.indices.length) := by omega
  rw [arity_eq_error_iff_find?]
  simp only [List.find?_eq_some_iff_append, outside, decide_eq_true_eq, FirstOutside]
  constructor
  · rintro ⟨index, ⟨beyond, before, after, split, within⟩, rfl⟩
    exact ⟨before, index, after, split, fun i member => by simpa using within i member, beyond, rfl⟩
  · rintro ⟨before, index, after, split, within, beyond, rfl⟩
    exact ⟨index, ⟨beyond, before, after, split, fun i member => by simpa using within i member⟩,
      rfl⟩

end Code

namespace Node

variable {l : Library} {code : Code} {root : Node} {e : DefinitionError}

theorem ofCode_of_build_error (failed : Code.build l 0 code [] = .error e) :
    ofCode l code = .error e := by
  rw [ofCode, Rule.ofCode, failed]
  rfl

theorem ofCode_of_build_singleton (built : Code.build l 0 code [] = .ok [root]) :
    ofCode l code = code.arity.map fun _ => root := by
  rw [ofCode, Rule.ofCode, built]
  cases code.arity <;> rfl

theorem ofCode_of_build_unbalanced {stack : List Node} (built : Code.build l 0 code [] = .ok stack)
    (unbalanced : stack.length ≠ 1) : ofCode l code = .error (.unbalanced stack.length) := by
  rw [ofCode, Rule.ofCode, built]
  rcases stack with _ | ⟨root, _ | ⟨next, rest⟩⟩
  · rfl
  · exact (unbalanced rfl).elim
  · rfl

end Node

/-- Code is accepted exactly when no instruction of it has a fault, one operand is left at the
    end, and the parameter indices are the first so many naturals. Otherwise what is reported
    is the fault of the first instruction that has one; if none has, that the code does not
    leave one operand; and if it does, the first parameter index out of range. A fault is
    reported with the name that cannot be resolved, or else with the operands that are needed
    and those that there are. -/
theorem Node.ofCode_firstFault (l : Library) (code : Code) :
    ((∃ root, ofCode l code = .ok root) ↔ code.Faultless l ∧ code.height l = 1 ∧
      ∃ count, GapFree (code.filterMap Instr.index?) count) ∧
    (∀ e, ofCode l code = .error e ↔
      code.FirstFault l e ∨
      (code.Faultless l ∧ code.height l ≠ 1 ∧
        ∃ left : Nat, code.height l = left ∧ e = .unbalanced left) ∨
      (code.Faultless l ∧ code.height l = 1 ∧ code.FirstOutside e)) ∧
    ∀ position height instr e, Instr.Fault l position height instr e →
      (¬instr.Resolves l → e.name? = instr.callee? ∧
        e.kind = if instr.callee?.isSome then .undefinedFunction else .invalidInstructions) ∧
      (instr.Resolves l → e.kind = .invalidInstructions ∧ ∃ available : Nat, height = available ∧
        e.report.expected = some s!"{instr.needs l} operands" ∧
        e.report.received = some s!"{available} operands") := by
  rw [← and_assoc]
  refine ⟨?_, fun position height instr e fault => ⟨fault.of_unresolved, fault.of_resolves⟩⟩
  cases built : Code.build l 0 code [] with
  | error e =>
      have faulty : ¬code.Faultless l := (Code.build_eq_error_iff.mp built).not_faultless
      simp [ofCode_of_build_error built, faulty, ← Code.build_eq_error_iff, built]
  | ok stack =>
      obtain ⟨faultless, count⟩ := Code.build_eq_ok built
      have noFault (e : DefinitionError) : ¬code.FirstFault l e :=
        fun first => first.not_faultless faultless
      by_cases one : stack.length = 1
      · obtain ⟨root, rfl⟩ := List.length_eq_one_iff.mp one
        have single : code.height l = 1 := count.symm
        -- Only the parameters are left to decide.
        rw [ofCode_of_build_singleton built]
        cases result : code.arity <;>
          simp [Except.map, faultless, single, noFault, ← Code.arity_eq_ok_iff,
            ← Code.arity_eq_error_iff, result]
      · rw [ofCode_of_build_unbalanced built one]
        simp [faultless, one, noFault, ← count, eq_comm]

/-- The unknown name comes before the condition that lacks operands, and both come before the
    parameter index that leaves a gap. -/
example : Node.ofCode .predefined [.param 1, .apply "f", .cond] =
    .error (.undefinedCallee 1 (.apply "f") "f") := rfl

end Formulary
