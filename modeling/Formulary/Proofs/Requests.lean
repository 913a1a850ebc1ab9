import Formulary.Proofs.Registration
import Formulary.Workspace.Basic

/-! # What becomes of a request

Every request to a workspace either fails and leaves the library as it was, or
registers one function, or takes one out. A recursive definition registers a
function that is only announced along the way. In the end nothing is left of it, unless
the host breaks the definition off.
-/

namespace Formulary

/-- What a host can ask of a library. -/
inductive Request where
  | register (f : Function)
  | unregister (f : Function)
  | define (name : String) (code : Code)
  | defineRecursive (name : String) (code : Code) (arity : Int)

/-- What becomes of a request. It is refused with an error of definition, or in the case of a
    removal because there is nothing to take out. -/
inductive Verdict where
  | granted
  | refused
  /-- The host broke the request off. -/
  | brokenOff

def Verdict.ofExcept {α : Type} : Except DefinitionError α → Verdict
  | .ok _ => .granted
  | .error e => if e.kind.phase? = some .definition then .refused else .brokenOff

theorem DefinitionError.phase_or_tooDeep (e : DefinitionError) :
    e.kind.phase? = some .definition ∨ e = .tooDeep := by
  cases e <;> simp [kind, ErrorKind.phase?]

namespace Workspace

/-- Carry out a request. -/
def perform (w : Workspace) : Request → Workspace × Verdict
  | .register f => (w.register f).map id .ofExcept
  | .unregister f => (w.unregister f).map id fun done => if done then .granted else .refused
  | .define name code => (w.define name code).map id .ofExcept
  | .defineRecursive name code arity => (w.defineRecursive name code arity).map id .ofExcept

/-- The function that a rule becomes in a workspace. -/
def functionOf (w : Workspace) (name : String) (rule : Rule) : Function where
  signature := ⟨name, Code.realParameters w.stem rule.arity, .real⟩
  body := .tree rule.root
  predefined := false
  serial := w.nextSerial

theorem functionOf_arity (w : Workspace) (name : String) (rule : Rule) :
    (w.functionOf name rule).arity = rule.arity := by
  simp [functionOf, Function.arity, Signature.arity, Code.realParameters]

section

variable {w : Workspace} {l : Library} {f : Function} {code : Code}

theorem register_accepted (accepted : (w.library.register f).library? = some l) :
    ∃ w', w.register f = (w', .ok ()) ∧ w'.library = l ∧ w'.stem = w.stem ∧
      w'.levels = w.levels ∧ w'.nextSerial = w.nextSerial := by
  unfold register
  cases offered : w.library.register f with
  | added m | replaced m =>
      rw [offered] at accepted
      cases accepted
      exact ⟨_, rfl, rfl, rfl, rfl, rfl⟩
  | refused existing =>
      rw [offered] at accepted
      cases accepted

theorem register_refused (refused : (w.library.register f).library? = none) :
    ∃ w' e, w.register f = (w', .error e) ∧ e.kind.phase? = some .definition ∧
      w'.library = w.library := by
  unfold register
  cases offered : w.library.register f with
  | added m | replaced m =>
      rw [offered] at refused
      cases refused
  | refused existing => exact ⟨_, _, rfl, rfl, rfl⟩

theorem unregister_done (removed : w.library.unregister? f = some l) :
    ∃ w', w.unregister f = (w', true) ∧ w'.library = l := by
  rw [unregister, removed]
  exact ⟨_, rfl, rfl⟩

theorem build_ok {rule : Rule} (built : Rule.written w.library w.levels code = .ok rule)
    (name : String) :
    ∃ w', w.build name code = (w', .ok (w.functionOf name rule)) ∧ w'.library = w.library := by
  rw [build, built]
  exact ⟨_, rfl, rfl⟩

theorem build_error {e : DefinitionError}
    (failed : Rule.written w.library w.levels code = .error e) (name : String) :
    w.build name code = (w, .error e) := by
  rw [build, failed]

theorem build_made {name : String} (made : (w.build name code).2 = .ok f) :
    ∃ rule, Rule.written w.library w.levels code = .ok rule ∧ f = w.functionOf name rule := by
  cases built : Rule.written w.library w.levels code with
  | error e =>
      rw [build_error built] at made
      cases made
  | ok rule =>
      obtain ⟨w', building, _⟩ := build_ok built name
      rw [building] at made
      cases made
      exact ⟨rule, rfl, rfl⟩

theorem build_succeeds_iff {name : String} :
    (∃ f, (w.build name code).2 = .ok f) ↔
      ∃ rule, Rule.written w.library w.levels code = .ok rule := by
  constructor
  · rintro ⟨f, made⟩
    obtain ⟨rule, built, _⟩ := build_made made
    exact ⟨rule, built⟩
  · rintro ⟨rule, built⟩
    obtain ⟨w', building, _⟩ := build_ok built name
    exact ⟨_, congrArg Prod.snd building⟩

end

/-- A definition either registers what the code stands for, or fails and leaves the
    library as it was. -/
theorem define_cases (w : Workspace) (name : String) (code : Code) :
    (∃ rule l w', Rule.written w.library w.levels code = .ok rule ∧
        (w.library.register (w.functionOf name rule)).library? = some l ∧
        w.define name code = (w', .ok (w.functionOf name rule)) ∧ w'.library = l) ∨
      ∃ w' e, w.define name code = (w', .error e) ∧ w'.library = w.library := by
  cases built : Rule.written w.library w.levels code with
  | error e =>
      refine .inr ⟨w, e, ?_, rfl⟩
      simp only [define, build_error built name]
  | ok rule =>
      obtain ⟨w₁, building, same⟩ := build_ok built name
      cases offered : (w.library.register (w.functionOf name rule)).library? with
      | none =>
          rw [← same] at offered
          obtain ⟨w₂, e, registering, _, after⟩ := register_refused offered
          refine .inr ⟨w₂, e, ?_, after.trans same⟩
          simp only [define, building, registering]
      | some l =>
          have accepted := offered
          rw [← same] at accepted
          obtain ⟨w₂, registering, after, _⟩ := register_accepted accepted
          refine .inl ⟨rule, l, w₂.log (.defined (w.functionOf name rule).signature),
            rfl, offered, ?_, after⟩
          simp only [define, building, registering]

/-- Withdrawing an announcement restores the library from before it. -/
theorem withdraw_library {w : Workspace} {l : Library} {announced : Function}
    (accepted : (l.register announced).library? = some w.library)
    (replaceable : announced.predefined = false) :
    (w.withdraw announced (l.clash? announced.signature)).library = l := by
  cases displaced : l.clash? announced.signature with
  | some d =>
      have restored := Library.register_displaced accepted replaceable displaced
      obtain ⟨w', registering, after, _⟩ := register_accepted restored
      rw [withdraw, registering, after]
  | none =>
      have restored := Library.unregister?_added accepted replaceable displaced
      obtain ⟨w', unregistering, after⟩ := unregister_done restored
      rw [withdraw, unregistering, after]

/-- The rule that code stands for while a function of so many parameters is
    announced, provided that the code refers to as many. -/
def RecursiveRule (w : Workspace) (name : String) (code : Code) (arity : Int) (rule : Rule) :
    Prop :=
  ∃ m, (w.library.register (w.announce name arity).2).library? = some m ∧
    Rule.written m w.levels code = .ok rule ∧ (rule.arity : Int) = arity

section

variable {w : Workspace} {name : String} {code : Code} {arity : Int} {rule : Rule} {m : Library}

theorem recursiveRule_iff
    (offered : (w.library.register (w.announce name arity).2).library? = some m) :
    w.RecursiveRule name code arity rule ↔
      Rule.written m w.levels code = .ok rule ∧ (rule.arity : Int) = arity := by
  constructor
  · rintro ⟨m', offered', rest⟩
    rw [offered] at offered'
    cases offered'
    exact rest
  · intro rest
    exact ⟨m, offered, rest⟩

theorem announce_clashes_functionOf (declared : (rule.arity : Int) = arity) :
    (w.announce name arity).2.signature.Clashes
      ((w.announce name arity).1.functionOf name rule).signature := by
  subst declared
  exact .refl _

end

section

variable {w : Workspace} {name : String} {code : Code} {arity : Int} {rule : Rule} {m : Library}

theorem defineRecursive_unannounced
    (refused : (w.library.register (w.announce name arity).2).library? = none) :
    ∃ w' e, w.defineRecursive name code arity = (w', .error e) ∧
      e.kind.phase? = some .definition ∧ w'.library = w.library := by
  obtain ⟨w', e, registering, phase, after⟩ :=
    register_refused (w := (w.announce name arity).1) refused
  refine ⟨w', e, ?_, phase, after⟩
  simp only [defineRecursive, registering]

variable (offered : (w.library.register (w.announce name arity).2).library? = some m)

include offered

/-- While its code is read, the library holds the function that is announced. -/
theorem announce_accepted :
    ∃ w', (w.announce name arity).1.register (w.announce name arity).2 = (w', .ok ()) ∧
      w'.library = m ∧ w'.levels = w.levels ∧
      ∀ rule, w'.functionOf name rule = (w.announce name arity).1.functionOf name rule := by
  obtain ⟨w', registering, after, stem, levels, serial⟩ :=
    register_accepted (w := (w.announce name arity).1) offered
  refine ⟨w', registering, after, levels, fun rule => ?_⟩
  rw [functionOf, functionOf, stem, serial]

theorem withdraw_announced {v : Workspace} (held : v.library = m) :
    (v.withdraw (w.announce name arity).2
      (w.library.clash? (w.announce name arity).2.signature)).library = w.library :=
  withdraw_library (held.symm ▸ offered) rfl

theorem defineRecursive_unbuilt {e : DefinitionError}
    (failed : Rule.written m w.levels code = .error e) (phase : e.kind.phase? = some .definition) :
    ∃ w', w.defineRecursive name code arity = (w', .error e) ∧ w'.library = w.library := by
  obtain ⟨w₁, registering, after, levels, _⟩ := announce_accepted offered
  rw [← after, ← levels] at failed
  refine ⟨_, ?_, withdraw_announced offered after⟩
  simp only [defineRecursive, registering, build_error failed, if_pos phase]
  rfl

theorem defineRecursive_tooDeep (failed : Rule.written m w.levels code = .error .tooDeep) :
    ∃ w', w.defineRecursive name code arity = (w', .error .tooDeep) ∧ w'.library = m ∧
      w'.levels = w.levels := by
  obtain ⟨w₁, registering, after, levels, _⟩ := announce_accepted offered
  rw [← after, ← levels] at failed
  refine ⟨w₁, ?_, after, levels⟩
  simp only [defineRecursive, registering, build_error failed]
  rfl

theorem defineRecursive_undeclared (built : Rule.written m w.levels code = .ok rule)
    (undeclared : (rule.arity : Int) ≠ arity) :
    ∃ w', w.defineRecursive name code arity =
        (w', .error (.undeclaredArity name arity rule.arity)) ∧
      w'.library = w.library := by
  obtain ⟨w₁, registering, after, levels, _⟩ := announce_accepted offered
  rw [← after, ← levels] at built
  obtain ⟨w₂, building, held⟩ := build_ok built name
  refine ⟨_, ?_, withdraw_announced offered (held.trans after)⟩
  simp only [defineRecursive, registering, building, functionOf_arity, if_neg undeclared]
  rfl

theorem defineRecursive_declared (built : Rule.written m w.levels code = .ok rule)
    (declared : (rule.arity : Int) = arity) :
    ∃ l w', (w.library.register ((w.announce name arity).1.functionOf name rule)).library? =
        some l ∧
      w.defineRecursive name code arity =
        (w', .ok ((w.announce name arity).1.functionOf name rule)) ∧
      w'.library = l := by
  obtain ⟨w₁, registering, after, levels, made⟩ := announce_accepted offered
  rw [← after, ← levels] at built
  obtain ⟨w₂, building, held⟩ := build_ok built name
  rw [made] at building
  obtain ⟨l, again, direct⟩ :=
    Library.register_over offered rfl (announce_clashes_functionOf declared)
  obtain ⟨w₃, replacing, final, _⟩ := register_accepted ((held.trans after).symm ▸ again)
  refine ⟨l, w₃.log (.definedRecursive (w₁.functionOf name rule).signature), direct, ?_, final⟩
  simp only [defineRecursive, registering, building, functionOf_arity, if_pos declared, replacing,
    made]

end

/-- A recursive definition registers what the code stands for just as if nothing had
    been announced, or fails and leaves the library as it was, or is broken off and leaves
    the announced function in the library. -/
theorem defineRecursive_cases (w : Workspace) (name : String) (code : Code) (arity : Int) :
    (∃ rule l w', w.RecursiveRule name code arity rule ∧
        (w.library.register ((w.announce name arity).1.functionOf name rule)).library? = some l ∧
        w.defineRecursive name code arity =
          (w', .ok ((w.announce name arity).1.functionOf name rule)) ∧
        w'.library = l) ∨
      (∀ rule, ¬w.RecursiveRule name code arity rule) ∧
        ((∃ w' e, w.defineRecursive name code arity = (w', .error e) ∧
            e.kind.phase? = some .definition ∧ w'.library = w.library) ∨
          ∃ m w', (w.library.register (w.announce name arity).2).library? = some m ∧
            Rule.written m w.levels code = .error .tooDeep ∧
            w.defineRecursive name code arity = (w', .error .tooDeep) ∧ w'.library = m) := by
  cases offered : (w.library.register (w.announce name arity).2).library? with
  | none =>
      refine .inr ⟨?_, .inl (defineRecursive_unannounced offered)⟩
      rintro rule ⟨m, accepted, _⟩
      rw [offered] at accepted
      cases accepted
  | some m =>
      simp only [recursiveRule_iff offered]
      cases built : Rule.written m w.levels code with
      | error e =>
          have noRule (rule : Rule) :
              ¬((.error e : Except DefinitionError Rule) = .ok rule ∧ (rule.arity : Int) = arity) :=
            fun isRule => by cases isRule.1
          rcases e.phase_or_tooDeep with phase | rfl
          · obtain ⟨w', result, after⟩ := defineRecursive_unbuilt offered built phase
            exact .inr ⟨noRule, .inl ⟨w', e, result, phase, after⟩⟩
          · obtain ⟨w', result, left, _⟩ := defineRecursive_tooDeep offered built
            exact .inr ⟨noRule, .inr ⟨m, w', rfl, built, result, left⟩⟩
      | ok rule =>
          by_cases declared : (rule.arity : Int) = arity
          · obtain ⟨l, w', direct, result, after⟩ :=
              defineRecursive_declared offered built declared
            exact .inl ⟨rule, l, w', ⟨rfl, declared⟩, direct, result, after⟩
          · obtain ⟨w', result, after⟩ := defineRecursive_undeclared offered built declared
            refine .inr ⟨?_, .inl ⟨w', _, result, rfl, after⟩⟩
            rintro other ⟨same, inTime⟩
            cases same
            exact declared inTime

theorem defineRecursive_granted {w : Workspace} {name : String} {code : Code} {arity : Int}
    {f : Function} (made : (w.defineRecursive name code arity).2 = .ok f) :
    ∃ rule, w.RecursiveRule name code arity rule ∧
      f = (w.announce name arity).1.functionOf name rule ∧
      (w.library.register f).library? = some (w.defineRecursive name code arity).1.library := by
  rcases w.defineRecursive_cases name code arity with
    ⟨rule, l, w', isRule, accepted, result, after⟩ |
      ⟨_, ⟨w', e, result, _⟩ | ⟨m, w', _, _, result, _⟩⟩
  · rw [result] at made ⊢
    cases made
    exact ⟨rule, isRule, rfl, after ▸ accepted⟩
  all_goals
    rw [result] at made
    cases made

/-- A request that is refused leaves the library exactly as it was: the same
    functions in the same order, with no announced function among them and every
    displaced one back in its place. -/
theorem perform_refused (w : Workspace) (request : Request)
    (refused : (w.perform request).2 = .refused) :
    (w.perform request).1.library = w.library := by
  cases request with
  | register f =>
      cases offered : (w.library.register f).library? with
      | some l =>
          obtain ⟨w', granted, _⟩ := register_accepted offered
          rw [perform, granted] at refused
          cases refused
      | none =>
          obtain ⟨w', e, failed, _, same⟩ := register_refused offered
          rw [perform, failed]
          exact same
  | unregister f =>
      cases removed : w.library.unregister? f with
      | some l =>
          obtain ⟨w', granted, _⟩ := unregister_done removed
          rw [perform, granted] at refused
          cases refused
      | none =>
          rw [perform, unregister, removed]
          rfl
  | define name code =>
      rcases define_cases w name code with ⟨_, _, w', _, _, granted, _⟩ | ⟨w', e, failed, same⟩
      · rw [perform, granted] at refused
        cases refused
      · rw [perform, failed]
        exact same
  | defineRecursive name code arity =>
      rcases defineRecursive_cases w name code arity with
        ⟨_, _, w', _, _, granted, _⟩ | ⟨_, ⟨w', e, failed, _, same⟩ | ⟨_, w', _, _, failed, _⟩⟩
      · rw [perform, granted] at refused
        cases refused
      · rw [perform, failed]
        exact same
      · rw [perform, failed] at refused
        cases refused

/-- A workspace with two overloads of one name. -/
def overloaded : Workspace :=
  let w := ((predefined "x").perform (.define "f" [.param 0])).1
  (w.perform (.define "f" [.const (.boolean true)])).1

/-- The first overload is displaced and the code then leaves two trees. -/
theorem perform_refused_overloaded :
    (overloaded.perform (.defineRecursive "f" [.param 0, .apply "f", .param 2] 1)).2 = .refused ∧
      (overloaded.perform (.defineRecursive "f" [.param 0, .apply "f", .param 2] 1)).1.library =
        overloaded.library :=
  ⟨rfl, perform_refused overloaded _ rfl⟩

end Workspace

end Formulary
