import Formulary.Proofs.Changes
import Formulary.Proofs.Sessions

/-! # Workspaces that a host can bring about

A host may make functions of its own, build others from code, put them into the
library and take them out again. Whatever it does, a step makes at most one
function that it can hold on to, and changes the library only by functions that it
holds. From this follows what is true of every workspace: no two functions of the
library have the same key, and a serial number belongs to one function only.
-/

namespace Formulary

namespace Workspace

/-- The workspace that a host starts with. -/
def initial (includePredefined : Bool) (stem : String) : Workspace :=
  if includePredefined then predefined stem else empty stem

theorem initial_library (includePredefined : Bool) (stem : String) :
    (initial includePredefined stem).library = Library.initial includePredefined := by
  cases includePredefined <;> rfl

theorem register_nextSerial (w : Workspace) (f : Function) :
    (w.register f).1.nextSerial = w.nextSerial := by
  unfold register
  split <;> rfl

theorem unregister_nextSerial (w : Workspace) (f : Function) :
    (w.unregister f).1.nextSerial = w.nextSerial := by
  unfold unregister
  split <;> rfl

theorem withdraw_nextSerial (w : Workspace) (f : Function) (displaced : Option Function) :
    (w.withdraw f displaced).nextSerial = w.nextSerial := by
  cases displaced with
  | none => exact w.unregister_nextSerial f
  | some d => exact w.register_nextSerial d

theorem build_nextSerial (w : Workspace) (name : String) (code : Code) :
    (w.build name code).1.nextSerial = w.nextSerial + (given (w.build name code).2).length := by
  unfold build
  split <;> rfl

theorem define_nextSerial (w : Workspace) (name : String) (code : Code) :
    w.nextSerial + (given (w.define name code).2).length ≤ (w.define name code).1.nextSerial := by
  have built := w.build_nextSerial name code
  unfold define
  split
  · rename_i w₁ e failed
    rw [failed] at built
    exact Nat.le_of_eq built.symm
  · rename_i w₁ g made
    have offered := w₁.register_nextSerial g
    rw [made] at built
    split
    · rename_i w₂ e refused
      rw [refused] at offered
      simp only [given, List.length_singleton, List.length_nil] at built offered ⊢
      omega
    · rename_i w₂ granted
      rw [granted] at offered
      simp only [given, List.length_singleton, log] at built offered ⊢
      omega

theorem defineRecursive_nextSerial (w : Workspace) (name : String) (code : Code) (arity : Int) :
    w.nextSerial + 1 + (given (w.defineRecursive name code arity).2).length ≤
      (w.defineRecursive name code arity).1.nextSerial := by
  have announced : (w.announce name arity).1.nextSerial = w.nextSerial + 1 := rfl
  have standsIn := (w.announce name arity).1.register_nextSerial (w.announce name arity).2
  unfold defineRecursive
  simp only
  split
  · rename_i w₁ e refused
    rw [refused] at standsIn
    simp only [given, List.length_nil] at standsIn ⊢
    omega
  · rename_i w₁ granted
    have built := w₁.build_nextSerial name code
    rw [granted] at standsIn
    split
    · rename_i w₂ e failed
      rw [failed] at built
      split
      · simp only [withdraw_nextSerial, given, List.length_nil] at standsIn built ⊢
        omega
      · simp only [given, List.length_nil] at standsIn built ⊢
        omega
    · rename_i w₂ g made
      have offered := w₂.register_nextSerial g
      rw [made] at built
      split
      · split
        · rename_i w₃ e refused
          rw [refused] at offered
          simp only [given, List.length_singleton, List.length_nil] at standsIn built offered ⊢
          omega
        · rename_i w₃ accepted
          rw [accepted] at offered
          simp only [given, List.length_singleton, log] at standsIn built offered ⊢
          omega
      · simp only [withdraw_nextSerial, given, List.length_singleton, List.length_nil]
          at standsIn built ⊢
        omega

theorem register_library (w : Workspace) (f : Function) :
    (w.register f).1.library = w.library.after [.register f] := by
  rw [Library.after_cons, Library.after_nil, Library.change?]
  unfold register
  cases w.library.register f <;> rfl

theorem unregister_library (w : Workspace) (f : Function) :
    (w.unregister f).1.library = w.library.after [.unregister f] := by
  rw [Library.after_cons, Library.after_nil, Library.change?]
  unfold unregister
  cases w.library.unregister? f <;> rfl

/-- What a step amounts to: it makes at most one function that the host gets hold of, with
    a serial number of its own, and changes the library. -/
structure Advances (w w' : Workspace) (made : List Function) (changes : List Change) : Prop where
  library : w'.library = w.library.after changes
  supply : w.nextSerial ≤ w'.nextSerial
  numbered : ∀ f ∈ made, w.nextSerial ≤ f.serial ∧ f.serial < w'.nextSerial
  single : ∀ f ∈ made, ∀ g ∈ made, f = g

variable {w w' : Workspace} {f : Function} {changes : List Change}

theorem Advances.of_none (library : w'.library = w.library.after changes)
    (supply : w.nextSerial ≤ w'.nextSerial) : Advances w w' [] changes where
  library := library
  supply := supply
  numbered _ member := nomatch member
  single _ member := nomatch member

theorem Advances.of_one (library : w'.library = w.library.after changes)
    (first : w.nextSerial ≤ f.serial) (last : f.serial < w'.nextSerial) :
    Advances w w' [f] changes where
  library := library
  supply := by omega
  numbered g member := by
    rw [List.mem_singleton.mp member]
    exact ⟨first, last⟩
  single g first h second := by rw [List.mem_singleton.mp first, List.mem_singleton.mp second]

theorem Advances.of_accepted {l : Library} (accepted : (w.library.register f).library? = some l)
    (after : w'.library = l) (first : w.nextSerial ≤ f.serial) (last : f.serial < w'.nextSerial) :
    Advances w w' [f] [.register f] := by
  refine .of_one ?_ first last
  change w'.library = ((w.library.register f).library?).getD _
  rw [accepted, after, Option.getD_some]

theorem advances_restem (w : Workspace) (stem : String) : Advances w { w with stem } [] [] :=
  .of_none rfl (Nat.le_refl _)

theorem advances_create (w : Workspace) (s : Signature) (body : Body) (isPredefined : Bool) :
    Advances w (w.create s body isPredefined).1 [(w.create s body isPredefined).2] [] :=
  .of_one rfl (Nat.le_refl _) (Nat.lt_succ_self _)

theorem advances_register (w : Workspace) (f : Function) :
    Advances w (w.register f).1 [] [.register f] :=
  .of_none (w.register_library f) (Nat.le_of_eq (w.register_nextSerial f).symm)

theorem advances_unregister (w : Workspace) (f : Function) :
    Advances w (w.unregister f).1 [] [.unregister f] :=
  .of_none (w.unregister_library f) (Nat.le_of_eq (w.unregister_nextSerial f).symm)

theorem advances_build (w : Workspace) (name : String) (code : Code) :
    Advances w (w.build name code).1 (given (w.build name code).2) [] := by
  have serial := w.build_nextSerial name code
  cases built : Rule.written w.library w.levels code with
  | ok rule =>
      obtain ⟨w', result, same⟩ := build_ok built name
      rw [result] at serial ⊢
      exact .of_one same (Nat.le_refl _) (Nat.lt_of_lt_of_eq (Nat.lt_succ_self _) serial.symm)
  | error e =>
      rw [build_error built name]
      exact .of_none rfl (Nat.le_refl _)

theorem advances_define (w : Workspace) (name : String) (code : Code) :
    Advances w (w.define name code).1 (given (w.define name code).2)
      ((given (w.define name code).2).map .register) := by
  have serial := w.define_nextSerial name code
  rcases w.define_cases name code with
    ⟨rule, l, w', _, accepted, result, after⟩ | ⟨w', e, result, same⟩
  · rw [result] at serial ⊢
    exact .of_accepted accepted after (Nat.le_refl _) serial
  · rw [result] at serial ⊢
    exact .of_none same serial

/-- The function that a host gets hold of by a recursive definition: the one that it is given,
    or the announced one that is left in the library. -/
def obtained (w : Workspace) (name : String) (arity : Int)
    (result : Except DefinitionError Function) : List Function :=
  match result with
  | .ok f => [f]
  | .error .tooDeep => [(w.announce name arity).2]
  | .error _ => []

theorem obtained_error {e : DefinitionError} (phase : e.kind.phase? = some .definition)
    (w : Workspace) (name : String) (arity : Int) : w.obtained name arity (.error e) = [] := by
  cases e with
  | tooDeep => cases phase
  | _ => rfl

theorem advances_defineRecursive (w : Workspace) (name : String) (code : Code) (arity : Int) :
    Advances w (w.defineRecursive name code arity).1
      (w.obtained name arity (w.defineRecursive name code arity).2)
      ((w.obtained name arity (w.defineRecursive name code arity).2).map .register) := by
  have serial := w.defineRecursive_nextSerial name code arity
  rcases w.defineRecursive_cases name code arity with
    ⟨rule, l, w', _, accepted, result, after⟩ |
      ⟨_, ⟨w', e, result, phase, same⟩ | ⟨m, w', announced, _, result, after⟩⟩
  · rw [result] at serial ⊢
    exact .of_accepted accepted after (Nat.le_succ _) serial
  · rw [result] at serial ⊢
    rw [obtained_error phase]
    exact .of_none same (Nat.le_of_succ_le serial)
  · rw [result] at serial ⊢
    exact .of_accepted announced after (Nat.le_refl _) serial

end Workspace

/-- What a host that holds certain functions can do, and which functions it holds then. -/
inductive HostStep : Workspace → List Function → Workspace → List Function → Prop
  /-- The host goes on with another stem for the parameters of new functions. -/
  | restem {w held} (stem : String) : HostStep w held { w with stem } held
  | create {w held} (s : Signature) (body : Body) (isPredefined : Bool) :
      HostStep w held (w.create s body isPredefined).1
        (held ++ [(w.create s body isPredefined).2])
  | build {w held} (name : String) (code : Code) :
      HostStep w held (w.build name code).1 (held ++ given (w.build name code).2)
  | register {w held f} : f ∈ held → HostStep w held (w.register f).1 held
  | unregister {w held f} : f ∈ held → HostStep w held (w.unregister f).1 held
  | define {w held} (name : String) (code : Code) :
      HostStep w held (w.define name code).1 (held ++ given (w.define name code).2)
  | defineRecursive {w held} (name : String) (code : Code) (arity : Int) :
      HostStep w held (w.defineRecursive name code arity).1
        (held ++ w.obtained name arity (w.defineRecursive name code arity).2)

/-- In a step only functions that the host gets hold of are registered or taken out. -/
theorem HostStep.advances {w w' : Workspace} {held held' : List Function}
    (step : HostStep w held w' held') :
    ∃ made changes, held' = held ++ made ∧ w.Advances w' made changes ∧
      ∀ c ∈ changes, c.subject ∈ held' := by
  have registered (made : List Function) :
      ∀ c ∈ made.map Change.register, c.subject ∈ held ++ made := by
    intro c member
    obtain ⟨f, inside, rfl⟩ := List.mem_map.mp member
    exact List.mem_append_right _ inside
  cases step with
  | restem stem => exact ⟨[], [], by simp, w.advances_restem stem, by simp⟩
  | create s body isPredefined =>
      exact ⟨_, [], rfl, w.advances_create s body isPredefined, by simp⟩
  | build name code => exact ⟨_, [], rfl, w.advances_build name code, by simp⟩
  | register member =>
      exact ⟨[], _, by simp, w.advances_register _, by simpa [Change.subject] using member⟩
  | unregister member =>
      exact ⟨[], _, by simp, w.advances_unregister _, by simpa [Change.subject] using member⟩
  | define name code => exact ⟨_, _, rfl, w.advances_define name code, registered _⟩
  | defineRecursive name code arity =>
      exact ⟨_, _, rfl, w.advances_defineRecursive name code arity, registered _⟩

/-- The workspaces that a host can bring about, each with the functions that it can get
    hold of: those of the library at the start, those that it made itself, those that were
    made from code for it, and those that broken-off definitions left behind. Evaluations
    change no workspace. -/
inductive Reachable (includePredefined : Bool) : Workspace → List Function → Prop
  | start (stem : String) :
      Reachable includePredefined (.initial includePredefined stem)
        (Library.initial includePredefined).functions
  /-- The host goes on with another stem for the parameters of new functions. -/
  | restem {w held} (stem : String) :
      Reachable includePredefined w held → Reachable includePredefined { w with stem } held
  | create {w held} (s : Signature) (body : Body) (isPredefined : Bool) :
      Reachable includePredefined w held →
        Reachable includePredefined (w.create s body isPredefined).1
          (held ++ [(w.create s body isPredefined).2])
  | build {w held} (name : String) (code : Code) :
      Reachable includePredefined w held →
        Reachable includePredefined (w.build name code).1 (held ++ given (w.build name code).2)
  | register {w held f} :
      Reachable includePredefined w held → f ∈ held →
        Reachable includePredefined (w.register f).1 held
  | unregister {w held f} :
      Reachable includePredefined w held → f ∈ held →
        Reachable includePredefined (w.unregister f).1 held
  | define {w held} (name : String) (code : Code) :
      Reachable includePredefined w held →
        Reachable includePredefined (w.define name code).1 (held ++ given (w.define name code).2)
  | defineRecursive {w held} (name : String) (code : Code) (arity : Int) :
      Reachable includePredefined w held →
        Reachable includePredefined (w.defineRecursive name code arity).1
          (held ++ w.obtained name arity (w.defineRecursive name code arity).2)

/-- What a host can bring about from a workspace in which it holds certain functions. -/
inductive Onward (w : Workspace) (held : List Function) : Workspace → List Function → Prop
  | here : Onward w held w held
  | step {v w' kept held'} :
      Onward w held v kept → HostStep v kept w' held' → Onward w held w' held'

namespace Reachable

variable {includePredefined : Bool} {w w' : Workspace} {held held' : List Function}

theorem step (reached : Reachable includePredefined w held) (step : HostStep w held w' held') :
    Reachable includePredefined w' held' := by
  cases step with
  | restem stem => exact reached.restem stem
  | create s body isPredefined => exact reached.create s body isPredefined
  | build name code => exact reached.build name code
  | register member => exact reached.register member
  | unregister member => exact reached.unregister member
  | define name code => exact reached.define name code
  | defineRecursive name code arity => exact reached.defineRecursive name code arity

theorem onward (reached : Reachable includePredefined w held) (on : Onward w held w' held') :
    Reachable includePredefined w' held' := by
  induction on with
  | here => exact reached
  | step _ next ih => exact ih.step next

theorem from_start (reached : Reachable includePredefined w held) :
    ∃ stem, Onward (.initial includePredefined stem) (Library.initial includePredefined).functions
      w held := by
  induction reached with
  | start stem => exact ⟨stem, .here⟩
  | restem stem _ ih => exact ih.imp fun _ on => on.step (.restem stem)
  | create s body isPredefined _ ih =>
      exact ih.imp fun _ on => on.step (.create s body isPredefined)
  | build name code _ ih => exact ih.imp fun _ on => on.step (.build name code)
  | register _ member ih => exact ih.imp fun _ on => on.step (.register member)
  | unregister _ member ih => exact ih.imp fun _ on => on.step (.unregister member)
  | define name code _ ih => exact ih.imp fun _ on => on.step (.define name code)
  | defineRecursive name code arity _ ih =>
      exact ih.imp fun _ on => on.step (.defineRecursive name code arity)

/-- What holds at first and survives each step holds always. In a step only functions that
    the host gets hold of are registered or taken out. -/
theorem induction {P : Workspace → List Function → Prop}
    (start : ∀ stem,
      P (.initial includePredefined stem) (Library.initial includePredefined).functions)
    (step : ∀ w w' held made changes, Workspace.Advances w w' made changes →
      (∀ c ∈ changes, c.subject ∈ held ++ made) → P w held → P w' (held ++ made))
    (reached : Reachable includePredefined w held) : P w held := by
  obtain ⟨stem, on⟩ := reached.from_start
  clear reached
  induction on with
  | here => exact start stem
  | step _ next ih =>
      obtain ⟨made, changes, rfl, advances, subjects⟩ := next.advances
      exact step _ _ _ _ _ advances subjects ih

theorem distinct (reached : Reachable includePredefined w held) : w.library.Distinct := by
  refine reached.induction (P := fun w _ => w.library.Distinct) ?_ ?_
  · intro stem
    rw [Workspace.initial_library]
    exact Library.initial_distinct includePredefined
  · intro w w' held made changes advances _ before
    rw [advances.library]
    exact before.after changes

/-- Serial numbers are what they are meant to be: each belongs to one of the functions that
    the host can get hold of, and among these is all that the library holds. -/
structure Numbered (w : Workspace) (held : List Function) : Prop where
  inside : ∀ f ∈ w.library.functions, f ∈ held
  supply : ∀ f ∈ held, f.serial < w.nextSerial
  unique : ∀ f ∈ held, ∀ g ∈ held, f.serial = g.serial → f = g

theorem numbered_initial (includePredefined : Bool) (stem : String) :
    Numbered (.initial includePredefined stem) (Library.initial includePredefined).functions where
  inside f member := by rwa [Workspace.initial_library] at member
  supply := by
    cases includePredefined with
    | false => exact fun _ member => nomatch member
    | true =>
        change ∀ f ∈ Primitive.functions, f.serial < Primitive.functions.length
        decide
  unique := by
    cases includePredefined with
    | false => exact fun _ member => nomatch member
    | true =>
        have distinct : (Primitive.functions.map Function.serial).Nodup := by decide
        exact fun f first g second same => List.inj_on_of_nodup_map distinct first second same

theorem Numbered.advance {w w' : Workspace} {held made : List Function} {changes : List Change}
    (before : Numbered w held) (advances : Workspace.Advances w w' made changes)
    (subjects : ∀ c ∈ changes, c.subject ∈ held ++ made) : Numbered w' (held ++ made) where
  inside f member := by
    rw [advances.library] at member
    rcases Library.mem_after member with old | new
    · exact List.mem_append_left _ (before.inside f old)
    · exact subjects _ new
  supply f member := by
    rcases List.mem_append.mp member with old | new
    · exact Nat.lt_of_lt_of_le (before.supply f old) advances.supply
    · exact (advances.numbered f new).2
  unique f first g second same := by
    rcases List.mem_append.mp first with old | new <;>
      rcases List.mem_append.mp second with old' | new'
    · exact before.unique f old g old' same
    · have below := before.supply f old
      have above := (advances.numbered g new').1
      omega
    · have below := before.supply g old'
      have above := (advances.numbered f new).1
      omega
    · exact advances.single f new g new'

theorem numbered (reached : Reachable includePredefined w held) : Numbered w held :=
  reached.induction (numbered_initial includePredefined)
    fun _ _ _ _ _ advances subjects before => before.advance advances subjects

theorem eq_of_same (reached : Reachable includePredefined w held) {f g : Function}
    (first : f ∈ held) (second : g ∈ held) (same : f.Same g) : f = g :=
  reached.numbered.unique f first g second same.2

/-- A step changes the library in such a way that no other function of it passes for one
    that is taken out. -/
theorem changes_of_step (reached : Reachable includePredefined w held)
    (step : HostStep w held w' held') {p : Function} (there : p ∈ w.library.functions) :
    ∃ changes, w'.library = w.library.after changes ∧
      ∀ g, .unregister g ∈ changes → p.Same g → p = g := by
  have after := reached.step step
  obtain ⟨made, changes, rfl, advances, subjects⟩ := step.advances
  refine ⟨changes, advances.library, ?_⟩
  intro g removed same
  have old := List.mem_append_left made (reached.numbered.inside p there)
  exact after.eq_of_same old (subjects _ removed) same

theorem stays {p : Function} (reached : Reachable includePredefined w held)
    (there : p ∈ w.library.functions) (fixed : p.predefined = true)
    (on : Onward w held w' held') : p ∈ w'.library.functions := by
  induction on with
  | here => exact there
  | step before next ih =>
      obtain ⟨changes, library, itself⟩ := (reached.onward before).changes_of_step next ih
      rw [library]
      exact Library.mem_after_of_predefined ih fixed itself

theorem permanent {p : Function} (reached : Reachable includePredefined w held)
    (start : p ∈ (Library.initial includePredefined).functions) (fixed : p.predefined = true) :
    p ∈ w.library.functions := by
  obtain ⟨stem, on⟩ := reached.from_start
  rw [← Workspace.initial_library includePredefined stem] at start
  exact (Reachable.start stem).stays start fixed on

end Reachable

end Formulary
