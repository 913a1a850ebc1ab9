import Formulary.Proofs.Dispatch

/-! # Predefined functions are permanent

A change never puts another function in the place of a predefined one and never takes it
out. Newcomers of its name are placed behind it, so that it stays the first one of its
name if it ever was; and since no other function has its parameter types, it is the one
that arguments of exactly these types get, however many overloads there are besides it.
-/

namespace Formulary

namespace Library

variable {l : Library} {p : Function} {name : String}

theorem default?_eq_find? (l : Library) (name : String) :
    l.default? name = l.functions.find? (·.name = name) := by
  simp [default?, overloads]

theorem Step.first {c : Change} {fs gs : List Function} (step : Step c fs gs)
    (first : fs.find? (·.name = name) = some p) (fixed : p.predefined = true)
    (itself : ∀ g, c = .unregister g → p.Same g → p = g) :
    gs.find? (·.name = name) = some p := by
  cases step with
  | @added f before behind fresh place =>
      rw [List.find?_append] at first ⊢
      cases found : before.find? (·.name = name) with
      | some q => simpa [found] using first
      | none =>
          -- The first of the name stands behind the newcomer, which has another name then.
          have here : behind.find? (·.name = name) = some p := by simpa [found] using first
          have member := List.mem_of_find?_eq_some here
          have named : p.name = name := by simpa using List.find?_some here
          have other : f.name ≠ name := by
            rcases place with ⟨_, others⟩ | ⟨nothing, _⟩
            · exact fun same => others p member (named.trans same.symm)
            · simp [nothing] at member
          simp [other, here]
  | @replaced f g before behind same free =>
      rw [List.find?_append] at first ⊢
      cases found : before.find? (·.name = name) with
      | some q => simpa [found] using first
      | none =>
          have names : g.name = f.name := congrArg Key.name same
          by_cases other : g.name = name
          · simp [found, other] at first
            grind
          · rw [names] at other
            simpa [found, names, other] using first
  | @removed f g before behind same free =>
      rw [List.find?_append] at first ⊢
      cases found : before.find? (·.name = name) with
      | some q => simpa [found] using first
      | none =>
          by_cases other : g.name = name
          · simp [found, other] at first
            grind
          · simpa [found, other] using first

theorem default?_after {changes : List Change} (first : l.default? name = some p)
    (fixed : p.predefined = true) (itself : ∀ g, .unregister g ∈ changes → p.Same g → p = g) :
    (l.after changes).default? name = some p := by
  induction changes generalizing l with
  | nil => exact first
  | cons c cs ih =>
      simp only [after_cons]
      apply ih
      · cases made : l.change? c with
        | none => exact first
        | some m =>
            simp only [default?_eq_find?, Option.getD_some] at first ⊢
            apply (step_of_change? made).first first fixed
            intro g same
            exact itself g (by simp [same])
      · intro g later
        exact itself g (by simp [later])

theorem default?_predefined (member : p ∈ Primitive.functions) :
    predefined.default? p.name = some p := by
  have distinct : (Primitive.functions.map Function.name).Nodup := by decide
  rw [default?_eq_find?]
  cases found : predefined.functions.find? (·.name = p.name) with
  | none => simpa using List.find?_eq_none.mp found p member
  | some q =>
      have same : q.name = p.name := by simpa using List.find?_some found
      have there := List.mem_of_find?_eq_some found
      rw [List.inj_on_of_nodup_map distinct there member same]

theorem register_of_predefined (distinct : l.Distinct) (there : p ∈ l.functions)
    (fixed : p.predefined = true) {f : Function} (same : f.key = p.key) :
    l.register f = .refused p := by
  have clash : l.clash? f.signature = some p := (clash?_iff distinct).mpr ⟨there, same.symm⟩
  simp [register, clash, fixed]

theorem unregister?_of_predefined (fixed : p.predefined = true) : l.unregister? p = none := by
  simp [unregister?, fixed]

end Library

namespace Reachable

variable {includePredefined : Bool} {w w' : Workspace} {held held' : List Function} {p : Function}

/-- A predefined function that the library starts with is the first one of its name for
    good. -/
theorem default?_permanent (reached : Reachable true w held) (member : p ∈ Primitive.functions) :
    w.library.default? p.name = some p := by
  have fixed : p.predefined = true := by
    obtain ⟨⟨q, serial⟩, _, rfl⟩ := List.mem_map.mp member
    rfl
  obtain ⟨stem, on⟩ := reached.from_start
  clear reached
  induction on with
  | here => exact Library.default?_predefined member
  | step before next ih =>
      have there := (Library.mem_overloads.mp (List.mem_of_head? ih)).1
      obtain ⟨changes, library, itself⟩ :=
        ((Reachable.start stem).onward before).changes_of_step next there
      rw [library]
      exact Library.default?_after ih fixed itself

/-- From whatever workspace in whose library there is a predefined function, and whatever
    the host does then: the function is still there, no function with its name and its
    parameter types can be registered, it cannot be taken out, and arguments of exactly its
    parameter types get it. A function of the catalog, where the library started with it,
    is moreover the first one of its name, whose parameters count the operands of a call
    in code. -/
theorem predefined_permanent (reached : Reachable includePredefined w held)
    (there : p ∈ w.library.functions) (fixed : p.predefined = true)
    (on : Onward w held w' held') :
    p ∈ w'.library.functions ∧
      (∀ f : Function, f.name = p.name → f.signature.types = p.signature.types →
        (w'.register f).2 = .error (.duplicate f.signature p.signature)) ∧
      w'.unregister p = (w', false) ∧
      (∀ arguments : List Value, arguments.map Value.type = p.signature.types →
        w'.library.resolve? p.name (arguments.map Value.type) = some p) ∧
      (includePredefined = true → p ∈ Primitive.functions →
        w'.library.default? p.name = some p ∧
          ∀ given, (Call.apply p.name given).Fits w'.library ↔ given = p.arity) := by
  have after := reached.onward on
  have still : p ∈ w'.library.functions := reached.stays there fixed on
  refine ⟨still, ?_, ?_, ?_, ?_⟩
  · intro f name types
    have same : f.key = p.key := by simp [Function.key, name, types]
    have refused := Library.register_of_predefined after.distinct still fixed same
    simp [Workspace.register, refused]
  · simp [Workspace.unregister, Library.unregister?_of_predefined fixed]
  · intro arguments types
    rw [types]
    exact Library.resolve?_types after.distinct (Library.mem_overloads.mpr ⟨still, rfl⟩)
  · intro catalog member
    subst catalog
    have first := after.default?_permanent member
    refine ⟨first, ?_⟩
    intro given
    simp [Call.Fits, first, eq_comm]

end Reachable

/-- A function that a host supplies as a predefined one. -/
def Function.firstOf : Function where
  signature := ⟨"first", [⟨"value", .real⟩], .real⟩
  body := .host false (HostProgram.argument 0)
  predefined := true
  serial := 19

def Workspace.withFirstOf : Workspace :=
  let made := (initial true "x").create Function.firstOf.signature Function.firstOf.body true
  (made.1.register made.2).1

/-- The host asks for a recursive function with the signature of the predefined one, which is
    refused, and then for one with two parameters, which becomes a second overload. -/
theorem Reachable.predefined_permanent_firstOf :
    let w := Workspace.withFirstOf
    let held := Primitive.functions ++ [Function.firstOf]
    let first := w.defineRecursive "first" [.param 0, .apply "first"] 1
    let second := first.1.define "first" [.param 0, .param 1, .apply "+"]
    Reachable true w held ∧ .firstOf ∈ w.library.functions ∧ Function.firstOf.predefined = true ∧
      Onward w held second.1 (held ++ given first.2 ++ given second.2) ∧
      (second.1.library.overloads "first").length = 2 ∧
      .firstOf ∈ second.1.library.functions ∧
      second.1.unregister .firstOf = (second.1, false) ∧
      second.1.library.resolve? "first" [.real] = some .firstOf := by
  intro w held first second
  have reached : Reachable true w held :=
    ((Reachable.start "x").create _ _ _).register (List.mem_append_right _ List.mem_cons_self)
  have functions : w.library.functions = held := rfl
  have there : .firstOf ∈ w.library.functions := by simp [functions, held]
  have on : Onward w held second.1 (held ++ given first.2 ++ given second.2) :=
    (Onward.here.step (.defineRecursive _ _ _)).step (.define _ _)
  obtain ⟨still, _, kept, chosen, _⟩ := reached.predefined_permanent there rfl on
  exact ⟨reached, there, rfl, on, rfl, still, kept, chosen [.real 0.5] rfl⟩

end Formulary
