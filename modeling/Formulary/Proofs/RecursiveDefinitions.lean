import Formulary.Proofs.Reachability

/-! # Definitions by announcement

A recursive definition announces its function, builds its code against the library with
the announced function in it, and then registers what it has built. The announced
function leaves no trace: it is replaced where it stands, which is where the new function
would have come without it. Nor does it do harm. Code that builds without it builds with
it, to the same tree, because it comes behind the overloads that its name already has, or
takes the place of one with as many parameters.
-/

namespace Formulary

namespace Library

variable {l m : Library} {f g : Function} {fs : List Function}

theorem place_same (clash : f.signature.Clashes g.signature) (fs : List Function) :
    ∃ before behind, place f fs = before ++ f :: behind ∧ place g fs = before ++ g :: behind := by
  have name : g.name = f.name := clash.1.symm
  induction fs with
  | nil => exact ⟨[], [], rfl, rfl⟩
  | cons x xs ih =>
      rw [place, place, name]
      split
      · exact ⟨[x], xs, rfl, rfl⟩
      · obtain ⟨before, behind, first, second⟩ := ih
        exact ⟨x :: before, behind, by rw [first]; rfl, by rw [second]; rfl⟩

theorem substitute_same (clash : f.signature.Clashes g.signature)
    (met : ∃ x ∈ fs, x.signature.Clashes f.signature) :
    ∃ before behind, substitute f fs = before ++ f :: behind ∧
      substitute g fs = before ++ g :: behind := by
  induction fs with
  | nil => simp at met
  | cons x xs ih =>
      rw [substitute, substitute]
      by_cases here : x.signature.Clashes f.signature
      · rw [if_pos here, if_pos (here.trans clash)]
        exact ⟨[], xs, rfl, rfl⟩
      · have apart : ¬x.signature.Clashes g.signature := fun same =>
          here (same.trans clash.symm)
        have met' : ∃ y ∈ xs, y.signature.Clashes f.signature := by simpa [here] using met
        obtain ⟨before, behind, first, second⟩ := ih met'
        rw [if_neg here, if_neg apart]
        exact ⟨x :: before, behind, by rw [first]; rfl, by rw [second]; rfl⟩

/-- Where one function can be registered, any function that clashes with it can be
    registered as well, and comes to stand in the same place. -/
theorem register_same (accepted : (l.register f).library? = some m)
    (clash : f.signature.Clashes g.signature) :
    ∃ n before behind, (l.register g).library? = some n ∧
      m.functions = before ++ f :: behind ∧ n.functions = before ++ g :: behind := by
  rcases register_eq_some_iff.mp accepted with ⟨fresh, rfl⟩ | ⟨d, found, free, rfl⟩
  · obtain ⟨before, behind, first, second⟩ := place_same clash l.functions
    rw [clash?_congr clash] at fresh
    exact ⟨_, before, behind, register_eq_some_iff.mpr (.inl ⟨fresh, rfl⟩), first, second⟩
  · obtain ⟨before, behind, first, second⟩ :=
      substitute_same clash ⟨d, clash?_spec found⟩
    rw [clash?_congr clash] at found
    exact ⟨_, before, behind, register_eq_some_iff.mpr (.inr ⟨d, found, free, rfl⟩), first,
      second⟩

/-- A registration does not change how many parameters the default overload of a name
    has: a newcomer comes behind it, or replaces a function of the same types. -/
theorem default?_of_register (accepted : (l.register f).library? = some m) {name : String}
    {d : Function} (first : l.default? name = some d) :
    ∃ e, m.default? name = some e ∧ e.arity = d.arity := by
  have step : Step (.register f) l.functions m.functions := step_of_change? accepted
  simp only [default?, overloads] at first ⊢
  generalize l.functions = fs at step first
  generalize m.functions = gs at step ⊢
  cases step with
  | @added _ before behind fresh belongs =>
      rw [List.filter_append] at first ⊢
      cases earlier : before.filter (·.name = name) with
      | cons x xs =>
          rw [earlier] at first
          exact ⟨d, first, rfl⟩
      | nil =>
          -- A newcomer of this name stands behind an overload of it, or is the first one.
          have other : f.name ≠ name := by
            rintro rfl
            rcases belongs with ⟨⟨g, last, named⟩, _⟩ | ⟨rfl, _⟩
            · have member := List.mem_of_getLast? last
              have none := List.filter_eq_nil_iff.mp earlier g member
              simp [named] at none
            · simp [earlier] at first
          rw [earlier] at first
          rw [List.filter_cons_of_neg (by simpa using other)]
          exact ⟨d, first, rfl⟩
  | @replaced _ g before behind same free =>
      rw [List.filter_append] at first ⊢
      cases earlier : before.filter (·.name = name) with
      | cons x xs =>
          rw [earlier] at first
          exact ⟨d, first, rfl⟩
      | nil =>
          have clash := Function.clashes_iff.mpr same
          have names : g.name = f.name := clash.1
          rw [earlier] at first
          by_cases named : f.name = name
          · rw [List.filter_cons_of_pos (by simpa [names] using named)] at first
            rw [List.filter_cons_of_pos (by simpa using named)]
            cases first
            exact ⟨f, rfl, clash.arity.symm⟩
          · rw [List.filter_cons_of_neg (by simpa [names] using named)] at first
            rw [List.filter_cons_of_neg (by simpa using named)]
            exact ⟨d, first, rfl⟩

end Library

variable {l m : Library} {f : Function}

theorem Call.Fits.of_register (accepted : (l.register f).library? = some m) {c : Call}
    (fits : c.Fits l) : c.Fits m := by
  cases c with
  | apply name given =>
      obtain ⟨d, first, arity⟩ := fits
      obtain ⟨e, first', arity'⟩ := Library.default?_of_register accepted first
      exact ⟨e, first', arity'.trans arity⟩
  | overList operator name =>
      exact (Library.extendsTo_of_register accepted).answered (c := .overList operator name) fits

theorem Rule.written_of_register (accepted : (l.register f).library? = some m) {levels : Nat}
    {code : Code} {rule : Rule} (built : Rule.written l levels code = .ok rule) :
    Rule.written m levels code = .ok rule := by
  obtain ⟨read, writable⟩ := Rule.written_eq_ok_iff.mp built
  obtain ⟨flat, fits, gapFree⟩ := Rule.ofCode_eq_ok_iff.mp read
  have fits' : rule.root.Fits m := fits.imp fun _ => Call.Fits.of_register accepted
  exact Rule.written_eq_ok_iff.mpr ⟨Rule.ofCode_eq_ok_iff.mpr ⟨flat, fits', gapFree⟩, writable⟩

theorem Rule.arity_of_ofCode {code : Code} {rule : Rule} (built : Rule.ofCode l code = .ok rule) :
    rule.arity = code.indices.length := by
  obtain ⟨flat, _, gapFree⟩ := Rule.ofCode_eq_ok_iff.mp built
  rw [← Node.filterMap_flatten, flat, ← Code.arity_eq_ok_iff, Code.arity_eq_ok_iff_bounded]
    at gapFree
  exact gapFree.1.symm

theorem Node.ofCode_eq_ok_iff {code : Code} {root : Node} :
    Node.ofCode l code = .ok root ↔ ∃ arity, Rule.ofCode l code = .ok ⟨root, arity⟩ := by
  rw [ofCode]
  cases Rule.ofCode l code with
  | error e => simp [Except.map]
  | ok rule =>
      obtain ⟨top, arity⟩ := rule
      simp [Except.map]

namespace Workspace

variable {w : Workspace} {name : String} {code : Code} {arity : Int}

/-- The library with the announced function of a recursive definition in it, where this can
    be registered. -/
def announcing (w : Workspace) (name : String) (arity : Int) : Library :=
  w.library.after [.register (w.announce name arity).2]

theorem announcing_eq {m : Library}
    (offered : (w.library.register (w.announce name arity).2).library? = some m) :
    w.announcing name arity = m := by
  change ((w.library.register (w.announce name arity).2).library?).getD w.library = m
  rw [offered, Option.getD_some]

theorem announce_key (w : Workspace) (name : String) (arity : Nat) :
    (w.announce name arity).2.key = ⟨name, List.replicate arity .real⟩ := by
  simp [announce, create, Function.key, Function.name, Signature.types, Code.realParameters,
    List.eq_replicate_iff]

theorem announce_refused_iff (distinct : w.library.Distinct) (arity : Nat) :
    (w.library.register (w.announce name arity).2).library? = none ↔
      ∃ g ∈ w.library.overloads name, g.predefined = true ∧
        g.signature.types = List.replicate arity .real := by
  have refused := Library.change?_register_eq_none_iff distinct (f := (w.announce name arity).2)
  rw [Library.change?] at refused
  rw [refused, announce_key]
  constructor
  · rintro ⟨g, member, same, fixed⟩
    rw [Function.key, Key.mk.injEq] at same
    exact ⟨g, Library.mem_overloads.mpr ⟨member, same.1⟩, fixed, same.2⟩
  · rintro ⟨g, member, fixed, types⟩
    obtain ⟨there, named⟩ := Library.mem_overloads.mp member
    exact ⟨g, there, by rw [Function.key, named, types], fixed⟩

theorem defineRecursive_ok_iff :
    (∃ f, (w.defineRecursive name code arity).2 = .ok f) ↔
      ∃ rule, w.RecursiveRule name code arity rule := by
  rcases w.defineRecursive_cases name code arity with
    ⟨rule, l, w', isRule, _, result, _⟩ | ⟨noRule, _⟩
  · rw [result]
    exact ⟨fun _ => ⟨rule, isRule⟩, fun _ => ⟨_, rfl⟩⟩
  · constructor
    · rintro ⟨f, made⟩
      obtain ⟨rule, isRule, _⟩ := defineRecursive_granted made
      exact ⟨rule, isRule⟩
    · rintro ⟨rule, isRule⟩
      exact (noRule rule isRule).elim

theorem exists_recursiveRule_iff (distinct : w.library.Distinct) :
    (∃ rule, w.RecursiveRule name code arity rule) ↔
      (¬∃ g ∈ w.library.overloads name, g.predefined = true ∧ (g.arity : Int) = arity ∧
          ∀ t ∈ g.signature.types, t = .real) ∧
        (∃ f, ({ w with library := w.announcing name arity }.build name code).2 = .ok f) ∧
          (code.indices.length : Int) = arity := by
  have reals (g : Function) (n : Nat) : (g.arity : Int) = n ∧ (∀ t ∈ g.signature.types, t = .real) ↔
      g.signature.types = List.replicate n .real := by
    rw [List.eq_replicate_iff, Int.natCast_inj, Function.arity, Signature.arity, Signature.types,
      List.length_map]
  rw [build_succeeds_iff]
  constructor
  · rintro ⟨rule, m, offered, built, rfl⟩
    refine ⟨?_, ⟨rule, ?_⟩, ?_⟩
    · simp only [reals]
      rw [← announce_refused_iff distinct rule.arity, offered]
      exact Option.some_ne_none m
    · rw [announcing_eq offered]
      exact built
    · rw [Rule.arity_of_ofCode (Rule.written_eq_ok_iff.mp built).1]
  · rintro ⟨free, ⟨rule, built⟩, rfl⟩
    simp only [reals] at free
    rw [← announce_refused_iff distinct] at free
    obtain ⟨m, offered⟩ := Option.ne_none_iff_exists'.mp free
    rw [announcing_eq offered] at built
    exact ⟨rule, m, offered, built, by
      rw [Rule.arity_of_ofCode (Rule.written_eq_ok_iff.mp built).1]⟩

theorem defineRecursive_made {f : Function}
    (made : (w.defineRecursive name code arity).2 = .ok f) :
    (w.library.register f).library? = some (w.defineRecursive name code arity).1.library ∧
      f.signature = ⟨name, Code.realParameters w.stem code.indices.length, .real⟩ ∧
        ∃ root, Node.ofCode (w.announcing name arity) code = .ok root ∧ f.body = .tree root := by
  obtain ⟨rule, ⟨m, offered, built, _⟩, rfl, accepted⟩ := defineRecursive_granted made
  have read := (Rule.written_eq_ok_iff.mp built).1
  rw [announcing_eq offered, ← Rule.arity_of_ofCode read]
  exact ⟨accepted, rfl, rule.root, Node.ofCode_eq_ok_iff.mpr ⟨rule.arity, read⟩, rfl⟩

/-- What can be defined can be defined with an announcement, to the same effect. -/
theorem defineRecursive_of_define {f : Function} (made : (w.define name code).2 = .ok f) :
    ∃ g, (w.defineRecursive name code f.arity).2 = .ok g ∧ g = { f with serial := g.serial } ∧
      ∃ before behind, (w.define name code).1.library.functions = before ++ f :: behind ∧
        (w.defineRecursive name code f.arity).1.library.functions = before ++ g :: behind := by
  rcases w.define_cases name code with
    ⟨rule, l, w', built, accepted, result, after⟩ | ⟨w', e, result, _⟩
  · rw [result] at made ⊢
    cases made
    rw [functionOf_arity]
    have clash : (w.functionOf name rule).signature.Clashes
        (w.announce name rule.arity).2.signature := .refl _
    obtain ⟨m, _, _, offered, _⟩ := Library.register_same accepted clash
    have isRule : w.RecursiveRule name code rule.arity rule :=
      ⟨m, offered, Rule.written_of_register offered built, rfl⟩
    rcases w.defineRecursive_cases name code rule.arity with
      ⟨rule', l', v, isRule', accepted', result', after'⟩ | ⟨noRule, _⟩
    · -- No code stands for two rules in one library.
      obtain rfl : rule' = rule := by
        have unique := ((recursiveRule_iff offered).mp isRule').1
        rw [((recursiveRule_iff offered).mp isRule).1] at unique
        cases unique
        rfl
      rw [result', after, after']
      obtain ⟨n, before, behind, again, first, second⟩ :=
        Library.register_same accepted (g := (w.announce name rule'.arity).1.functionOf name rule')
          (.refl _)
      rw [accepted'] at again
      cases again
      exact ⟨_, rfl, rfl, before, behind, first, second⟩
    · exact (noRule rule isRule).elim
  · rw [result] at made
    cases made

end Workspace

theorem Reachable.announced_not_mem {includePredefined : Bool} {w : Workspace}
    {held : List Function} (reached : Reachable includePredefined w held) {name : String}
    {code : Code} {arity : Int} {f : Function}
    (made : (w.defineRecursive name code arity).2 = .ok f) :
    (w.announce name arity).2 ∉ (w.defineRecursive name code arity).1.library.functions := by
  obtain ⟨accepted, _, root, _, body⟩ := Workspace.defineRecursive_made made
  obtain ⟨_, only, _⟩ := Library.register_spec accepted
  intro member
  rcases only _ member with rfl | old
  · cases body
  · have numbered := reached.numbered
    have below := numbered.supply _ (numbered.inside _ old)
    exact Nat.lt_irrefl _ below

/-- A recursive definition succeeds exactly when no predefined function stands in the way of
    the announcement, the code builds with the function announced, and it refers to as many
    parameters as were stated. It then registers what the code stands for, just as if there
    had been no announcement. Where a plain definition succeeds, a recursive one with the
    right number of parameters makes the same function, up to the serial number, and puts it
    in the same place. -/
theorem Reachable.defineRecursive_announced {includePredefined : Bool} {w : Workspace}
    {held : List Function} (reached : Reachable includePredefined w held) (name : String)
    (code : Code) :
    (∀ arity : Int,
      ((∃ f, (w.defineRecursive name code arity).2 = .ok f) ↔
        (¬∃ g ∈ w.library.overloads name, g.predefined = true ∧ (g.arity : Int) = arity ∧
            ∀ t ∈ g.signature.types, t = .real) ∧
          (∃ g, ({ w with library := w.announcing name arity }.build name code).2 = .ok g) ∧
            (code.indices.length : Int) = arity) ∧
      ∀ f, (w.defineRecursive name code arity).2 = .ok f →
        ((w.library.register f).library? = some (w.defineRecursive name code arity).1.library ∧
          f.signature = ⟨name, Code.realParameters w.stem code.indices.length, .real⟩ ∧
          ∃ root, Node.ofCode (w.announcing name arity) code = .ok root ∧ f.body = .tree root) ∧
        (w.announce name arity).2 ∉ (w.defineRecursive name code arity).1.library.functions) ∧
    ∀ f, (w.define name code).2 = .ok f →
      ∃ g, (w.defineRecursive name code f.arity).2 = .ok g ∧ g = { f with serial := g.serial } ∧
        ∃ before behind, (w.define name code).1.library.functions = before ++ f :: behind ∧
          (w.defineRecursive name code f.arity).1.library.functions =
            before ++ g :: behind := by
  refine ⟨fun arity => ⟨?_, fun f made => ?_⟩, fun f => Workspace.defineRecursive_of_define⟩
  · rw [Workspace.defineRecursive_ok_iff, Workspace.exists_recursiveRule_iff reached.distinct]
  · exact ⟨Workspace.defineRecursive_made made, reached.announced_not_mem made⟩

def Function.identity : Function where
  signature := ⟨"f", [⟨"x0", .real⟩], .real⟩
  body := .tree (.param 0)
  predefined := false
  serial := 19

def Workspace.withIdentity : Workspace :=
  ((initial true "x").define "f" [.param 0]).1

/-- A function that calls the one of its own name, in place of which it is registered, is
    defined either way. No predefined function can be displaced. -/
theorem Reachable.defineRecursive_announced_self :
    let w := Workspace.withIdentity
    let code : Code := [.param 0, .apply "f"]
    Reachable true w (Primitive.functions ++ [.identity]) ∧
      (∃ f g, (w.define "f" code).2 = .ok f ∧ (w.defineRecursive "f" code 1).2 = .ok g ∧
        g = { f with serial := 21 }) ∧
      ¬∃ f, (w.defineRecursive "sqrt" [.param 0] 1).2 = .ok f := by
  intro w code
  have reached : Reachable true w (Primitive.functions ++ [.identity]) :=
    (Reachable.start "x").define "f" [.param 0]
  refine ⟨reached, ?_, ?_⟩
  · obtain ⟨g, made, same, _⟩ := (reached.defineRecursive_announced "f" code).2 _ rfl
    exact ⟨_, g, rfl, made, by cases made; exact same⟩
  · intro made
    obtain ⟨free, _⟩ := ((reached.defineRecursive_announced "sqrt" [.param 0]).1 1).1.mp made
    refine free ⟨_, List.mem_of_head? rfl, rfl, rfl, ?_⟩
    decide

end Formulary
