import Formulary.Proofs.Calls
import Formulary.Proofs.Changes
import Formulary.Proofs.Resolution
import Formulary.Proofs.Runs
import Mathlib.Data.Set.Defs

/-! # What an evaluation depends on

Functions are reached by name only. When two libraries hold the same functions under
the names that a tree mentions, and under the names that the bodies of these
functions mention in turn, the tree means the same in both. Functions that take
different numbers of arguments never compete for a call, so it does not matter in
which order they stand.
-/

namespace Formulary

/-- Two functions are alike when they have the same signature and the same body. -/
structure Function.Alike (f g : Function) : Prop where
  signature : f.signature = g.signature
  body : f.body = g.body

theorem Function.Alike.symm {f g : Function} (alike : f.Alike g) : g.Alike f :=
  ⟨alike.signature.symm, alike.body.symm⟩

theorem Function.Alike.arity {f g : Function} (alike : f.Alike g) : f.arity = g.arity :=
  congrArg Signature.arity alike.signature

/-- Whether a host program calls only functions of certain names, whatever values it is
    given. -/
def HostProgram.NamesOnly (S : Set String) : HostProgram → Prop
  | .answer _ => True
  | .fail _ => True
  | .call name _ next => name ∈ S ∧ ∀ v, (next v).NamesOnly S

def Body.NamesOnly (S : Set String) : Body → Prop
  | .primitive _ => True
  | .tree root => ∀ name ∈ root.names, name ∈ S
  | .announced => True
  | .host _ program => ∀ arguments, (program arguments).NamesOnly S

namespace Library

/-- Two libraries hold the same functions under certain names, in the same order as far
    as these take the same number of arguments. -/
def AgreesOn (S : Set String) (l m : Library) : Prop :=
  ∀ name ∈ S, ∀ arity : Nat,
    List.Forall₂ Function.Alike ((l.overloads name).filter (·.arity = arity))
      ((m.overloads name).filter (·.arity = arity))

/-- Functions under certain names call only functions under these names. -/
def ClosedOn (S : Set String) (l : Library) : Prop :=
  ∀ f ∈ l.functions, f.name ∈ S → f.body.NamesOnly S

theorem closest_filter (types : List Ty) (fs : List Function) :
    closest types (fs.filter (·.arity = types.length)) = closest types fs := by
  induction fs with
  | nil => rfl
  | cons f fs ih =>
      by_cases suits : f.arity = types.length
      · rw [List.filter_cons_of_pos (by simpa using suits), closest, closest, ih]
      · have refused : f.signature.distance? types = none := by
          rw [Option.eq_none_iff_forall_ne_some]
          intro d accepted
          exact suits (Signature.length_eq_of_distance? accepted).symm
        rw [List.filter_cons_of_neg (by simpa using suits), ih, closest, refused]

theorem closest_related {R : Function → Function → Prop} {fs gs : List Function}
    (lists : List.Forall₂ R fs gs) (signature : ∀ f g, R f g → f.signature = g.signature)
    (types : List Ty) :
    Option.Rel (fun p q => R p.1 q.1 ∧ p.2 = q.2) (closest types fs) (closest types gs) := by
  induction lists with
  | nil => exact .none
  | @cons f g fs gs here _ ih =>
      rw [closest, closest, signature f g here]
      cases g.signature.distance? types with
      | none => exact ih
      | some d =>
          generalize closest types fs = best at ih
          generalize closest types gs = best' at ih
          cases ih with
          | none => exact .some ⟨here, rfl⟩
          | @some p q related =>
              obtain ⟨f', e⟩ := p
              obtain ⟨g', e'⟩ := q
              obtain ⟨there, rfl⟩ := related
              dsimp only
              split
              · exact .some ⟨here, rfl⟩
              · exact .some ⟨there, rfl⟩

/-- Functions of two libraries that stand for each other in evaluations. -/
def Matches (S : Set String) (f g : Function) : Prop :=
  f.body.NamesOnly S ∧ f.Alike g

section

variable {S : Set String} {l m : Library} {name : String}

theorem AgreesOn.matches (agree : AgreesOn S l m) (closed : l.ClosedOn S) (inside : name ∈ S)
    (arity : Nat) :
    List.Forall₂ (Matches S) ((l.overloads name).filter (·.arity = arity))
      ((m.overloads name).filter (·.arity = arity)) := by
  refine (List.forall₂_and_left _ _).mpr ⟨fun f member => ?_, agree name inside arity⟩
  have ⟨there, named⟩ := mem_overloads.mp (List.mem_filter.mp member).1
  exact closed f there (named ▸ inside)

theorem AgreesOn.ofArity? (agree : AgreesOn S l m) (closed : l.ClosedOn S) (inside : name ∈ S)
    (arity : Nat) :
    Option.Rel (Matches S) (l.ofArity? name arity) (m.ofArity? name arity) := by
  have lists := agree.matches closed inside arity
  rw [Library.ofArity?, Library.ofArity?, ← List.head?_filter, ← List.head?_filter]
  generalize (l.overloads name).filter (·.arity = arity) = fs at lists ⊢
  generalize (m.overloads name).filter (·.arity = arity) = gs at lists ⊢
  cases lists with
  | nil => exact .none
  | cons here _ => exact .some here

theorem AgreesOn.resolve? (agree : AgreesOn S l m) (closed : l.ClosedOn S) (inside : name ∈ S)
    (types : List Ty) :
    Option.Rel (Matches S) (l.resolve? name types) (m.resolve? name types) := by
  have lists := agree.matches closed inside types.length
  have best := closest_related lists (fun f g related => related.2.signature) types
  rw [closest_filter, closest_filter] at best
  rw [Library.resolve?, Library.resolve?]
  generalize closest types (l.overloads name) = p at best
  generalize closest types (m.overloads name) = q at best
  cases best with
  | none => exact .none
  | some related => exact .some related.1

theorem AgreesOn.choose (agree : AgreesOn S l m) (closed : l.ClosedOn S) (inside : name ∈ S)
    (vs : List Value) {f g : Function} (fallback : Matches S f g) :
    Matches S (l.choose name vs f) (m.choose name vs g) := by
  have best := agree.resolve? closed inside (vs.map Value.type)
  rw [Library.choose, Library.choose]
  generalize l.resolve? name (vs.map Value.type) = p at best
  generalize m.resolve? name (vs.map Value.type) = q at best
  cases best with
  | none => exact fallback
  | some related => exact related

theorem AgreesOn.symm (agree : AgreesOn S l m) : AgreesOn S m l := by
  intro name inside arity
  exact (agree name inside arity).flip.imp fun _ _ => Function.Alike.symm

theorem AgreesOn.overloads_eq_nil (agree : AgreesOn S l m) (inside : name ∈ S)
    (none : l.overloads name = []) : m.overloads name = [] := by
  cases some : m.overloads name with
  | nil => rfl
  | cons g gs =>
      have lists := agree name inside g.arity
      rw [none, some, List.filter_cons_of_pos (by simp)] at lists
      cases lists

theorem AgreesOn.callee (agree : AgreesOn S l m) (closed : l.ClosedOn S) (inside : name ∈ S)
    (given : Nat) :
    Run.Related (Matches S) (Run.ofExcept (l.callee name given))
      (Run.ofExcept (m.callee name given)) := by
  have found := agree.ofArity? closed inside given
  rw [Library.callee, Library.callee]
  generalize l.ofArity? name given = p at found
  generalize m.ofArity? name given = q at found
  cases first : l.overloads name with
  | nil =>
      rw [agree.overloads_eq_nil inside first]
      exact .fail rfl
  | cons f fs =>
      cases second : m.overloads name with
      | nil =>
          rw [agree.symm.overloads_eq_nil inside second] at first
          cases first
      | cons g gs =>
          cases found with
          | none => exact .fail rfl
          | some related => exact .pure related

theorem AgreesOn.operand (agree : AgreesOn S l m) (closed : l.ClosedOn S) (inside : name ∈ S)
    (operator : ListOperator) :
    Run.Related (Matches S) (Run.ofExcept (l.operand operator name))
      (Run.ofExcept (m.operand operator name)) := by
  have found := agree.ofArity? closed inside operator.arity
  rw [Library.operand, Library.operand]
  generalize l.ofArity? name operator.arity = p at found
  generalize m.ofArity? name operator.arity = q at found
  cases found with
  | none => exact .fail rfl
  | some related => exact .pure related

end

end Library

section

variable {S : Set String} {l m : Library} {invoke invoke' : Function → List Value → Run Value}

/-- Entering functions that stand for each other makes no difference. -/
def EntersAlike (S : Set String) (invoke invoke' : Function → List Value → Run Value) : Prop :=
  ∀ f g, Library.Matches S f g → ∀ vs, (invoke f vs).Related (· = ·) (invoke' g vs)

theorem EntersAlike.choose (enters : EntersAlike S invoke invoke') (agree : l.AgreesOn S m)
    (closed : l.ClosedOn S) {name : String} (inside : name ∈ S) (vs : List Value)
    {f g : Function} (fallback : Library.Matches S f g) :
    (invoke (l.choose name vs f) vs).Related (· = ·) (invoke' (m.choose name vs g) vs) :=
  enters _ _ (agree.choose closed inside vs fallback) vs

theorem HostProgram.run_related (enters : EntersAlike S invoke invoke') (agree : l.AgreesOn S m)
    (closed : l.ClosedOn S) {program : HostProgram} (names : program.NamesOnly S) :
    (program.run l invoke).Related (· = ·) (program.run m invoke') := by
  induction program with
  | answer v => exact .pure rfl
  | fail e => exact .fail rfl
  | call name arguments next ih =>
      have ⟨inside, later⟩ := names
      have best := agree.resolve? closed inside (arguments.map Value.type)
      rw [run, run]
      generalize l.resolve? name (arguments.map Value.type) = p at best
      generalize m.resolve? name (arguments.map Value.type) = q at best
      cases best with
      | none => exact .fail rfl
      | some related =>
          refine (enters _ _ related arguments).bind ?_
          rintro v _ rfl
          exact ih v (later v)

namespace Node

variable {parameters : List Value}

mutual

theorem eval_related (enters : EntersAlike S invoke invoke') (agree : l.AgreesOn S m)
    (closed : l.ClosedOn S) {n : Node} (names : ∀ name ∈ n.names, name ∈ S) :
    (n.eval l invoke parameters).Related (· = ·) (n.eval m invoke' parameters) := by
  cases n with
  | const v => exact .pure rfl
  | param index => exact .refl _
  | cond test yes no =>
      simp only [Node.names, List.forall_mem_append] at names
      rw [eval, eval]
      refine (eval_related enters agree closed names.1.1).bind ?_
      rintro v _ rfl
      split
      · exact eval_related enters agree closed names.1.2
      · exact eval_related enters agree closed names.2
      · exact .fail rfl
  | apply name arguments =>
      have ⟨inside, others⟩ := List.forall_mem_cons.mp names
      rw [eval, eval]
      refine (agree.callee closed inside arguments.length).bind fun f g fallback => ?_
      refine (evalAll_related enters agree closed others).bind ?_
      rintro vs _ rfl
      exact enters.choose agree closed inside vs fallback
  | map name list =>
      have ⟨inside, others⟩ := List.forall_mem_cons.mp names
      rw [eval, eval]
      refine (agree.operand closed inside .map).bind fun f g fallback => ?_
      refine (eval_related enters agree closed others).bind ?_
      rintro v _ rfl
      refine (Run.Related.refl (Run.ofExcept (elementsFor .map v))).bind ?_
      rintro xs _ rfl
      have each : ∀ x y, x = y →
          (invoke (l.choose name [x] f) [x]).Related (· = ·)
            (invoke' (m.choose name [y] g) [y]) := by
        rintro x _ rfl
        exact enters.choose agree closed inside [x] fallback
      refine (Run.Related.mapM (List.forall₂_refl xs) each).bind fun ys zs results => ?_
      rw [List.forall₂_eq_eq_eq] at results
      exact .pure (congrArg Value.list results)
  | reduce name first list =>
      have ⟨inside, others⟩ := List.forall_mem_cons.mp names
      rw [List.forall_mem_append] at others
      rw [eval, eval]
      refine (agree.operand closed inside .reduce).bind fun f g fallback => ?_
      refine (eval_related enters agree closed others.1).bind ?_
      rintro a _ rfl
      refine (eval_related enters agree closed others.2).bind ?_
      rintro v _ rfl
      refine (Run.Related.refl (Run.ofExcept (elementsFor .reduce v))).bind ?_
      rintro xs _ rfl
      refine Run.Related.foldlM (R := (· = ·)) (List.forall₂_refl xs) rfl ?_
      rintro b _ rfl x _ rfl
      exact enters.choose agree closed inside [b, x] fallback
  | stray object => exact .fail rfl
termination_by sizeOf n

theorem evalAll_related (enters : EntersAlike S invoke invoke') (agree : l.AgreesOn S m)
    (closed : l.ClosedOn S) {ns : List Node} (names : ∀ name ∈ namesAll ns, name ∈ S) :
    (evalAll l invoke parameters ns).Related (· = ·) (evalAll m invoke' parameters ns) := by
  cases ns with
  | nil => exact .pure rfl
  | cons n ns =>
      simp only [namesAll, List.forall_mem_append] at names
      rw [evalAll, evalAll]
      refine (eval_related enters agree closed names.1).bind ?_
      rintro v _ rfl
      refine (evalAll_related enters agree closed names.2).bind ?_
      rintro vs _ rfl
      exact .pure rfl
termination_by sizeOf ns

end

end Node

end

theorem Library.invoke_related {S : Set String} {l m : Library} (agree : l.AgreesOn S m)
    (closed : l.ClosedOn S) (depth : Nat) : EntersAlike S (l.invoke depth) (m.invoke depth) := by
  induction depth with
  | zero => exact fun _ _ _ _ => .tooDeep
  | succ depth ih =>
      rintro f g ⟨names, alike⟩ vs
      rw [invoke, invoke, alike.arity, alike.signature, Function.name, Function.name,
        alike.signature, ← alike.body]
      split
      · exact .fail rfl
      · generalize f.body = body at names
        cases body with
        | primitive p => exact .refl _
        | tree root => exact root.eval_related ih agree closed names
        | announced => exact .fail rfl
        | host traced program =>
            refine (Run.Related.refl _).bind fun _ _ _ => ?_
            exact HostProgram.run_related ih agree closed (names vs)

/-- Whatever two libraries hold besides, a tree means the same in both when they hold the
    same functions under the names that it can come to: its evaluations make the same
    calls, and end with the same value, with an error of the same kind, or both for the
    same limit on the depth of calls. -/
theorem Library.eval_depends_on_names {S : Set String} {l m : Library} (agree : l.AgreesOn S m)
    (closed : l.ClosedOn S) {root : Node} (names : ∀ name ∈ root.names, name ∈ S)
    (parameters : List Value) (depth : Nat) :
    (root.eval l (l.invoke depth) parameters).Related (· = ·)
      (root.eval m (m.invoke depth) parameters) :=
  root.eval_related (invoke_related agree closed depth) agree closed names

/-- `twice` of one argument passes it on twice to `twice` of two arguments, which the host
    supplies. -/
def Function.twice (given serial : Nat) : Function where
  signature := ⟨"twice", Code.realParameters "x" given, .list⟩
  body := if given = 1 then .tree (.apply "twice" [.param 0, .param 0])
    else .host true HostProgram.collect
  predefined := false
  serial := serial

/-- Among other functions, and in another order, the two come to the same call. -/
theorem Library.eval_depends_on_names_twice :
    let l := empty.after [.register (.twice 1 0), .register (.twice 2 1)]
    let m := predefined.after [.register (.twice 2 19), .register (.twice 1 20)]
    let root : Node := .apply "twice" [.const (.real 0.5)]
    l.AgreesOn {"twice"} m ∧ l.ClosedOn {"twice"} ∧
      (∀ name ∈ root.names, name ∈ ({"twice"} : Set String)) ∧
        (root.eval l (l.invoke 2) []).calls = [⟨"twice", [.real 0.5, .real 0.5], true⟩] ∧
          (root.eval m (m.invoke 2) []).calls = [⟨"twice", [.real 0.5, .real 0.5], true⟩] := by
  intro l m root
  have agree : l.AgreesOn {"twice"} m := by
    rintro _ rfl arity
    have here : l.overloads "twice" = [.twice 1 0, .twice 2 1] := rfl
    have there : m.overloads "twice" = [.twice 2 19, .twice 1 20] := rfl
    rw [here, there]
    match arity with
    | 0 => exact .nil
    | 1 => exact .cons ⟨rfl, rfl⟩ .nil
    | 2 => exact .cons ⟨rfl, rfl⟩ .nil
    | n + 3 => exact .nil
  have closed : l.ClosedOn {"twice"} := by
    intro f member _
    have functions : l.functions = [.twice 1 0, .twice 2 1] := rfl
    rw [functions, List.mem_pair] at member
    rcases member with rfl | rfl
    · intro name inside
      exact List.mem_singleton.mp inside
    · exact fun _ => trivial
  have names : ∀ name ∈ root.names, name ∈ ({"twice"} : Set String) := by
    intro name inside
    exact List.mem_singleton.mp inside
  have here : (root.eval l (l.invoke 2) []).calls =
      [⟨"twice", [.real 0.5, .real 0.5], true⟩] := rfl
  have related := eval_depends_on_names agree closed names [] 2
  exact ⟨agree, closed, names, here, related.calls.symm.trans here⟩

end Formulary
