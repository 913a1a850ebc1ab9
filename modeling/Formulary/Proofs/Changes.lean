import Formulary.Proofs.Registration
import Mathlib.Data.List.Nodup

/-! # Changes of a library

However a library is used, it changes in two ways only: a function is registered,
or one is taken out. A change is granted or refused, and a refused one has no
effect. A granted one adds a function behind the others of its name, puts it in
the place of another one, or removes one; nothing else in the list moves.
-/

namespace Formulary

/-- What a library tells functions apart by. -/
structure Key where
  name : String
  types : List Ty
  deriving Repr, DecidableEq

def Function.key (f : Function) : Key :=
  ⟨f.name, f.signature.types⟩

theorem Function.clashes_iff {f g : Function} :
    f.signature.Clashes g.signature ↔ f.key = g.key := by
  rw [key, key, Key.mk.injEq]
  rfl

theorem Function.Same.key {f g : Function} (same : f.Same g) : f.key = g.key :=
  clashes_iff.mp same.1

inductive Change where
  | register (f : Function)
  | unregister (f : Function)

/-- The function that a change is about. -/
def Change.subject : Change → Function
  | .register f => f
  | .unregister f => f

namespace Library

def keys (l : Library) : List Key :=
  l.functions.map Function.key

/-- No two functions have the same name and the same parameter types. -/
def Distinct (l : Library) : Prop :=
  l.keys.Nodup

/-- The library after a change, unless the change is refused. -/
def change? (l : Library) : Change → Option Library
  | .register f => (l.register f).library?
  | .unregister f => l.unregister? f

/-- The library after some changes, of which the refused ones have no effect. -/
def after (l : Library) (changes : List Change) : Library :=
  changes.foldl (fun l c => (l.change? c).getD l) l

/-- Those of some changes that are granted, in order. -/
def granted (l : Library) : List Change → List Change
  | [] => []
  | c :: cs =>
    match l.change? c with
    | some m => c :: m.granted cs
    | none => l.granted cs

/-- Where a newcomer goes: right behind the last function of its name, or behind all
    others if there is none of its name. -/
def Belongs (f : Function) (before behind : List Function) : Prop :=
  (∃ g, before.getLast? = some g ∧ g.name = f.name) ∧ (∀ g ∈ behind, g.name ≠ f.name) ∨
    behind = [] ∧ ∀ g ∈ before, g.name ≠ f.name

/-- What a granted change does to the list of functions. -/
inductive Step : Change → List Function → List Function → Prop
  | added {f : Function} {before behind : List Function}
      (fresh : ∀ g ∈ before ++ behind, g.key ≠ f.key) (place : Belongs f before behind) :
      Step (.register f) (before ++ behind) (before ++ f :: behind)
  | replaced {f g : Function} {before behind : List Function} (same : g.key = f.key)
      (free : g.predefined = false) :
      Step (.register f) (before ++ g :: behind) (before ++ f :: behind)
  | removed {f g : Function} {before behind : List Function} (same : g.Same f)
      (free : f.predefined = false) :
      Step (.unregister f) (before ++ g :: behind) (before ++ behind)

variable {l m : Library} {f g : Function} {fs : List Function}

theorem place_spec (f : Function) (fs : List Function) :
    ∃ before behind, fs = before ++ behind ∧ place f fs = before ++ f :: behind ∧
      Belongs f before behind := by
  induction fs with
  | nil => exact ⟨[], [], rfl, rfl, .inr ⟨rfl, fun _ member => nomatch member⟩⟩
  | cons x xs ih =>
      rw [place]
      split
      · rename_i last
        exact ⟨[x], xs, rfl, rfl, .inl ⟨⟨x, rfl, last.1⟩, last.2⟩⟩
      · rename_i notLast
        obtain ⟨before, behind, rfl, placed, belongs⟩ := ih
        refine ⟨x :: before, behind, rfl, by rw [placed]; rfl, ?_⟩
        rcases belongs with ⟨⟨g, last, name⟩, others⟩ | ⟨rfl, others⟩
        · refine .inl ⟨⟨g, ?_, name⟩, others⟩
          rw [List.getLast?_cons, last]
          rfl
        · refine .inr ⟨rfl, List.forall_mem_cons.mpr ⟨fun name => notLast ⟨name, ?_⟩, others⟩⟩
          rwa [List.append_nil]

theorem substitute_spec (found : fs.find? (·.signature.Clashes f.signature) = some g) :
    ∃ before behind, fs = before ++ g :: behind ∧ substitute f fs = before ++ f :: behind := by
  have ⟨clash, before, behind, split, others⟩ := List.find?_eq_some_iff_append.mp found
  refine ⟨before, behind, split, ?_⟩
  subst split
  clear found
  induction before with
  | nil => rw [List.nil_append, substitute, if_pos (of_decide_eq_true clash), List.nil_append]
  | cons x xs ih =>
      obtain ⟨here, there⟩ := List.forall_mem_cons.mp others
      have differs : ¬x.signature.Clashes f.signature := by simpa using here
      rw [List.cons_append, substitute, if_neg differs, ih there, List.cons_append]

theorem step_of_change? {c : Change} (made : l.change? c = some m) :
    Step c l.functions m.functions := by
  cases c with
  | register f =>
      rcases register_eq_some_iff.mp made with ⟨fresh, rfl⟩ | ⟨g, found, free, rfl⟩
      · obtain ⟨before, behind, split, placed, belongs⟩ := place_spec f l.functions
        rw [clash?_eq_none_iff] at fresh
        rw [placed, split]
        rw [split] at fresh
        exact .added (fun g member same => fresh g member (Function.clashes_iff.mpr same)) belongs
      · have clash := (clash?_spec found).2
        rw [clash?_eq_find?] at found
        obtain ⟨before, behind, split, substituted⟩ := substitute_spec found
        rw [substituted, split]
        exact .replaced (Function.clashes_iff.mp clash) free
  | unregister f =>
      rw [change?, unregister?] at made
      split at made
      · rename_i possible
        simp only [Bool.and_eq_true, Bool.not_eq_true', holds, List.any_eq_true] at possible
        obtain ⟨free, x, member, same⟩ := possible
        obtain ⟨g, before, behind, _, found, split, erased⟩ :=
          List.exists_of_eraseP (p := (·.Same f)) member same
        cases made
        rw [erased, split]
        exact .removed (of_decide_eq_true found) free
      · cases made

namespace Step

variable {c : Change} {gs : List Function}

theorem mem (step : Step c fs gs) (member : g ∈ gs) : c = .register g ∨ g ∈ fs := by
  cases step with
  | added | replaced | removed => grind

theorem keeps (step : Step c fs gs) (member : f ∈ fs) (fixed : f.predefined = true)
    (itself : ∀ g, c = .unregister g → f.Same g → f = g) : f ∈ gs := by
  cases step with
  | added fresh place =>
      rw [List.mem_append, List.mem_cons]
      exact (List.mem_append.mp member).imp_right .inr
  | @replaced _ g before behind same free =>
      have other : f ≠ g := by
        rintro rfl
        rw [fixed] at free
        cases free
      simp only [List.mem_append, List.mem_cons, other, false_or] at member ⊢
      exact member.imp_right .inr
  | @removed h g before behind same free =>
      have other : f ≠ g := by
        rintro rfl
        rw [itself h rfl same, free] at fixed
        cases fixed
      simpa [other] using member

theorem nodup (step : Step c fs gs) (distinct : (fs.map Function.key).Nodup) :
    (gs.map Function.key).Nodup := by
  cases step with
  | @added f before behind fresh place =>
      rw [List.map_append, List.map_cons, List.nodup_middle, List.nodup_cons, ← List.map_append]
      refine ⟨fun again => ?_, distinct⟩
      obtain ⟨g, member, same⟩ := List.mem_map.mp again
      exact fresh g member same
  | replaced same free =>
      simp only [List.map_append, List.map_cons, same] at distinct ⊢
      exact distinct
  | removed same free =>
      refine distinct.sublist (List.Sublist.map _ ?_)
      exact (List.sublist_cons_self _ _).append_left _

end Step

theorem Distinct.eq_of_key (distinct : l.Distinct) (first : f ∈ l.functions)
    (second : g ∈ l.functions) (same : f.key = g.key) : f = g :=
  List.inj_on_of_nodup_map distinct first second same

theorem Distinct.eq_of_types (distinct : l.Distinct) {name : String}
    (first : f ∈ l.overloads name) (second : g ∈ l.overloads name)
    (same : f.signature.types = g.signature.types) : f = g := by
  have ⟨there, named⟩ := mem_overloads.mp first
  have ⟨there', named'⟩ := mem_overloads.mp second
  refine distinct.eq_of_key there there' ?_
  rw [Function.key, Function.key, named, named', same]

theorem clash?_iff (distinct : l.Distinct) :
    l.clash? f.signature = some g ↔ g ∈ l.functions ∧ g.key = f.key := by
  constructor
  · intro found
    have ⟨member, clash⟩ := clash?_spec found
    exact ⟨member, Function.clashes_iff.mp clash⟩
  · rintro ⟨member, same⟩
    cases found : l.clash? f.signature with
    | none => exact (clash?_eq_none_iff.mp found g member (Function.clashes_iff.mpr same)).elim
    | some x =>
        have ⟨there, clash⟩ := clash?_spec found
        have equal : x.key = g.key := (Function.clashes_iff.mp clash).trans same.symm
        rw [distinct.eq_of_key there member equal]

/-- A registration is refused exactly when a predefined function has the key of the
    newcomer. -/
theorem change?_register_eq_none_iff (distinct : l.Distinct) :
    l.change? (.register f) = none ↔
      ∃ g ∈ l.functions, g.key = f.key ∧ g.predefined = true := by
  simp only [change?, register]
  cases found : l.clash? f.signature with
  | none =>
      simp only [Registration.library?, reduceCtorEq, false_iff]
      rintro ⟨g, member, same, _⟩
      rw [(clash?_iff distinct).mpr ⟨member, same⟩] at found
      cases found
  | some x =>
      obtain ⟨member, same⟩ := (clash?_iff distinct).mp found
      constructor
      · intro refused
        refine ⟨x, member, same, ?_⟩
        cases fixed : x.predefined with
        | true => rfl
        | false => simp [fixed, Registration.library?] at refused
      · rintro ⟨g, there, equal, fixed⟩
        obtain rfl := distinct.eq_of_key there member (equal.trans same.symm)
        simp [fixed, Registration.library?]

theorem change?_unregister_eq_none_iff :
    l.change? (.unregister f) = none ↔
      f.predefined = true ∨ ∀ g ∈ l.functions, ¬g.Same f := by
  simp only [change?, unregister?, holds]
  cases f.predefined <;> simp

@[simp] theorem after_nil : l.after [] = l := rfl

theorem after_cons (c : Change) (cs : List Change) :
    l.after (c :: cs) = ((l.change? c).getD l).after cs :=
  rfl

theorem after_append (cs ds : List Change) : l.after (cs ++ ds) = (l.after cs).after ds :=
  List.foldl_append

theorem after_append_singleton (cs : List Change) (c : Change) :
    l.after (cs ++ [c]) = ((l.after cs).change? c).getD (l.after cs) := by
  rw [after_append]
  rfl

theorem after_induction {P : Library → Prop} (start : P l)
    (step : ∀ l c m, P l → l.change? c = some m → P m) (changes : List Change) :
    P (l.after changes) := by
  induction changes generalizing l with
  | nil => exact start
  | cons c cs ih =>
      rw [after_cons]
      cases made : l.change? c with
      | none => exact ih start
      | some m => exact ih (step l c m start made)

theorem Distinct.after (distinct : l.Distinct) (changes : List Change) :
    (l.after changes).Distinct :=
  after_induction distinct (fun _ _ _ before made => (step_of_change? made).nodup before) changes

theorem mem_after {changes : List Change} (member : f ∈ (l.after changes).functions) :
    f ∈ l.functions ∨ .register f ∈ changes := by
  induction changes generalizing l with
  | nil => exact .inl member
  | cons c cs ih =>
      rw [after_cons] at member
      rcases ih member with there | later
      · cases made : l.change? c with
        | none =>
            rw [made] at there
            exact .inl there
        | some m =>
            rw [made] at there
            rcases (step_of_change? made).mem there with rfl | old
            · exact .inr List.mem_cons_self
            · exact .inl old
      · exact .inr (List.mem_cons_of_mem c later)

theorem mem_after_of_predefined {changes : List Change} (member : f ∈ l.functions)
    (fixed : f.predefined = true)
    (itself : ∀ g, .unregister g ∈ changes → f.Same g → f = g) :
    f ∈ (l.after changes).functions := by
  induction changes generalizing l with
  | nil => exact member
  | cons c cs ih =>
      rw [after_cons]
      refine ih ?_ fun g later => itself g (List.mem_cons_of_mem c later)
      cases made : l.change? c with
      | none => exact member
      | some m =>
          refine (step_of_change? made).keeps member fixed ?_
          rintro g rfl
          exact itself g List.mem_cons_self

theorem granted_append_singleton (cs : List Change) (c : Change) :
    l.granted (cs ++ [c]) =
      l.granted cs ++ (if ((l.after cs).change? c).isSome then [c] else []) := by
  induction cs generalizing l with
  | nil => cases made : l.change? c <;> simp [granted, made]
  | cons d ds ih =>
      cases made : l.change? d <;> simp [granted, after_cons, made, ih]

/-- The library that a host starts with. -/
def initial (includePredefined : Bool) : Library :=
  if includePredefined then predefined else empty

theorem empty_distinct : Library.empty.Distinct :=
  List.nodup_nil

theorem predefined_distinct : Library.predefined.Distinct := by
  rw [Distinct, keys, List.Nodup, List.pairwise_map]
  refine predefined_pairwise.imp ?_
  intro f g apart same
  exact apart (Function.clashes_iff.mpr same)

theorem initial_distinct (includePredefined : Bool) : (initial includePredefined).Distinct := by
  cases includePredefined with
  | false => exact empty_distinct
  | true => exact predefined_distinct

end Library

end Formulary
