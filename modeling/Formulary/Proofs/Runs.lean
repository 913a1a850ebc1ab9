import Formulary.Evaluation.Eval
import Mathlib.Data.List.Forall2

/-! # How runs end

A sequence of runs ends with a value only if each of its parts does, and its
calls are then those of the parts, one after the other. What every part
guarantees of its value and of its error, the sequence guarantees as well; two
sequences whose parts correspond to each other correspond as a whole, and a value
that carries over from part to part carries over to the end. A sequence stays within a
limit on its depth when all its parts do, and so for other ways of comparing runs.
-/

namespace Formulary

/-- Two outcomes correspond when both are values and these are related, when both are
    errors of the same kind, or when both are due to the depth of calls. -/
inductive Outcome.Related {α β : Type} (R : α → β → Prop) : Outcome α → Outcome β → Prop
  | value {a b} (related : R a b) : Related R (.value a) (.value b)
  | error {e e' : EvalError} (same : e.kind = e'.kind) : Related R (.error e) (.error e')
  | tooDeep : Related R .tooDeep .tooDeep

namespace Run

variable {α β : Type}

theorem ofExcept_bind (x : Except EvalError α) (next : α → Except EvalError β) :
    ofExcept (x >>= next) = ofExcept x >>= fun a => ofExcept (next a) := by
  cases x <;> rfl

theorem outcome_bind_eq_value {r : Run α} {next : α → Run β} {b : β} :
    (r >>= next).outcome = .value b ↔
      ∃ a, r.outcome = .value a ∧ (next a).outcome = .value b := by
  obtain ⟨calls, outcome⟩ := r
  cases outcome <;> simp [Bind.bind, andThen]

theorem outcome_bind_eq_error {r : Run α} {next : α → Run β} {e : EvalError} :
    (r >>= next).outcome = .error e ↔
      r.outcome = .error e ∨ ∃ a, r.outcome = .value a ∧ (next a).outcome = .error e := by
  obtain ⟨calls, outcome⟩ := r
  cases outcome <;> simp [Bind.bind, andThen]

theorem calls_bind {r : Run α} {a : α} (ended : r.outcome = .value a) (next : α → Run β) :
    (r >>= next).calls = r.calls ++ (next a).calls := by
  obtain ⟨calls, outcome⟩ := r
  cases ended
  rfl

theorem bind_congr_value {r : Run α} {f g : α → Run β}
    (same : ∀ a, r.outcome = .value a → f a = g a) : r >>= f = r >>= g := by
  obtain ⟨calls, outcome⟩ := r
  cases outcome with
  | value a => simp only [Bind.bind, andThen, same a rfl]
  | error | tooDeep => rfl

/-- What a run guarantees of its value and of its error, if it ends with one. -/
structure Meets (good : α → Prop) (bad : EvalError → Prop) (r : Run α) : Prop where
  value : ∀ a, r.outcome = .value a → good a
  error : ∀ e, r.outcome = .error e → bad e

namespace Meets

variable {good : α → Prop} {bad : EvalError → Prop}

theorem of_forall (value : ∀ a, good a) (error : ∀ e, bad e) (r : Run α) : Meets good bad r where
  value a _ := value a
  error e _ := error e

theorem pure {a : α} (holds : good a) : Meets good bad (Pure.pure a) where
  value := by
    intro _ ended
    cases ended
    exact holds
  error := by
    intro _ ended
    cases ended

theorem fail {e : EvalError} (holds : bad e) : Meets good bad (Run.fail e : Run α) where
  value := by
    intro _ ended
    cases ended
  error := by
    intro _ ended
    cases ended
    exact holds

theorem tooDeep : Meets good bad (Run.tooDeep : Run α) where
  value := by
    intro _ ended
    cases ended
  error := by
    intro _ ended
    cases ended

theorem note {call : HostCall} : Meets (fun _ => True) bad (Run.note call) where
  value _ _ := trivial
  error := by
    intro _ ended
    cases ended

theorem imp {better : α → Prop} {worse : EvalError → Prop} {r : Run α} (meets : r.Meets good bad)
    (value : ∀ a, good a → better a) (error : ∀ e, bad e → worse e) : r.Meets better worse where
  value a ended := value a (meets.value a ended)
  error e ended := error e (meets.error e ended)

theorem bind {better : β → Prop} {r : Run α} {next : α → Run β} (first : r.Meets good bad)
    (rest : ∀ a, good a → (next a).Meets better bad) : (r >>= next).Meets better bad where
  value := by
    intro b ended
    obtain ⟨a, here, there⟩ := outcome_bind_eq_value.mp ended
    exact (rest a (first.value a here)).value b there
  error := by
    intro e ended
    rcases outcome_bind_eq_error.mp ended with here | ⟨a, here, there⟩
    · exact first.error e here
    · exact (rest a (first.value a here)).error e there

theorem mapM {better : β → Prop} {xs : List α} {f : α → Run β}
    (each : ∀ x ∈ xs, (f x).Meets better bad) :
    (xs.mapM f).Meets (fun ys => ys.length = xs.length ∧ ∀ y ∈ ys, better y) bad := by
  induction xs with
  | nil =>
      rw [List.mapM_nil]
      exact .pure ⟨rfl, fun _ member => nomatch member⟩
  | cons x xs ih =>
      rw [List.mapM_cons]
      refine (each x List.mem_cons_self).bind fun y here => ?_
      have others := ih fun x member => each x (List.mem_cons_of_mem _ member)
      refine others.bind fun ys ⟨length, there⟩ => ?_
      exact .pure ⟨by rw [List.length_cons, List.length_cons, length],
        List.forall_mem_cons.mpr ⟨here, there⟩⟩

theorem foldlM {xs : List β} {f : α → β → Run α} {a : α} (start : good a)
    (each : ∀ a, good a → ∀ x ∈ xs, (f a x).Meets good bad) :
    (xs.foldlM f a).Meets good bad := by
  induction xs generalizing a with
  | nil => exact .pure start
  | cons x xs ih =>
      rw [List.foldlM_cons]
      refine (each a start x List.mem_cons_self).bind fun b next => ?_
      exact ih next fun a holds x member => each a holds x (List.mem_cons_of_mem _ member)

end Meets

/-- Two runs correspond when they make the same calls and end alike. -/
structure Related (R : α → β → Prop) (r : Run α) (s : Run β) : Prop where
  calls : r.calls = s.calls
  outcome : r.outcome.Related R s.outcome

namespace Related

variable {γ δ : Type} {R : α → β → Prop} {Q : γ → δ → Prop}

theorem pure {a : α} {b : β} (related : R a b) : Related R (Pure.pure a) (Pure.pure b) :=
  ⟨rfl, .value related⟩

theorem fail {e e' : EvalError} (same : e.kind = e'.kind) :
    Related R (Run.fail e) (Run.fail e') :=
  ⟨rfl, .error same⟩

theorem tooDeep : Related R Run.tooDeep Run.tooDeep :=
  ⟨rfl, .tooDeep⟩

theorem of_reflexive {R : α → α → Prop} (r : Run α) (each : ∀ a, R a a) : Related R r r := by
  obtain ⟨calls, outcome⟩ := r
  cases outcome with
  | value a => exact ⟨rfl, .value (each a)⟩
  | error e => exact ⟨rfl, .error rfl⟩
  | tooDeep => exact ⟨rfl, .tooDeep⟩

theorem refl (r : Run α) : Related (· = ·) r r :=
  .of_reflexive r fun _ => rfl

theorem bind {r : Run α} {s : Run β} {f : α → Run γ} {g : β → Run δ} (first : Related R r s)
    (rest : ∀ a b, R a b → Related Q (f a) (g b)) : Related Q (r >>= f) (s >>= g) := by
  obtain ⟨calls, outcome⟩ := r
  obtain ⟨calls', outcome'⟩ := s
  obtain ⟨sameCalls, ends⟩ := first
  dsimp only at sameCalls ends
  subst sameCalls
  cases ends with
  | value related =>
      have ⟨later, finish⟩ := rest _ _ related
      exact ⟨congrArg (calls ++ ·) later, finish⟩
  | error same => exact ⟨rfl, .error same⟩
  | tooDeep => exact ⟨rfl, .tooDeep⟩

theorem ofExcept_bind {x : Except EvalError α} {f : α → Run γ} {g : α → Run δ}
    (rest : ∀ a, x = .ok a → Related Q (f a) (g a)) :
    Related Q (Run.ofExcept x >>= f) (Run.ofExcept x >>= g) := by
  cases x with
  | ok a => exact rest a rfl
  | error e => exact .fail rfl

theorem mapM {xs : List α} {ys : List β} {f : α → Run γ} {g : β → Run δ}
    (lists : List.Forall₂ R xs ys) (each : ∀ x y, R x y → Related Q (f x) (g y)) :
    Related (List.Forall₂ Q) (xs.mapM f) (ys.mapM g) := by
  induction lists with
  | nil =>
      rw [List.mapM_nil, List.mapM_nil]
      exact .pure .nil
  | cons here _ ih =>
      rw [List.mapM_cons, List.mapM_cons]
      refine (each _ _ here).bind fun a b first => ?_
      exact ih.bind fun as bs others => .pure (.cons first others)

theorem foldlM {xs : List α} {ys : List β} {f : γ → α → Run γ} {g : δ → β → Run δ} {a : γ} {b : δ}
    (lists : List.Forall₂ R xs ys) (start : Q a b)
    (each : ∀ a b, Q a b → ∀ x y, R x y → Related Q (f a x) (g b y)) :
    Related Q (xs.foldlM f a) (ys.foldlM g b) := by
  induction lists generalizing a b with
  | nil => exact .pure start
  | cons here _ ih =>
      rw [List.foldlM_cons, List.foldlM_cons]
      exact (each a b start _ _ here).bind fun c d next => ih next

end Related

/-- Whatever value the first run ends with, the second one ends with it too, and it is
    a good one. -/
def Carries (good : α → Prop) (r s : Run α) : Prop :=
  ∀ a, r.outcome = .value a → s.outcome = .value a ∧ good a

namespace Carries

variable {good : α → Prop} {better : β → Prop}

theorem pure {a : α} (holds : good a) : Carries good (Pure.pure a) (Pure.pure a) := by
  intro b ended
  cases ended
  exact ⟨rfl, holds⟩

theorem fail {e : EvalError} {s : Run α} : Carries good (Run.fail e) s := by
  intro a ended
  cases ended

theorem ofExcept {x : Except EvalError α} (holds : ∀ a, x = .ok a → good a) :
    Carries good (Run.ofExcept x) (Run.ofExcept x) := by
  cases x with
  | ok a => exact .pure (holds a rfl)
  | error e => exact .fail

theorem bind {r s : Run α} {f g : α → Run β} (first : Carries good r s)
    (rest : ∀ a, good a → Carries better (f a) (g a)) : Carries better (r >>= f) (s >>= g) := by
  intro b ended
  obtain ⟨a, here, there⟩ := outcome_bind_eq_value.mp ended
  have ⟨same, holds⟩ := first a here
  have ⟨finish, result⟩ := rest a holds b there
  exact ⟨outcome_bind_eq_value.mpr ⟨a, same, finish⟩, result⟩

theorem mapM {xs : List α} {f g : α → Run β} (each : ∀ x ∈ xs, Carries better (f x) (g x)) :
    Carries (fun ys => ∀ y ∈ ys, better y) (xs.mapM f) (xs.mapM g) := by
  induction xs with
  | nil =>
      rw [List.mapM_nil, List.mapM_nil]
      exact .pure fun _ member => nomatch member
  | cons x xs ih =>
      rw [List.mapM_cons, List.mapM_cons]
      refine (each x List.mem_cons_self).bind fun y here => ?_
      refine (ih fun x member => each x (List.mem_cons_of_mem _ member)).bind fun ys there => ?_
      exact .pure (List.forall_mem_cons.mpr ⟨here, there⟩)

theorem foldlM {xs : List β} {f g : α → β → Run α} {a : α} (start : good a)
    (each : ∀ a, good a → ∀ x ∈ xs, Carries good (f a x) (g a x)) :
    Carries good (xs.foldlM f a) (xs.foldlM g a) := by
  induction xs generalizing a with
  | nil => exact .pure start
  | cons x xs ih =>
      rw [List.foldlM_cons, List.foldlM_cons]
      refine (each a start x List.mem_cons_self).bind fun b next => ?_
      exact ih next fun a holds x member => each a holds x (List.mem_cons_of_mem _ member)

end Carries

/-- Whether a run ends with a value or with an error, and not for the limit on its depth. -/
def Ends (r : Run α) : Prop :=
  (∃ a, r.outcome = .value a) ∨ ∃ e, r.outcome = .error e

namespace Ends

theorem pure (a : α) : Ends (Pure.pure a : Run α) :=
  .inl ⟨a, rfl⟩

theorem fail (e : EvalError) : Ends (Run.fail e : Run α) :=
  .inr ⟨e, rfl⟩

theorem ofExcept (x : Except EvalError α) : Ends (Run.ofExcept x) := by
  cases x with
  | ok a => exact pure a
  | error e => exact fail e

theorem bind {r : Run α} {next : α → Run β} (first : r.Ends)
    (rest : ∀ a, (next a).Ends) : (r >>= next).Ends := by
  rcases first with ⟨a, ended⟩ | ⟨e, ended⟩
  · rcases rest a with ⟨b, there⟩ | ⟨e, there⟩
    · exact .inl ⟨b, outcome_bind_eq_value.mpr ⟨a, ended, there⟩⟩
    · exact .inr ⟨e, outcome_bind_eq_error.mpr (.inr ⟨a, ended, there⟩)⟩
  · exact .inr ⟨e, outcome_bind_eq_error.mpr (.inl ended)⟩

theorem ofExcept_bind {x : Except EvalError α} {next : α → Run β}
    (rest : ∀ a, x = .ok a → (next a).Ends) : (Run.ofExcept x >>= next).Ends := by
  cases x with
  | ok a => exact rest a rfl
  | error e => exact fail e

theorem mapM {xs : List α} {f : α → Run β} (each : ∀ x ∈ xs, (f x).Ends) : (xs.mapM f).Ends := by
  induction xs with
  | nil => exact pure []
  | cons x xs ih =>
      rw [List.mapM_cons]
      have here := each x List.mem_cons_self
      have others := ih fun y member => each y (List.mem_cons_of_mem x member)
      exact here.bind fun y => others.bind fun ys => pure (y :: ys)

theorem foldlM {xs : List β} {f : α → β → Run α} (each : ∀ a x, (f a x).Ends) (a : α) :
    (xs.foldlM f a).Ends := by
  induction xs generalizing a with
  | nil => exact pure a
  | cons x xs ih =>
      rw [List.foldlM_cons]
      exact (each a x).bind fun b => ih b

end Ends

/-- Unless the first run is cut short for its depth, the second one is the same. -/
def Within (r s : Run α) : Prop :=
  r.outcome ≠ .tooDeep → r = s

namespace Within

theorem refl (r : Run α) : Within r r :=
  fun _ => rfl

theorem tooDeep (s : Run α) : Within Run.tooDeep s :=
  fun ended => (ended rfl).elim

theorem value {r s : Run α} {a : α} (within : Within r s) (ended : r.outcome = .value a) :
    s.outcome = .value a := by
  rwa [← within (by simp [ended])]

/-- Two runs that both stay within what a third one does are the same. -/
theorem eq_of_ended {r s t : Run α} (first : Within r t) (second : Within s t)
    (ended : r.outcome ≠ .tooDeep) (ended' : s.outcome ≠ .tooDeep) : r = s :=
  (first ended).trans (second ended').symm

theorem bind {r s : Run α} {f g : α → Run β} (first : Within r s)
    (rest : ∀ a, Within (f a) (g a)) : Within (r >>= f) (s >>= g) := by
  intro ended
  obtain ⟨calls, outcome⟩ := r
  cases outcome with
  | value a =>
      obtain rfl := first (by simp)
      have finish : (f a).outcome ≠ .tooDeep := ended
      simp only [Bind.bind, andThen, rest a finish]
  | error e =>
      obtain rfl := first (by simp)
      rfl
  | tooDeep => exact (ended rfl).elim

end Within

/-- A way of comparing runs by which sequences of runs are alike when their parts are, and
    whatever ends is like itself. -/
structure Comparison where
  Alike {α : Type} : Run α → Run α → Prop
  ended {α : Type} {r : Run α} : r.Ends → Alike r r
  bind {α β : Type} {r s : Run α} {f g : α → Run β} :
    Alike r s → (∀ a, Alike (f a) (g a)) → Alike (r >>= f) (s >>= g)

namespace Comparison

variable (c : Comparison)

theorem mapM {xs : List α} {f g : α → Run β} (each : ∀ x ∈ xs, c.Alike (f x) (g x)) :
    c.Alike (xs.mapM f) (xs.mapM g) := by
  induction xs with
  | nil => exact c.ended (.pure [])
  | cons x xs ih =>
      rw [List.mapM_cons, List.mapM_cons]
      refine c.bind (each x List.mem_cons_self) fun y => ?_
      have others := ih fun z member => each z (List.mem_cons_of_mem x member)
      exact c.bind others fun ys => c.ended (.pure (y :: ys))

theorem foldlM {f g : α → β → Run α} (each : ∀ a x, c.Alike (f a x) (g a x)) (xs : List β)
    (a : α) : c.Alike (xs.foldlM f a) (xs.foldlM g a) := by
  induction xs generalizing a with
  | nil => exact c.ended (.pure a)
  | cons x xs ih =>
      rw [List.foldlM_cons, List.foldlM_cons]
      exact c.bind (each a x) fun b => ih b

/-- A run stays within another one when its parts stay within those of the other. -/
def within : Comparison where
  Alike := Within
  ended _ := .refl _
  bind := .bind

end Comparison

end Run

theorem Node.evalAll_length {l : Library} {invoke : Function → List Value → Run Value}
    {parameters : List Value} (ns : List Node) :
    (evalAll l invoke parameters ns).Meets (fun vs => vs.length = ns.length) fun _ => True := by
  induction ns with
  | nil => exact .pure rfl
  | cons n ns ih =>
      have first : (n.eval l invoke parameters).Meets (fun _ => True) fun _ => True :=
        ⟨fun _ _ => trivial, fun _ _ => trivial⟩
      rw [evalAll]
      refine first.bind fun v _ => ih.bind fun vs length => ?_
      exact .pure (by rw [List.length_cons, List.length_cons, length])

end Formulary
