import Formulary.Error.Evaluation

/-! # Runs

An evaluation ends with a value, with an error, or because calls were nested too
deeply. On its way it may call functions of the host, whose bodies are not
under the library's control; a run therefore also says which of them were called,
in order.
-/

namespace Formulary

/-- A call that a host function received. The host sees those it traces. -/
structure HostCall where
  callee : String
  arguments : List Value
  traced : Bool

def HostCall.text (c : HostCall) : String :=
  s!"{c.callee}(" ++ ", ".intercalate (Value.texts c.arguments) ++ ")"

/-- How an evaluation ends. -/
inductive Outcome (α : Type) where
  | value (a : α)
  | error (e : EvalError)
  | tooDeep

structure Run (α : Type) where
  calls : List HostCall
  outcome : Outcome α

namespace Run

variable {α β : Type}

/-- End with an error. -/
def fail (e : EvalError) : Run α :=
  ⟨[], .error e⟩

/-- End because the permitted depth of calls is used up. -/
def tooDeep : Run α :=
  ⟨[], .tooDeep⟩

/-- Note a call of a host function. -/
def note (c : HostCall) : Run Unit :=
  ⟨[c], .value ()⟩

def ofExcept : Except EvalError α → Run α
  | .ok a => ⟨[], .value a⟩
  | .error e => fail e

/-- Go on with the value of a run, if it has one. -/
def andThen (r : Run α) (next : α → Run β) : Run β :=
  match r.outcome with
  | .value a => ⟨r.calls ++ (next a).calls, (next a).outcome⟩
  | .error e => ⟨r.calls, .error e⟩
  | .tooDeep => ⟨r.calls, .tooDeep⟩

instance : Monad Run where
  pure a := ⟨[], .value a⟩
  bind := andThen

instance : LawfulMonad Run := LawfulMonad.mk' Run
  (fun r => by
    obtain ⟨calls, outcome⟩ := r
    cases outcome <;> simp [Functor.map, andThen])
  (fun a next => by simp [Bind.bind, Pure.pure, andThen])
  (fun r f g => by
    obtain ⟨calls, outcome⟩ := r
    cases outcome with
    | value a =>
      simp only [Bind.bind, andThen]
      cases (f a).outcome <;> simp
    | error e => rfl
    | tooDeep => rfl)

@[simp] theorem ofExcept_ok (a : α) : ofExcept (.ok a) = pure a := rfl

@[simp] theorem ofExcept_error (e : EvalError) :
    ofExcept (.error e : Except EvalError α) = fail e := rfl

@[simp] theorem fail_bind (e : EvalError) (next : α → Run β) : fail e >>= next = fail e := rfl

@[simp] theorem tooDeep_bind (next : α → Run β) : tooDeep >>= next = tooDeep := rfl

/-- The calls that the host traces, as text. -/
def trace (r : Run α) : List String :=
  (r.calls.filter (·.traced)).map HostCall.text

end Run

end Formulary
