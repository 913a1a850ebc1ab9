import Formulary.Proofs.Chains
import Formulary.Proofs.DirectEvaluation
import Formulary.Proofs.Entries
import Formulary.Proofs.Provenance

/-! # Errors and phases

Defining functions and evaluating them raise errors of two families. Whatever code or
registrations are asked for, and whatever objects are in between the instructions, the
error is one of definition. Whatever is called or evaluated, also trees and arguments that
no code leads to, the error is one of evaluation, or the calls nest too deeply. A query
raises only few kinds of errors of its own accord; the one kind that is left to hosts comes
from a host program.

There are exceptions to this on both sides. Where the text of a tree has to be written, the
host breaks off if the tree has too many levels. And an evaluation comes upon errors of the
host's own if it is given integers that are too large for a real, or objects that are no
values.
-/

namespace Formulary

/-- What a host may ask a workspace for and be refused. -/
inductive Query where
  | register (f : Function)
  | define (name : String) (code : Code)
  | defineRecursive (name : String) (code : Code) (arity : Int)
  | build (name : String) (code : Code)
  | tree (code : Code)
  | parameters (code : Code)
  | describe (code : Code)
  | call (name : String) (data : List Datum)
  | evaluate (name : String) (data : List Datum)
  /-- Nothing is converted. With the query comes what a host function, if that is what is
      entered, makes of objects that are no values. -/
  | enter (f : Function) (objects : List Datum) (reaction : Run Datum)
  | evalNode (root : Node) (objects : List Datum)

/-- How a query ends for the host, who sees the kind of an error and its report. -/
inductive Reply where
  | done
  | raised (kind : ErrorKind) (report : Report)
  | tooDeep

namespace Reply

def ofExcept {α : Type} : Except DefinitionError α → Reply
  | .ok _ => .done
  | .error .tooDeep => .tooDeep
  | .error e => .raised e.kind e.report

def ofRun {α : Type} (r : Run α) : Reply :=
  match r.outcome with
  | .value _ => .done
  | .error e => .raised e.kind e.report
  | .tooDeep => .tooDeep

end Reply

def Workspace.reply (w : Workspace) : Query → Reply
  | .register f => .ofExcept (w.register f).2
  | .define name code => .ofExcept (w.define name code).2
  | .defineRecursive name code arity => .ofExcept (w.defineRecursive name code arity).2
  | .build name code => .ofExcept (w.build name code).2
  | .tree code => .ofExcept (Node.ofCode w.library code)
  | .parameters code => .ofExcept (w.inferParameters code)
  | .describe code => .ofExcept (w.describe code)
  | .call name data => .ofRun (w.call name data)
  | .evaluate name data => .ofRun (w.evaluate name data)
  | .enter f objects reaction => .ofRun (w.library.invokeDirect w.depth f objects reaction)
  | .evalNode root objects =>
    .ofRun (root.evalDirect w.library (w.library.invoke w.depth) objects)

/-- The kinds of errors of code that stands for no rule. -/
def codeErrors : List ErrorKind :=
  [.invalidInstructions, .undefinedFunction, .invalidParameterIndex]

/-- Whether code stands for a tree of too many levels. -/
def Code.Overdeep (l : Library) (levels : Nat) (code : Code) : Prop :=
  ∃ rule, Rule.ofCode l code = .ok rule ∧ rule.root.nestsWithin levels = false

namespace Query

def phase : Query → Phase
  | .register _ | .define .. | .defineRecursive .. | .build .. | .tree _ | .parameters _
  | .describe _ => .definition
  | .call .. | .evaluate .. | .enter .. | .evalNode .. => .evaluation

/-- The kinds of errors that a query raises of its own accord. -/
def kinds : Query → List ErrorKind
  | .register _ => [.duplicateFunction]
  | .define .. | .defineRecursive .. => .duplicateFunction :: codeErrors
  | .build .. | .tree _ | .describe _ => codeErrors
  | .parameters _ => [.invalidParameterIndex]
  | .call .. | .evaluate .. | .enter .. | .evalNode .. => evaluationErrors

/-- Whether the text of a tree has to be written that has too many levels. The code of a
    recursive definition is read while the function is announced. -/
def Overdeep (w : Workspace) : Query → Prop
  | .define _ code | .build _ code | .describe code => code.Overdeep w.library w.levels
  | .defineRecursive name code arity =>
    ∃ m, (w.library.register (w.announce name arity).2).library? = some m ∧
      code.Overdeep m w.levels
  | _ => False

/-- The functions that a query may come to. The one that the host enters need not be in the
    library. -/
def functions (w : Workspace) : Query → List Function
  | .enter f .. => f :: w.library.functions
  | _ => w.library.functions

/-- The objects that are not converted. -/
def objects : Query → List Datum
  | .enter _ objects _ | .evalNode _ objects => objects
  | _ => []

/-- The values that come with a query. -/
def values : Query → List Value
  | .call _ data | .evaluate _ data | .enter _ data _ => Datum.valuesAll data
  | .evalNode root objects => root.constants ++ Datum.valuesAll objects
  | _ => []

end Query

/-- A result that is, if an error at all, an error of certain kinds, or breaks off in a case
    that is called deep. -/
def FailsWith {α : Type} (kinds : List ErrorKind) (deep : Prop) (x : Except DefinitionError α) :
    Prop :=
  ∀ e, x = .error e → e.kind ∈ kinds ∨ e = .tooDeep ∧ deep

namespace FailsWith

variable {α β : Type} {kinds more : List ErrorKind} {deep deeper : Prop}
  {x : Except DefinitionError α}

theorem ok (a : α) : FailsWith kinds deep (.ok a : Except DefinitionError α) := by
  intro e failed
  cases failed

theorem error {e : DefinitionError} (kind : e.kind ∈ kinds) :
    FailsWith kinds deep (.error e : Except DefinitionError α) := by
  intro e failed
  cases failed
  exact .inl kind

theorem mono (fails : FailsWith kinds deep x) (larger : kinds ⊆ more) (also : deep → deeper) :
    FailsWith more deeper x :=
  fun e failed => (fails e failed).imp (fun kind => larger kind) (And.imp_right also)

theorem passedOn {e : DefinitionError} (fails : FailsWith kinds deep (.error e : Except _ α)) :
    FailsWith kinds deep (.error e : Except _ β) := by
  intro e failed
  cases failed
  exact fails e rfl

theorem bind {next : α → Except DefinitionError β} (first : FailsWith kinds deep x)
    (rest : ∀ a, x = .ok a → FailsWith kinds deep (next a)) :
    FailsWith kinds deep (x >>= next) := by
  cases x with
  | ok a => exact rest a rfl
  | error e => exact first.passedOn

theorem map (fails : FailsWith kinds deep x) (f : α → β) : FailsWith kinds deep (x.map f) := by
  cases x with
  | ok a => exact .ok (f a)
  | error e => exact fails.passedOn

theorem reply (fails : FailsWith kinds deep x) (own : .foreign ∉ kinds) :
    Reply.ofExcept x = .done ∨
      (∃ kind report, Reply.ofExcept x = .raised kind report ∧ kind ∈ kinds) ∨
      Reply.ofExcept x = .tooDeep ∧ deep := by
  cases x with
  | ok a => exact .inl rfl
  | error e =>
      rcases fails e rfl with kind | ⟨rfl, deep⟩
      · refine .inr (.inl ⟨e.kind, e.report, ?_, kind⟩)
        cases e with
        | tooDeep => exact (own kind).elim
        | _ => rfl
      · exact .inr (.inr ⟨rfl, deep⟩)

end FailsWith

theorem Code.arity_failsWith (code : Code) :
    FailsWith [.invalidParameterIndex] False code.arity := by
  simp only [arity]
  split
  · exact .error (by simp [DefinitionError.kind])
  · exact .ok _

theorem Instr.build_failsWith (l : Library) (position : Nat) (instr : Instr)
    (stack : List Node) : FailsWith codeErrors False (instr.build l position stack) := by
  intro e failed
  unfold build at failed
  simp only [codeErrors]
  cases instr <;> grind [DefinitionError.kind]

theorem Code.build_failsWith (l : Library) (position : Nat) (code : Code) (stack : List Node) :
    FailsWith codeErrors False (build l position code stack) := by
  induction code generalizing position stack with
  | nil => exact .ok stack
  | cons instr rest ih =>
      apply (instr.build_failsWith l position stack).bind
      intro stack _
      exact ih (position + 1) stack

theorem Rule.ofCode_failsWith (l : Library) (code : Code) :
    FailsWith codeErrors False (Rule.ofCode l code) := by
  unfold ofCode
  apply (code.build_failsWith l 0 []).bind
  intro stack _
  split
  · apply (code.arity_failsWith.mono (by simp [codeErrors]) id).bind
    intro count _
    exact .ok _
  · exact .error (by simp [DefinitionError.kind, codeErrors])

theorem Rule.written_failsWith (l : Library) (levels : Nat) (code : Code) :
    FailsWith codeErrors (code.Overdeep l levels) (Rule.written l levels code) := by
  unfold written
  apply ((Rule.ofCode_failsWith l code).mono (List.Subset.refl _) False.elim).bind
  intro rule read
  cases fits : rule.root.nestsWithin levels with
  | true => exact .ok rule
  | false =>
      intro e failed
      cases failed
      exact .inr ⟨rfl, rule, read, fits⟩

theorem Node.ofCode_failsWith (l : Library) (code : Code) :
    FailsWith codeErrors False (Node.ofCode l code) :=
  (Rule.ofCode_failsWith l code).map Rule.root

namespace Workspace

theorem build_failsWith (w : Workspace) (name : String) (code : Code) :
    FailsWith codeErrors (code.Overdeep w.library w.levels) (w.build name code).2 := by
  have read := Rule.written_failsWith w.library w.levels code
  cases built : Rule.written w.library w.levels code with
  | error e =>
      rw [build_error built name]
      rw [built] at read
      exact read.passedOn
  | ok rule =>
      obtain ⟨w', building, _⟩ := build_ok built name
      rw [building]
      exact .ok _

end Workspace

mutual

theorem Datum.toValue_meets (d : Datum) :
    (Run.ofExcept d.toValue).Meets (fun _ => True) (·.kind = .invalidType) := by
  cases d with
  | boolean | real | value => exact .pure trivial
  | integer n =>
      simp only [toValue]
      split
      · exact .pure trivial
      · exact .fail rfl
  | list elements =>
      have inside := Datum.toValues_meets elements
      simp only [toValue]
      cases converted : Datum.toValues elements with
      | ok vs => exact .pure trivial
      | error e =>
          rw [converted] at inside
          exact .fail (inside.error e rfl)
  | stray object => exact .fail rfl

theorem Datum.toValues_meets (data : List Datum) :
    (Run.ofExcept (Datum.toValues data)).Meets (fun _ => True) (·.kind = .invalidType) := by
  cases data with
  | nil => exact .pure trivial
  | cons d ds =>
      simp only [toValues, Run.ofExcept_bind]
      apply (Datum.toValue_meets d).bind
      intro v _
      apply (Datum.toValues_meets ds).bind
      intro vs _
      exact .pure trivial

end

/-- A host program may give up with an error if it does so for some answers of the
    functions that it calls. -/
def HostProgram.MayFail (e : EvalError) : HostProgram → Prop
  | .answer _ => False
  | .fail e' => e' = e
  | .call _ _ next => ∃ v, (next v).MayFail e

/-- Whether a host function that a query may come to gives up with an error. -/
inductive Query.MayRaise (w : Workspace) (q : Query) (e : EvalError) : Prop
  | program {f traced program arguments} (member : f ∈ q.functions w)
      (body : f.body = .host traced program) (may : (program arguments).MayFail e)
  | reaction {f objects reaction} (same : q = .enter f objects reaction)
      (raised : reaction.outcome = .error e)

/-- Whether an error of the kind that is left to hosts may come from a host function. -/
def Query.GivesUp (w : Workspace) (q : Query) : Prop :=
  ∃ e, q.MayRaise w e ∧ e.kind = .runtime

/-- Whether there are only values where nothing is converted, and no integer that is too large
    for a real, neither among them nor in the functions that a query may come to. What hosts
    supply has to be in order for itself. -/
structure Query.Tame (w : Workspace) (q : Query) : Prop where
  converted : ∃ vs : List Value, q.objects = vs.map .value
  fits : ∀ v ∈ q.values, ∀ n ∈ v.integers, FitsReal n
  bodies : ∀ f ∈ q.functions w, f.body.Keeps .fitting

theorem EvalError.kind_cases (e : EvalError) :
    e.kind ∈ evaluationErrors ∨ e.kind = .runtime ∨ e.kind = .foreign := by
  cases e <;> simp [kind, evaluationErrors]

/-- No value is excluded. An error is one that evaluations raise of their own accord, or
    a host function gives up, or the host breaks off. -/
def Condition.failing (w : Workspace) (q : Query) : Condition where
  value _ := True
  error e := e.kind ∈ evaluationErrors ∨ e.kind = .runtime ∧ q.GivesUp w ∨ e.kind = .foreign
  boolean _ := trivial
  real _ := trivial
  list vs := by simp
  ordinary _ := .inl

section

variable {w : Workspace} {q : Query}

theorem Query.MayRaise.failing {e : EvalError} (may : q.MayRaise w e) :
    (Condition.failing w q).error e := by
  rcases e.kind_cases with known | runtime | foreign
  · exact .inl known
  · exact .inr (.inl ⟨runtime, e, may, runtime⟩)
  · exact .inr (.inr foreign)

namespace Query.Tame

theorem given (tame : q.Tame w) {data : List Datum} (part : Datum.valuesAll data ⊆ q.values)
    {vs : List Value} (made : Datum.toValues data = .ok vs) :
    ∀ v ∈ vs, Condition.fitting.value v := by
  intro v member n inside
  have among := Value.mem_integersAll.mpr ⟨v, member, inside⟩
  rcases Datum.integers_toValues made among with inRange | ⟨u, there, inside⟩
  · exact inRange.fitsReal
  · exact tame.fits u (part there) n inside

end Query.Tame

theorem Run.Meets.reply {α : Type} {r : Run α}
    (meets : r.Meets (fun _ => True) (Condition.failing w q).error)
    (tame : q.Tame w → r.Meets (fun _ => True) Condition.fitting.error) :
    Reply.ofRun r = .done ∨
      (∃ kind report, Reply.ofRun r = .raised kind report ∧
        (kind ∈ evaluationErrors ∨ kind = .runtime ∧ q.GivesUp w ∨
          kind = .foreign ∧ ¬q.Tame w)) ∨
      Reply.ofRun r = .tooDeep := by
  unfold Reply.ofRun
  cases ended : r.outcome with
  | value a => exact .inl rfl
  | tooDeep => exact .inr (.inr rfl)
  | error e =>
      refine .inr (.inl ⟨e.kind, e.report, rfl, ?_⟩)
      rcases meets.error e ended with known | givesUp | foreign
      · exact .inl known
      · exact .inr (.inl givesUp)
      · exact .inr (.inr ⟨foreign, fun all => (tame all).error e ended foreign⟩)

end

namespace Workspace

end Workspace

end Formulary
