import Formulary.Proofs.Limits
import Formulary.Proofs.Widening
import Formulary.Workspace.Basic

/-! # Running out of levels

Where a limit on nesting is reached, however deep below, the whole evaluation ends there for
its limit. Nothing takes the place of this end, and no call is made after it. So a result is
either due to the limit, or it owes nothing to it and is the same under any larger one.

To say so of every place at which levels can run out, an alarm is raised there, which is heard
among the calls.
-/

namespace Formulary

namespace Run

variable {α β : Type}

/-- Give up with an alarm. -/
def alarm (mark : HostCall) : Run α :=
  ⟨[mark], .tooDeep⟩

/-- The same run with an alarm at its end, if it ends for its depth. -/
def alarmed (mark : HostCall) (r : Run α) : Run α :=
  match r.outcome with
  | .tooDeep => ⟨r.calls ++ [mark], .tooDeep⟩
  | .value _ | .error _ => r

theorem alarmed_tooDeep (mark : HostCall) : (tooDeep : Run α).alarmed mark = alarm mark :=
  rfl

theorem Ends.alarmed {r : Run α} (ends : r.Ends) (mark : HostCall) : r.alarmed mark = r := by
  unfold Run.alarmed
  rcases ends with ⟨a, ended⟩ | ⟨e, ended⟩ <;> rw [ended]

theorem alarmed_bind (mark : HostCall) (r : Run α) (next : α → Run β) :
    (r >>= next).alarmed mark = r.alarmed mark >>= fun a => (next a).alarmed mark := by
  obtain ⟨calls, outcome⟩ := r
  cases outcome with
  | value a =>
      simp only [Run.alarmed, Bind.bind, andThen]
      cases ended : (next a).outcome <;> simp [ended]
  | error e => rfl
  | tooDeep => rfl

/-- The second run is the first one with an alarm. -/
def Comparison.alarmed (mark : HostCall) : Comparison where
  Alike r s := r.alarmed mark = s
  ended ends := ends.alarmed mark
  bind := by
    intro α β r s f g first rest
    rw [alarmed_bind, first, funext rest]

end Run

/-- Call a function, with so many levels of calls permitted, and with an alarm where they are
    used up. -/
def Library.invokeAlarmed (l : Library) (mark : HostCall) :
    Nat → Function → List Value → Run Value
  | 0, _, _ => Run.alarm mark
  | depth + 1, f, arguments =>
    f.enterBody l (l.invokeAlarmed mark depth)
      (fun vs root => root.eval l (l.invokeAlarmed mark depth) vs) arguments

mutual

/-- Evaluate a tree, with so many levels of nodes and calls permitted, and with an alarm where
    they are used up. -/
def Node.evalWithinAlarmed (l : Library) (mark : HostCall) : Nat → List Value → Node → Run Value
  | 0, _, _ => Run.alarm mark
  | limit + 1, parameters, n =>
    n.evalTop l (Library.invokeWithinAlarmed l mark limit)
      (Node.evalWithinAlarmed l mark limit parameters) parameters

/-- Call a function in the same way. -/
def Library.invokeWithinAlarmed (l : Library) (mark : HostCall) :
    Nat → Function → List Value → Run Value
  | 0, _, _ => Run.alarm mark
  | limit + 1, f, arguments =>
    f.enterBody l (Library.invokeWithinAlarmed l mark limit)
      (Node.evalWithinAlarmed l mark limit) arguments

end

theorem Library.invoke_alarmed (l : Library) (mark : HostCall) (depth : Nat) (f : Function)
    (arguments : List Value) :
    (l.invoke depth f arguments).alarmed mark = l.invokeAlarmed mark depth f arguments := by
  induction depth generalizing f arguments with
  | zero => exact Run.alarmed_tooDeep mark
  | succ depth ih =>
      rw [invoke_eq_enterBody, invokeAlarmed]
      refine f.enterBody_alike (.alarmed mark) ih (fun vs n => ?_) arguments
      exact n.eval_alike (.alarmed mark) ih vs

theorem Library.within_alarmed (l : Library) (mark : HostCall) (limit : Nat) :
    (∀ f arguments, (l.invokeWithin limit f arguments).alarmed mark =
        l.invokeWithinAlarmed mark limit f arguments) ∧
      ∀ parameters n, (Node.evalWithin l limit parameters n).alarmed mark =
        Node.evalWithinAlarmed l mark limit parameters n := by
  induction limit with
  | zero =>
      exact ⟨fun f arguments => Run.alarmed_tooDeep mark,
        fun parameters n => Run.alarmed_tooDeep mark⟩
  | succ limit ih =>
      obtain ⟨calls, trees⟩ := ih
      exact level_alike (.alarmed mark) calls trees

/-- What a host may have evaluated, by what it is given back. -/
inductive Job : Type → Type where
  | tree (root : Node) (parameters : List Value) : Job Value
  | function (f : Function) (arguments : List Value) : Job Value
  | call (name : String) (data : List Datum) : Job Value
  | evaluate (name : String) (data : List Datum) : Job Datum

namespace Job

variable {α : Type} {l : Library}

/-- Call a function by name, given how to call a function. -/
def callBy (l : Library) (invoke : Function → List Value → Run Value) (name : String)
    (data : List Datum) : Run Value := do
  let vs ← Run.ofExcept (Datum.toValues data)
  let f ← Run.ofExcept (l.entry name vs)
  invoke f vs

/-- Do a job, given how to evaluate a tree and how to call a function. -/
def run (l : Library) (evaluate : List Value → Node → Run Value)
    (invoke : Function → List Value → Run Value) : Job α → Run α
  | .tree root parameters => evaluate parameters root
  | .function f arguments => invoke f arguments
  | .call name data => callBy l invoke name data
  | .evaluate name data => do
    let v ← callBy l invoke name data
    return v.toDatum

theorem run_alike (c : Run.Comparison) {evaluate evaluate' : List Value → Node → Run Value}
    {invoke invoke' : Function → List Value → Run Value}
    (trees : ∀ vs n, c.Alike (evaluate vs n) (evaluate' vs n))
    (calls : ∀ f vs, c.Alike (invoke f vs) (invoke' f vs)) (job : Job α) :
    c.Alike (job.run l evaluate invoke) (job.run l evaluate' invoke') := by
  have byName (name : String) (data : List Datum) :
      c.Alike (callBy l invoke name data) (callBy l invoke' name data) := by
    refine c.bind (c.ended (.ofExcept _)) fun vs => ?_
    exact c.bind (c.ended (.ofExcept _)) fun f => calls f vs
  cases job with
  | tree root parameters => exact trees parameters root
  | function f arguments => exact calls f arguments
  | call name data => exact byName name data
  | evaluate name data => exact c.bind (byName name data) fun v => c.ended (.pure _)

end Job

namespace Workspace

variable {α : Type}

/-- The workspace with another limit on how deeply calls may nest. -/
def under (w : Workspace) (limit : Nat) : Workspace :=
  { w with depth := limit }

/-- Do a job in a workspace. -/
def run (w : Workspace) : Job α → Run α
  | .tree root parameters => w.evalNode root parameters
  | .function f arguments => w.enter f arguments
  | .call name data => w.call name data
  | .evaluate name data => w.evaluate name data

/-- Do a job with an alarm where the levels of calls are used up. -/
def runAlarmed (w : Workspace) (mark : HostCall) : Job α → Run α :=
  Job.run w.library
    (fun parameters root => root.eval w.library (w.library.invokeAlarmed mark w.depth) parameters)
    (w.library.invokeAlarmed mark w.depth)

/-- Do a job with so many levels of nodes and calls permitted. -/
def runWithin (w : Workspace) (limit : Nat) : Job α → Run α :=
  Job.run w.library (Node.evalWithin w.library limit) (w.library.invokeWithin limit)

/-- The same with an alarm where these levels are used up. -/
def runWithinAlarmed (w : Workspace) (mark : HostCall) (limit : Nat) : Job α → Run α :=
  Job.run w.library (Node.evalWithinAlarmed w.library mark limit)
    (w.library.invokeWithinAlarmed mark limit)

theorem run_eq (w : Workspace) (job : Job α) :
    w.run job = job.run w.library
      (fun parameters root => root.eval w.library (w.library.invoke w.depth) parameters)
      (w.library.invoke w.depth) := by
  cases job <;> rfl

theorem run_mono (w : Workspace) {limit limit' : Nat} (larger : limit ≤ limit') (job : Job α) :
    ((w.under limit).run job).Within ((w.under limit').run job) := by
  have calls := w.library.invoke_mono larger
  rw [run_eq, run_eq]
  exact job.run_alike .within (fun vs n => n.eval_alike .within calls vs) calls

theorem runWithin_mono (w : Workspace) {limit limit' : Nat} (larger : limit ≤ limit')
    (job : Job α) : (w.runWithin limit job).Within (w.runWithin limit' job) := by
  obtain ⟨calls, trees⟩ := w.library.within_mono larger
  exact job.run_alike .within trees calls

theorem run_alarmed (w : Workspace) (mark : HostCall) (job : Job α) :
    (w.run job).alarmed mark = w.runAlarmed mark job := by
  have calls := w.library.invoke_alarmed mark w.depth
  rw [run_eq]
  exact job.run_alike (.alarmed mark) (fun vs n => n.eval_alike (.alarmed mark) calls vs) calls

theorem runWithin_alarmed (w : Workspace) (mark : HostCall) (limit : Nat) (job : Job α) :
    (w.runWithin limit job).alarmed mark = w.runWithinAlarmed mark limit job := by
  obtain ⟨calls, trees⟩ := w.library.within_alarmed mark limit
  exact job.run_alike (.alarmed mark) trees calls

/-- A limit on nesting, whether it counts the calls alone or the nodes as well, never changes
    a result that it does not cut short: under a larger limit the value or the error is the
    same, and so are the calls of host functions. And it never goes unnoticed. With an alarm
    where the levels are used up, at whatever depth, the evaluation is the one without it if
    that ends with a value or an error; otherwise the alarm is raised once, at the very end. -/
theorem limit_only_cuts_short (w : Workspace) {limit limit' : Nat} (larger : limit ≤ limit')
    (job : Job α) :
    (((w.under limit).run job).outcome ≠ .tooDeep →
        (w.under limit').run job = (w.under limit).run job) ∧
      ((w.runWithin limit job).outcome ≠ .tooDeep →
        w.runWithin limit' job = w.runWithin limit job) ∧
      ∀ mark,
        (w.under limit).runAlarmed mark job = ((w.under limit).run job).alarmed mark ∧
          w.runWithinAlarmed mark limit job = (w.runWithin limit job).alarmed mark := by
  refine ⟨fun ended => ?_, fun ended => ?_, fun mark => ⟨?_, ?_⟩⟩
  · exact (w.run_mono larger job ended).symm
  · exact (w.runWithin_mono larger job ended).symm
  · exact ((w.under limit).run_alarmed mark job).symm
  · exact (w.runWithin_alarmed mark limit job).symm

/-- The factorial of one ends on three levels of calls, and on eight of nodes and calls. On one
    level less the alarm is raised while the factorial of zero is on its way. -/
theorem limit_only_cuts_short_factorial :
    let w := Workspace.withFactorial
    let job : Job Datum := .evaluate "fac" [.integer 1]
    let mark : HostCall := ⟨"alarm", [], true⟩
    let answer : Run Datum := ⟨[], .value (.real 1.0)⟩
    (3 ≤ 1000 ∧ 8 ≤ 1000) ∧
      ((w.under 3).run job = answer ∧ (w.under 1000).run job = answer) ∧
      (w.runWithin 8 job = answer ∧ w.runWithin 1000 job = answer) ∧
      (w.under 2).runAlarmed mark job = Run.alarm mark ∧
      w.runWithinAlarmed mark 7 job = Run.alarm mark := by
  intro w job mark answer
  have three : (3 : Nat) ≤ 1000 := by decide
  have eight : (8 : Nat) ≤ 1000 := by decide
  have byCalls : (w.under 3).run job = answer := rfl
  have byNodes : w.runWithin 8 job = answer := rfl
  have short : (w.under 2).run job = Run.tooDeep := rfl
  have short' : w.runWithin 7 job = Run.tooDeep := rfl
  refine ⟨⟨three, eight⟩, ⟨byCalls, ?_⟩, ⟨byNodes, ?_⟩, ?_, ?_⟩
  · exact ((w.limit_only_cuts_short three job).1 (by simp [byCalls, answer])).trans byCalls
  · exact ((w.limit_only_cuts_short eight job).2.1 (by simp [byNodes, answer])).trans byNodes
  · rw [((w.limit_only_cuts_short (Nat.le_refl 2) job).2.2 mark).1, short]
    exact Run.alarmed_tooDeep mark
  · rw [((w.limit_only_cuts_short (Nat.le_refl 7) job).2.2 mark).2, short']
    exact Run.alarmed_tooDeep mark

end Workspace

end Formulary
