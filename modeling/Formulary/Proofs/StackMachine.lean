import Formulary.Evaluation.Machine
import Formulary.Proofs.RoundTrip
import Formulary.Proofs.Runs

/-! # The stack machine and the evaluation of trees

Carrying out the code of a tree leaves the tree's value on top of whatever stack
there was. Only conditions tell the two apart: the machine carries out both
branches, so it makes calls and meets errors that an evaluation never comes to.
What it does arrive at is the value that the evaluation gives.
-/

namespace Formulary

/-- A run follows another one when it ends with any value that the other ends with,
    and has then made no calls but the other's, in their order. Where nothing may be
    left out, the two are the same. -/
structure Run.Follows {α : Type} (exact : Prop) (r s : Run α) : Prop where
  same : exact → r = s
  value : ∀ a, s.outcome = .value a → r.outcome = .value a ∧ r.calls.Sublist s.calls

namespace Run.Follows

variable {α β : Type} {exact : Prop} {r s t : Run α}

theorem refl (r : Run α) : Follows exact r r :=
  ⟨fun _ => rfl, fun _ ended => ⟨ended, List.Sublist.refl _⟩⟩

theorem trans (first : Follows exact r s) (second : Follows exact s t) : Follows exact r t where
  same holds := (first.same holds).trans (second.same holds)
  value := by
    intro a ended
    have ⟨between, fewer⟩ := second.value a ended
    have ⟨start, fewest⟩ := first.value a between
    exact ⟨start, fewest.trans fewer⟩

theorem bind {f g : α → Run β} (first : Follows exact r s) (rest : ∀ a, Follows exact (f a) (g a)) :
    Follows exact (r >>= f) (s >>= g) where
  same holds := by rw [first.same holds, funext fun a => (rest a).same holds]
  value := by
    intro b ended
    obtain ⟨a, here, there⟩ := outcome_bind_eq_value.mp ended
    have ⟨start, fewer⟩ := first.value a here
    have ⟨finish, fewest⟩ := (rest a).value b there
    refine ⟨outcome_bind_eq_value.mpr ⟨a, start, finish⟩, ?_⟩
    rw [calls_bind start, calls_bind here]
    exact fewer.append fewest

theorem skip (inexact : ¬exact) (s : Run α) (r : Run β) : Follows exact r (s >>= fun _ => r) where
  same holds := (inexact holds).elim
  value := by
    intro b ended
    obtain ⟨a, here, there⟩ := outcome_bind_eq_value.mp ended
    refine ⟨there, ?_⟩
    rw [calls_bind here]
    exact List.sublist_append_right _ _

theorem ofNoValue (inexact : ¬exact) (never : ∀ a, s.outcome ≠ .value a) : Follows exact r s where
  same holds := (inexact holds).elim
  value a ended := (never a ended).elim

end Run.Follows

namespace Code

variable {l : Library} {invoke : Function → List Value → Run Value} {parameters : List Value}

theorem run_exec_nil (stack : List Value) :
    (exec l invoke parameters [] stack).run = pure (some stack) :=
  rfl

theorem run_exec_const (v : Value) (rest : Code) (stack : List Value) :
    (exec l invoke parameters (.const v :: rest) stack).run =
      (exec l invoke parameters rest (v :: stack)).run := by
  simp [exec, Instr.exec]

theorem run_exec_param (index : Int) (rest : Code) (stack : List Value) :
    (exec l invoke parameters (.param index :: rest) stack).run =
      Run.ofExcept (parameterAt parameters index) >>= fun v =>
        (exec l invoke parameters rest (v :: stack)).run := by
  simp [exec, Instr.exec, MachineRun.ofExcept, MachineRun.ofRun]

/-- Which of two values a condition selects. -/
def select (test yes no : Value) : Run Value :=
  match test with
  | .boolean true => pure yes
  | .boolean false => pure no
  | v => Run.fail (.conditionNotBoolean v)

theorem run_exec_cond (test yes no : Value) (rest : Code) (stack : List Value) :
    (exec l invoke parameters (.cond :: rest) (no :: yes :: test :: stack)).run =
      select test yes no >>= fun v => (exec l invoke parameters rest (v :: stack)).run := by
  cases test with
  | boolean b => cases b <;> simp [exec, Instr.exec, select]
  | integer | real | list => simp [exec, Instr.exec, select, MachineRun.ofRun]

theorem run_exec_apply {name : String} {f : Function} {vs : List Value}
    (first : l.default? name = some f) (arity : vs.length = f.arity) (rest : Code)
    (stack : List Value) :
    (exec l invoke parameters (.apply name :: rest) (vs.reverse ++ stack)).run =
      invoke (l.choose name vs f) vs >>= fun v =>
        (exec l invoke parameters rest (v :: stack)).run := by
  have length : vs.reverse.length = f.arity := by rw [List.length_reverse, arity]
  have enough : f.arity ≤ (vs.reverse ++ stack).length := by
    rw [List.length_append]
    omega
  simp only [exec, Instr.exec, first, if_pos enough, List.take_left' length,
    List.drop_left' length, List.reverse_reverse]
  simp [MachineRun.ofRun]

theorem run_exec_map {name : String} {fallback : Function}
    (found : l.ofArity? name ListOperator.map.arity = some fallback) (list : Value) (rest : Code)
    (stack : List Value) :
    (exec l invoke parameters (.map name :: rest) (list :: stack)).run =
      Run.ofExcept (elementsFor .map list) >>= fun xs =>
        (xs.mapM fun x => invoke (l.choose name [x] fallback) [x]) >>= fun ys =>
          (exec l invoke parameters rest (.list ys :: stack)).run := by
  simp [exec, Instr.exec, found, MachineRun.ofExcept, MachineRun.ofRun]

theorem run_exec_reduce {name : String} {fallback : Function}
    (found : l.ofArity? name ListOperator.reduce.arity = some fallback) (list first : Value)
    (rest : Code) (stack : List Value) :
    (exec l invoke parameters (.reduce name :: rest) (list :: first :: stack)).run =
      Run.ofExcept (elementsFor .reduce list) >>= fun xs =>
        xs.foldlM (fun a x => invoke (l.choose name [a, x] fallback) [a, x]) first >>= fun v =>
          (exec l invoke parameters rest (v :: stack)).run := by
  simp [exec, Instr.exec, found, MachineRun.ofExcept, MachineRun.ofRun]

/-- The branch that is not selected can be left out. -/
theorem follows_select {exact : Prop} (inexact : ¬exact) (test : Value) (yes no : Run Value)
    (next : Value → Run (Option (List Value))) :
    Run.Follows exact
      ((match test with
        | .boolean true => yes
        | .boolean false => no
        | v => Run.fail (.conditionNotBoolean v)) >>= next)
      (yes >>= fun y => no >>= fun n => select test y n >>= next) := by
  have refused {v : Value} (fails : ∀ y n, select v y n = Run.fail (.conditionNotBoolean v))
      (a : Option (List Value)) :
      (yes >>= fun y => no >>= fun n => select v y n >>= next).outcome ≠ .value a := by
    intro ended
    obtain ⟨y, _, here⟩ := Run.outcome_bind_eq_value.mp ended
    obtain ⟨n, _, there⟩ := Run.outcome_bind_eq_value.mp here
    rw [fails, Run.fail_bind] at there
    cases there
  cases test with
  | boolean b =>
      cases b with
      | true =>
          refine .bind (.refl yes) fun y => ?_
          simp only [select, pure_bind]
          exact .skip inexact no (next y)
      | false =>
          simp only [select, pure_bind]
          exact .skip inexact yes (no >>= next)
  | integer | real | list => exact .ofNoValue inexact (refused fun _ _ => rfl)

end Code

namespace Node

section

variable {l : Library} {invoke : Function → List Value → Run Value} {parameters : List Value}

mutual

/-- Evaluating a tree and going on with its value on the stack follows the machine
    that carries out the code of the tree and goes on. -/
theorem follows_flatten {exact : Prop} {n : Node} (fits : n.Fits l)
    (straight : exact → Instr.cond ∉ n.flatten) (rest : Code) (stack : List Value) :
    Run.Follows exact
      (n.eval l invoke parameters >>= fun v =>
        (Code.exec l invoke parameters rest (v :: stack)).run)
      (Code.exec l invoke parameters (n.flatten ++ rest) stack).run := by
  cases n with
  | const v =>
      rw [flatten, List.singleton_append, Code.run_exec_const, eval, pure_bind]
      exact .refl _
  | param index =>
      rw [flatten, List.singleton_append, Code.run_exec_param, eval]
      exact .refl _
  | cond test yes no =>
      have inexact : ¬exact := fun holds => straight holds (by simp [flatten])
      have any {P : Prop} : exact → P := fun holds => (inexact holds).elim
      simp only [flatten, List.append_assoc, List.singleton_append, eval, bind_assoc]
      refine .trans (.bind (.refl _) fun t => ?_) (follows_flatten fits.1 any _ stack)
      refine .trans ?_ (follows_flatten fits.2.1 any _ (t :: stack))
      refine .trans ?_ (.bind (.refl _) fun y => follows_flatten fits.2.2 any _ (y :: t :: stack))
      simp only [Code.run_exec_cond]
      exact Code.follows_select inexact t _ _ _
  | apply name arguments =>
      obtain ⟨⟨f, first, arity⟩, fit⟩ := fits
      have found := Library.callee_eq_ok_iff.mpr (Library.ofArity?_of_default? first)
      have before : exact → Instr.cond ∉ flattenAll arguments := fun holds member =>
        straight holds (List.mem_append_left _ member)
      simp only [flatten, List.append_assoc, List.singleton_append]
      refine .trans ?_ (follows_flattenAll fit before _ stack)
      simp only [eval, ← arity, found, Run.ofExcept_ok, pure_bind, bind_assoc]
      -- The machine pops as many values as there are arguments only if all have one.
      rw [Run.bind_congr_value fun vs ended => (Code.run_exec_apply first
        (((evalAll_length arguments).value vs ended).trans arity.symm) rest stack).symm]
      exact .refl _
  | map name list =>
      obtain ⟨f, found⟩ := Library.exists_ofArity?_iff.mpr fits.1
      have before : exact → Instr.cond ∉ list.flatten := fun holds member =>
        straight holds (List.mem_append_left _ member)
      simp only [flatten, List.append_assoc, List.singleton_append]
      refine .trans ?_ (follows_flatten fits.2 before _ stack)
      simp only [eval, Library.operand_eq_ok_iff.mpr found, Run.ofExcept_ok, pure_bind, bind_assoc,
        Code.run_exec_map found]
      exact .refl _
  | reduce name first list =>
      obtain ⟨f, found⟩ := Library.exists_ofArity?_iff.mpr fits.1
      have before : exact → Instr.cond ∉ first.flatten ++ list.flatten := fun holds member =>
        straight holds (List.mem_append_left _ member)
      have left : exact → Instr.cond ∉ first.flatten := fun holds member =>
        before holds (List.mem_append_left _ member)
      have right : exact → Instr.cond ∉ list.flatten := fun holds member =>
        before holds (List.mem_append_right _ member)
      simp only [flatten, List.append_assoc, List.singleton_append]
      refine .trans ?_ (follows_flatten fits.2.1 left _ stack)
      refine .trans ?_ (.bind (.refl _) fun a => follows_flatten fits.2.2 right _ (a :: stack))
      simp only [eval, Library.operand_eq_ok_iff.mpr found, Run.ofExcept_ok, pure_bind, bind_assoc,
        Code.run_exec_reduce found]
      exact .refl _
  | stray object => exact fits.elim
termination_by sizeOf n

theorem follows_flattenAll {exact : Prop} {ns : List Node} (fit : FormedAll (Call.Fits l) ns)
    (straight : exact → Instr.cond ∉ flattenAll ns) (rest : Code) (stack : List Value) :
    Run.Follows exact
      (evalAll l invoke parameters ns >>= fun vs =>
        (Code.exec l invoke parameters rest (vs.reverse ++ stack)).run)
      (Code.exec l invoke parameters (flattenAll ns ++ rest) stack).run := by
  cases ns with
  | nil =>
      rw [evalAll, pure_bind]
      exact .refl _
  | cons n ns =>
      have left : exact → Instr.cond ∉ n.flatten := fun holds member =>
        straight holds (List.mem_append_left _ member)
      have right : exact → Instr.cond ∉ flattenAll ns := fun holds member =>
        straight holds (List.mem_append_right _ member)
      simp only [flattenAll, List.append_assoc, evalAll, bind_assoc]
      refine .trans (.bind (.refl _) fun v => ?_) (follows_flatten fit.1 left _ stack)
      refine .trans ?_ (follows_flattenAll fit.2 right _ (v :: stack))
      simp only [pure_bind, List.reverse_cons, List.append_assoc, List.singleton_append]
      exact .refl _
termination_by sizeOf ns

end

end

end Node

/-- Carry out code on an empty stack; `none` stands for a machine that is stuck. -/
def Library.carryOut (l : Library) (depth : Nat) (code : Code) (parameters : List Value) :
    Run (Option (List Value)) :=
  (code.exec l (l.invoke depth) parameters []).run

def Library.evaluate (l : Library) (depth : Nat) (root : Node) (parameters : List Value) :
    Run Value :=
  root.eval l (l.invoke depth) parameters

/-- The tree that is built from code means what the code means to the stack machine.
    Without a condition in the code both end alike after the same calls of the host.
    With conditions, whenever the machine ends with a stack, that holds the value of
    the tree alone, and evaluating the tree makes only calls that the machine makes,
    in their order. -/
theorem Rule.evaluate_follows_carryOut {l : Library} {code : Code} {rule : Rule}
    (built : Rule.ofCode l code = .ok rule) (depth : Nat) (parameters : List Value) :
    (Instr.cond ∉ code →
        l.carryOut depth code parameters =
          (fun v => some [v]) <$> l.evaluate depth rule.root parameters) ∧
      ∀ stack, (l.carryOut depth code parameters).outcome = .value stack →
        ∃ v, stack = some [v] ∧ (l.evaluate depth rule.root parameters).outcome = .value v ∧
          (l.evaluate depth rule.root parameters).calls.Sublist
            (l.carryOut depth code parameters).calls := by
  obtain ⟨rfl, fits, _⟩ := Rule.ofCode_eq_ok_iff.mp built
  have follows := @Node.follows_flatten l (l.invoke depth) parameters
    (Instr.cond ∉ rule.root.flatten) rule.root fits id [] []
  simp only [List.append_nil, Code.run_exec_nil] at follows
  constructor
  · intro straight
    rw [map_eq_pure_bind]
    exact (follows.same straight).symm
  · intro stack ended
    have ⟨same, fewer⟩ := follows.value stack ended
    obtain ⟨v, value, shape⟩ := Run.outcome_bind_eq_value.mp same
    cases shape
    rw [Run.calls_bind value] at fewer
    exact ⟨v, rfl, value, (List.sublist_append_left _ _).trans fewer⟩

def Library.echo : Library :=
  ⟨[{ signature := ⟨"echo", [⟨"value", .real⟩], .list⟩
      body := .host true HostProgram.collect
      predefined := false
      serial := 0 }]⟩

/-- Of two calls in the branches of a condition the machine makes both and the
    evaluation one; without a condition they make the same calls. -/
theorem Rule.evaluate_follows_carryOut_echo :
    let branches : Code := [.param 0, .param 1, .apply "echo", .param 2, .apply "echo", .cond]
    let root : Node := .cond (.param 0) (.apply "echo" [.param 1]) (.apply "echo" [.param 2])
    let parameters : List Value := [.boolean true, .integer 1, .integer 2]
    Rule.ofCode .echo branches = .ok ⟨root, 3⟩ ∧
      (Library.echo.carryOut 1 branches parameters).calls =
        [⟨"echo", [.integer 1], true⟩, ⟨"echo", [.integer 2], true⟩] ∧
      (∃ v, some [Value.list [.integer 1]] = some [v] ∧
        (Library.echo.evaluate 1 root parameters).outcome = .value v ∧
        (Library.echo.evaluate 1 root parameters).calls.Sublist
          (Library.echo.carryOut 1 branches parameters).calls) ∧
      Library.echo.carryOut 1 [.param 0, .apply "echo"] parameters =
        (fun v => some [v]) <$> Library.echo.evaluate 1 (.apply "echo" [.param 0]) parameters :=
  have branching : Rule.ofCode .echo [.param 0, .param 1, .apply "echo", .param 2, .apply "echo",
      .cond] = .ok ⟨.cond (.param 0) (.apply "echo" [.param 1]) (.apply "echo" [.param 2]), 3⟩ :=
    rfl
  have straight : Rule.ofCode .echo [.param 0, .apply "echo"] =
      .ok ⟨.apply "echo" [.param 0], 1⟩ := rfl
  ⟨branching, rfl, (Rule.evaluate_follows_carryOut branching 1 _).2 _ rfl,
    (Rule.evaluate_follows_carryOut straight 1 _).1 (by simp)⟩

end Formulary
