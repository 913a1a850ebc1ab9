import Formulary.Evaluation.Nesting
import Formulary.Proofs.Runs

/-! # What a limit on nesting does

A limit on nesting only cuts evaluations short. What ends within a limit on the levels of
nodes and calls together is what the ordinary evaluation comes to, which counts the calls
alone, as soon as this is permitted as many. Under either way of counting, what ends within a
limit ends the same within a larger one.

The steps of two evaluations are compared once, for all ways of comparing runs; each statement
on whole evaluations is then an induction on the limit.
-/

namespace Formulary

variable {l : Library} {invoke invoke' : Function → List Value → Run Value}

theorem Node.evalAll_eq_mapM (parameters : List Value) (ns : List Node) :
    evalAll l invoke parameters ns = ns.mapM fun n => n.eval l invoke parameters := by
  induction ns with
  | nil => rfl
  | cons n ns ih => rw [evalAll, ih, List.mapM_cons]

theorem Node.eval_eq_evalTop (parameters : List Value) (n : Node) :
    n.eval l invoke parameters =
      n.evalTop l invoke (fun m => m.eval l invoke parameters) parameters := by
  cases n with
  | const | param | map | reduce | stray => rw [eval, evalTop]
  | cond test yes no =>
      rw [eval]
      refine bind_congr fun v => ?_
      cases v with
      | boolean b => cases b <;> rfl
      | integer | real | list => rfl
  | apply name arguments => rw [eval, evalTop, evalAll_eq_mapM]

theorem Library.invoke_eq_enterBody (depth : Nat) (f : Function) (arguments : List Value) :
    l.invoke (depth + 1) f arguments =
      f.enterBody l (l.invoke depth) (fun vs root => root.eval l (l.invoke depth) vs)
        arguments :=
  rfl

section

variable (c : Run.Comparison) (calls : ∀ f vs, c.Alike (invoke f vs) (invoke' f vs))

include calls

/-- Only smaller trees are evaluated in the step, so that it can be taken in an induction on
    the tree. -/
theorem Node.evalTop_alike {evaluate evaluate' : Node → Run Value} (parameters : List Value)
    (n : Node) (below : ∀ m, sizeOf m < sizeOf n → c.Alike (evaluate m) (evaluate' m)) :
    c.Alike (n.evalTop l invoke evaluate parameters)
      (n.evalTop l invoke' evaluate' parameters) := by
  cases n with
  | const v => exact c.ended (.pure v)
  | param index => exact c.ended (.ofExcept _)
  | stray object => exact c.ended (.fail _)
  | cond test yes no =>
      simp only [cond.sizeOf_spec] at below
      refine c.bind (below test (by omega)) fun v => ?_
      split
      · exact below yes (by omega)
      · exact below no (by omega)
      · exact c.ended (.fail _)
  | apply name arguments =>
      simp only [apply.sizeOf_spec] at below
      have each : ∀ m ∈ arguments, c.Alike (evaluate m) (evaluate' m) := by
        intro m member
        have smaller := List.sizeOf_lt_of_mem member
        exact below m (by omega)
      refine c.bind (c.ended (.ofExcept _)) fun f => ?_
      exact c.bind (c.mapM each) fun vs => calls _ vs
  | map name list =>
      simp only [map.sizeOf_spec] at below
      refine c.bind (c.ended (.ofExcept _)) fun f => c.bind (below list (by omega)) fun v => ?_
      refine c.bind (c.ended (.ofExcept _)) fun xs => ?_
      exact c.bind (c.mapM fun x _ => calls _ [x]) fun ys => c.ended (.pure _)
  | reduce name first list =>
      simp only [reduce.sizeOf_spec] at below
      refine c.bind (c.ended (.ofExcept _)) fun f => c.bind (below first (by omega)) fun a => ?_
      refine c.bind (below list (by omega)) fun v => c.bind (c.ended (.ofExcept _)) fun xs => ?_
      exact c.foldlM (fun b x => calls _ [b, x]) xs a

theorem Node.eval_alike (parameters : List Value) (n : Node) :
    c.Alike (n.eval l invoke parameters) (n.eval l invoke' parameters) := by
  rw [eval_eq_evalTop, eval_eq_evalTop]
  exact n.evalTop_alike c calls parameters fun m _ => m.eval_alike parameters
termination_by sizeOf n

theorem HostProgram.run_alike (program : HostProgram) :
    c.Alike (program.run l invoke) (program.run l invoke') := by
  induction program with
  | answer v => exact c.ended (.pure v)
  | fail e => exact c.ended (.fail e)
  | call name arguments next ih =>
      rw [run, run]
      cases l.resolve? name (arguments.map Value.type) with
      | none => exact c.ended (.fail _)
      | some f => exact c.bind (calls f arguments) ih

theorem Function.enterBody_alike {evaluate evaluate' : List Value → Node → Run Value}
    (trees : ∀ vs n, c.Alike (evaluate vs n) (evaluate' vs n)) (f : Function)
    (arguments : List Value) :
    c.Alike (f.enterBody l invoke evaluate arguments)
      (f.enterBody l invoke' evaluate' arguments) := by
  unfold enterBody
  split
  · exact c.ended (.fail _)
  · cases f.body with
    | primitive p => exact c.ended (.ofExcept _)
    | announced => exact c.ended (.fail _)
    | tree root => exact trees arguments root
    | host traced program =>
        have noted : (Run.note ⟨f.name, arguments, traced⟩).Ends := .inl ⟨(), rfl⟩
        exact c.bind (c.ended noted) fun _ => HostProgram.run_alike c calls _

theorem Library.level_alike {evaluate evaluate' : List Value → Node → Run Value}
    (trees : ∀ vs n, c.Alike (evaluate vs n) (evaluate' vs n)) :
    (∀ (f : Function) vs,
        c.Alike (f.enterBody l invoke evaluate vs) (f.enterBody l invoke' evaluate' vs)) ∧
      ∀ vs (n : Node),
        c.Alike (n.evalTop l invoke (evaluate vs) vs) (n.evalTop l invoke' (evaluate' vs) vs) :=
  ⟨fun f vs => f.enterBody_alike c calls trees vs,
    fun vs n => n.evalTop_alike c calls vs fun m _ => trees vs m⟩

end

/-- What ends within a limit on nodes and calls is what the ordinary evaluation comes to. -/
theorem Library.within_invoke {limit depth : Nat} (enough : limit ≤ depth) :
    (∀ f arguments, (l.invokeWithin limit f arguments).Within (l.invoke depth f arguments)) ∧
      ∀ parameters n,
        (Node.evalWithin l limit parameters n).Within (n.eval l (l.invoke depth) parameters) := by
  induction limit generalizing depth with
  | zero => exact ⟨fun f arguments => .tooDeep _, fun parameters n => .tooDeep _⟩
  | succ limit ih =>
      constructor
      · intro f arguments
        obtain ⟨less, rfl⟩ : ∃ less, depth = less + 1 := ⟨depth - 1, by omega⟩
        obtain ⟨calls, trees⟩ := @ih less (by omega)
        rw [invokeWithin, invoke_eq_enterBody]
        exact f.enterBody_alike .within calls trees arguments
      · intro parameters n
        -- The ordinary evaluation does not count this node and keeps all of its limit.
        obtain ⟨calls, trees⟩ := @ih depth (by omega)
        rw [Node.evalWithin, Node.eval_eq_evalTop]
        exact n.evalTop_alike .within calls parameters fun m _ => trees parameters m

theorem Library.within_mono {limit limit' : Nat} (larger : limit ≤ limit') :
    (∀ f arguments, (l.invokeWithin limit f arguments).Within (l.invokeWithin limit' f arguments)) ∧
      ∀ parameters n,
        (Node.evalWithin l limit parameters n).Within (Node.evalWithin l limit' parameters n) := by
  induction limit generalizing limit' with
  | zero => exact ⟨fun f arguments => .tooDeep _, fun parameters n => .tooDeep _⟩
  | succ limit ih =>
      obtain ⟨less, rfl⟩ : ∃ less, limit' = less + 1 := ⟨limit' - 1, by omega⟩
      obtain ⟨calls, trees⟩ := @ih less (by omega)
      exact level_alike .within calls trees

theorem Library.invoke_mono {depth depth' : Nat} (larger : depth ≤ depth') (f : Function)
    (arguments : List Value) :
    (l.invoke depth f arguments).Within (l.invoke depth' f arguments) := by
  induction depth generalizing depth' f arguments with
  | zero => exact .tooDeep _
  | succ depth ih =>
      obtain ⟨more, rfl⟩ : ∃ more, depth' = more + 1 := ⟨depth' - 1, by omega⟩
      have calls := @ih more (by omega)
      rw [invoke_eq_enterBody, invoke_eq_enterBody]
      refine f.enterBody_alike .within calls (fun vs n => ?_) arguments
      exact n.eval_alike .within calls vs

end Formulary
