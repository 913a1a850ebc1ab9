import Formulary.Proofs.Requests
import Formulary.Proofs.RoundTrip

/-! # Inlining arguments

A rule meets its arguments only where it refers to a parameter. Writing the arguments into
its code as constants therefore leaves a rule without parameters that does the very same:
the code still builds, because the number of operands of a call does not change, and every
evaluation of the new rule is one of the old rule on these arguments.
-/

namespace Formulary

/-- The argument that a parameter index refers to, if there is one. -/
def argument? (vs : List Value) : Int → Option Value
  | .ofNat i => vs[i]?
  | .negSucc _ => none

/-- The constant for the argument that an instruction refers to, if it refers to one. -/
def Instr.inline (vs : List Value) : Instr → Instr
  | .param index => (argument? vs index).elim (.param index) .const
  | instr => instr

/-- Code with the arguments in place of the parameters. -/
def Code.inline (vs : List Value) (code : Code) : Code :=
  code.map (Instr.inline vs)

/-- Whether there is an argument for each index. -/
def Supplies (vs : List Value) (indices : List Int) : Prop :=
  ∀ i ∈ indices, 0 ≤ i ∧ i < vs.length

namespace Supplies

variable {vs : List Value} {is js : List Int}

theorem append_iff : Supplies vs (is ++ js) ↔ Supplies vs is ∧ Supplies vs js :=
  List.forall_mem_append

theorem exists_argument {index : Int} (supplies : Supplies vs [index]) :
    ∃ v, argument? vs index = some v ∧ parameterAt vs index = .ok v := by
  have ⟨nonnegative, below⟩ := supplies index List.mem_cons_self
  cases index with
  | ofNat i =>
      have inside : i < vs.length := by simpa using below
      have found : vs[i]? = some vs[i] := List.getElem?_eq_getElem inside
      exact ⟨vs[i], found, by simp only [parameterAt, found]⟩
  | negSucc i => exact absurd nonnegative (by simp)

end Supplies

theorem GapFree.supplies {vs : List Value} {indices : List Int}
    (gapFree : GapFree indices vs.length) : Supplies vs indices :=
  fun i member => (gapFree i).mp member

namespace Node

mutual

/-- A tree with the arguments in place of the parameters. -/
def inline (vs : List Value) : Node → Node
  | .const v => .const v
  | .param index => (argument? vs index).elim (.param index) .const
  | .cond test yes no => .cond (test.inline vs) (yes.inline vs) (no.inline vs)
  | .apply name arguments => .apply name (inlineAll vs arguments)
  | .map name list => .map name (list.inline vs)
  | .reduce name first list => .reduce name (first.inline vs) (list.inline vs)
  | .stray object => .stray object

def inlineAll (vs : List Value) : List Node → List Node
  | [] => []
  | n :: ns => n.inline vs :: inlineAll vs ns

end

theorem inlineAll_eq_map (vs : List Value) (ns : List Node) :
    inlineAll vs ns = ns.map (inline vs) := by
  induction ns with
  | nil => rfl
  | cons n ns ih => simp only [inlineAll, List.map_cons, ih]

theorem inlineAll_length (vs : List Value) (ns : List Node) :
    (inlineAll vs ns).length = ns.length := by
  rw [inlineAll_eq_map, List.length_map]

variable {vs : List Value}

mutual

theorem flatten_inline (n : Node) : (n.inline vs).flatten = n.flatten.inline vs := by
  cases n with
  | const | stray => rfl
  | param index =>
      cases found : argument? vs index <;>
        simp [inline, flatten, Code.inline, Instr.inline, found]
  | cond test yes no =>
      simp only [inline, flatten, flatten_inline test, flatten_inline yes, flatten_inline no,
        Code.inline, List.map_append]
      rfl
  | apply name arguments =>
      simp only [inline, flatten, flattenAll_inlineAll arguments, Code.inline, List.map_append]
      rfl
  | map name list =>
      simp only [inline, flatten, flatten_inline list, Code.inline, List.map_append]
      rfl
  | reduce name first list =>
      simp only [inline, flatten, flatten_inline first, flatten_inline list, Code.inline,
        List.map_append]
      rfl
termination_by structural n

theorem flattenAll_inlineAll (ns : List Node) :
    flattenAll (inlineAll vs ns) = (flattenAll ns).inline vs := by
  cases ns with
  | nil => rfl
  | cons n ns =>
      simp only [inlineAll, flattenAll, flatten_inline n, flattenAll_inlineAll ns, Code.inline,
        List.map_append]
termination_by structural ns

end

mutual

theorem Formed.inline {P : Call → Prop} {n : Node} (formed : n.Formed P) :
    (n.inline vs).Formed P := by
  cases n with
  | const => trivial
  | param index =>
      cases found : argument? vs index <;>
        simp only [Node.inline, found, Option.elim_none, Option.elim_some, Formed]
  | cond test yes no => exact ⟨formed.1.inline, formed.2.1.inline, formed.2.2.inline⟩
  | apply name arguments =>
      obtain ⟨call, others⟩ := formed
      rw [← inlineAll_length vs] at call
      exact ⟨call, FormedAll.inline others⟩
  | map name list => exact ⟨formed.1, formed.2.inline⟩
  | reduce name first list => exact ⟨formed.1, formed.2.1.inline, formed.2.2.inline⟩
  | stray object => exact formed.elim
termination_by structural n

theorem FormedAll.inline {P : Call → Prop} {ns : List Node} (formed : FormedAll P ns) :
    FormedAll P (inlineAll vs ns) := by
  cases ns with
  | nil => trivial
  | cons n ns => exact ⟨formed.1.inline, FormedAll.inline formed.2⟩
termination_by structural ns

end

mutual

theorem indices_inline {n : Node} (supplies : Supplies vs n.indices) :
    (n.inline vs).indices = [] := by
  cases n with
  | const | stray => rfl
  | param index =>
      obtain ⟨v, found, _⟩ := supplies.exists_argument
      simp only [inline, found, Option.elim_some, indices]
  | cond test yes no =>
      simp only [indices, Supplies.append_iff] at supplies
      simp only [inline, indices, indices_inline supplies.1.1, indices_inline supplies.1.2,
        indices_inline supplies.2, List.append_nil]
  | apply name arguments =>
      simp only [inline, indices, indicesAll_inlineAll supplies]
  | map name list =>
      have below : Supplies vs list.indices := supplies
      simp only [inline, indices, indices_inline below]
  | reduce name first list =>
      simp only [indices, Supplies.append_iff] at supplies
      simp only [inline, indices, indices_inline supplies.1, indices_inline supplies.2,
        List.append_nil]
termination_by structural n

theorem indicesAll_inlineAll {ns : List Node} (supplies : Supplies vs (indicesAll ns)) :
    indicesAll (inlineAll vs ns) = [] := by
  cases ns with
  | nil => rfl
  | cons n ns =>
      simp only [indicesAll, Supplies.append_iff] at supplies
      simp only [inlineAll, indicesAll, indices_inline supplies.1, indicesAll_inlineAll supplies.2,
        List.append_nil]
termination_by structural ns

end

section

variable {l : Library} {invoke : Function → List Value → Run Value} {parameters : List Value}

mutual

/-- With its arguments inlined a tree evaluates as on these arguments, whatever parameters
    it is given instead. -/
theorem eval_inline {n : Node} (supplies : Supplies vs n.indices) :
    (n.inline vs).eval l invoke parameters = n.eval l invoke vs := by
  cases n with
  | const | stray => rfl
  | param index =>
      obtain ⟨v, found, evaluates⟩ := supplies.exists_argument
      simp only [inline, found, Option.elim_some, eval, evaluates, Run.ofExcept_ok]
  | cond test yes no =>
      simp only [indices, Supplies.append_iff] at supplies
      simp only [inline, eval, eval_inline supplies.1.1, eval_inline supplies.1.2,
        eval_inline supplies.2]
  | apply name arguments =>
      simp only [inline, eval, inlineAll_length, evalAll_inlineAll supplies]
  | map name list =>
      have below : Supplies vs list.indices := supplies
      simp only [inline, eval, eval_inline below]
  | reduce name first list =>
      simp only [indices, Supplies.append_iff] at supplies
      simp only [inline, eval, eval_inline supplies.1, eval_inline supplies.2]
termination_by structural n

theorem evalAll_inlineAll {ns : List Node} (supplies : Supplies vs (indicesAll ns)) :
    evalAll l invoke parameters (inlineAll vs ns) = evalAll l invoke vs ns := by
  cases ns with
  | nil => rfl
  | cons n ns =>
      simp only [indicesAll, Supplies.append_iff] at supplies
      simp only [inlineAll, evalAll, eval_inline supplies.1, evalAll_inlineAll supplies.2]
termination_by structural ns

end

end

end Node

theorem Library.invoke_tree {l : Library} {f : Function} {root : Node} {vs : List Value}
    (tree : f.body = .tree root) (count : vs.length = f.arity) (depth : Nat) :
    l.invoke (depth + 1) f vs = root.eval l (l.invoke depth) vs := by
  rw [invoke, if_neg (by simpa using count), tree]

end Formulary
