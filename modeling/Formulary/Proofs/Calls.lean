import Formulary.Code.Flattening
import Formulary.Code.Parameters
import Formulary.Library.Resolution

/-! # What a tree refers to

A tree depends on its surroundings in two ways only: through the calls that it
makes by name, and through the parameters that it refers to by index. All else in
it are its constants.
-/

namespace Formulary

/-- A call in a tree: with so many arguments, or element by element. -/
inductive Call where
  | apply (name : String) (given : Nat)
  | overList (operator : ListOperator) (name : String)

namespace Call

def name : Call → String
  | .apply name _ => name
  | .overList _ name => name

/-- How many arguments the callee gets. -/
def given : Call → Nat
  | .apply _ given => given
  | .overList operator _ => operator.arity

/-- Whether some function of the name takes so many arguments. -/
def Answered (l : Library) (c : Call) : Prop :=
  ∃ f ∈ l.overloads c.name, f.arity = c.given

/-- Whether code for the call can be built. The operands of an ordinary call are
    counted by the default overload, whichever overloads there are besides it. -/
def Fits (l : Library) : Call → Prop
  | .apply name given => ∃ f, l.default? name = some f ∧ f.arity = given
  | .overList operator name => ∃ f ∈ l.overloads name, f.arity = operator.arity

theorem Fits.answered {l : Library} {c : Call} (fits : c.Fits l) : c.Answered l := by
  cases c with
  | apply name given =>
      obtain ⟨f, first, arity⟩ := fits
      exact ⟨f, List.mem_of_head? first, arity⟩
  | overList operator name => exact fits

end Call

namespace Node

mutual

/-- Whether a tree consists of nodes throughout and each of its calls has a
    property. -/
def Formed (P : Call → Prop) : Node → Prop
  | .const _ => True
  | .param _ => True
  | .cond test yes no => test.Formed P ∧ yes.Formed P ∧ no.Formed P
  | .apply name arguments => P (.apply name arguments.length) ∧ FormedAll P arguments
  | .map name list => P (.overList .map name) ∧ list.Formed P
  | .reduce name first list => P (.overList .reduce name) ∧ first.Formed P ∧ list.Formed P
  | .stray _ => False

def FormedAll (P : Call → Prop) : List Node → Prop
  | [] => True
  | n :: ns => n.Formed P ∧ FormedAll P ns

end

mutual

/-- The parameter indices that a tree refers to, from left to right. -/
def indices : Node → List Int
  | .const _ => []
  | .param index => [index]
  | .cond test yes no => test.indices ++ yes.indices ++ no.indices
  | .apply _ arguments => indicesAll arguments
  | .map _ list => list.indices
  | .reduce _ first list => first.indices ++ list.indices
  | .stray _ => []

def indicesAll : List Node → List Int
  | [] => []
  | n :: ns => n.indices ++ indicesAll ns

end

mutual

/-- The function names that a tree mentions, from left to right. -/
def names : Node → List String
  | .const _ => []
  | .param _ => []
  | .cond test yes no => test.names ++ yes.names ++ no.names
  | .apply name arguments => name :: namesAll arguments
  | .map name list => name :: list.names
  | .reduce name first list => name :: (first.names ++ list.names)
  | .stray _ => []

def namesAll : List Node → List String
  | [] => []
  | n :: ns => n.names ++ namesAll ns

end

mutual

/-- The constants of a tree, from left to right. -/
def constants : Node → List Value
  | .const v => [v]
  | .param _ => []
  | .cond test yes no => test.constants ++ yes.constants ++ no.constants
  | .apply _ arguments => constantsAll arguments
  | .map _ list => list.constants
  | .reduce _ first list => first.constants ++ list.constants
  | .stray _ => []

def constantsAll : List Node → List Value
  | [] => []
  | n :: ns => n.constants ++ constantsAll ns

end

/-- Whether a library has the functions that the calls of a tree need. -/
def Fits (l : Library) (n : Node) : Prop :=
  n.Formed (Call.Fits l)

theorem formedAll_iff {P : Call → Prop} {ns : List Node} :
    FormedAll P ns ↔ ∀ n ∈ ns, n.Formed P := by
  induction ns with
  | nil => simp [FormedAll]
  | cons n ns ih => rw [FormedAll, ih, List.forall_mem_cons]

mutual

theorem Formed.imp {P Q : Call → Prop} (weaken : ∀ c, P c → Q c) {n : Node}
    (formed : n.Formed P) : n.Formed Q := by
  cases n with
  | const | param => trivial
  | cond test yes no =>
      exact ⟨formed.1.imp weaken, formed.2.1.imp weaken, formed.2.2.imp weaken⟩
  | apply name arguments => exact ⟨weaken _ formed.1, FormedAll.imp weaken formed.2⟩
  | map name list => exact ⟨weaken _ formed.1, formed.2.imp weaken⟩
  | reduce name first list =>
      exact ⟨weaken _ formed.1, formed.2.1.imp weaken, formed.2.2.imp weaken⟩
  | stray object => exact formed.elim
termination_by sizeOf n

theorem FormedAll.imp {P Q : Call → Prop} (weaken : ∀ c, P c → Q c) {ns : List Node}
    (formed : FormedAll P ns) : FormedAll Q ns := by
  cases ns with
  | nil => trivial
  | cons n ns => exact ⟨formed.1.imp weaken, FormedAll.imp weaken formed.2⟩
termination_by sizeOf ns

end

mutual

theorem Formed.exists_call {P : Call → Prop} {n : Node} (formed : n.Formed P) :
    ∀ name ∈ n.names, ∃ c, P c ∧ c.name = name := by
  cases n with
  | const | param | stray => simp [names]
  | cond test yes no =>
      simp only [names, List.forall_mem_append]
      exact ⟨⟨formed.1.exists_call, formed.2.1.exists_call⟩, formed.2.2.exists_call⟩
  | apply name arguments =>
      simp only [names, List.forall_mem_cons]
      exact ⟨⟨_, formed.1, rfl⟩, FormedAll.exists_call formed.2⟩
  | map name list =>
      simp only [names, List.forall_mem_cons]
      exact ⟨⟨_, formed.1, rfl⟩, formed.2.exists_call⟩
  | reduce name first list =>
      simp only [names, List.forall_mem_cons, List.forall_mem_append]
      exact ⟨⟨_, formed.1, rfl⟩, formed.2.1.exists_call, formed.2.2.exists_call⟩
termination_by sizeOf n

theorem FormedAll.exists_call {P : Call → Prop} {ns : List Node} (formed : FormedAll P ns) :
    ∀ name ∈ namesAll ns, ∃ c, P c ∧ c.name = name := by
  cases ns with
  | nil => simp [namesAll]
  | cons n ns =>
      simp only [namesAll, List.forall_mem_append]
      exact ⟨formed.1.exists_call, FormedAll.exists_call formed.2⟩
termination_by sizeOf ns

end

mutual

theorem filterMap_flatten (n : Node) : n.flatten.filterMap Instr.index? = n.indices := by
  cases n with
  | const | param | stray => rfl
  | cond test yes no =>
      simp only [flatten, indices, List.filterMap_append, filterMap_flatten test,
        filterMap_flatten yes, filterMap_flatten no]
      exact List.append_nil _
  | apply name arguments =>
      simp only [flatten, indices, List.filterMap_append, filterMap_flattenAll arguments]
      exact List.append_nil _
  | map name list =>
      simp only [flatten, indices, List.filterMap_append, filterMap_flatten list]
      exact List.append_nil _
  | reduce name first list =>
      simp only [flatten, indices, List.filterMap_append, filterMap_flatten first,
        filterMap_flatten list]
      exact List.append_nil _
termination_by sizeOf n

theorem filterMap_flattenAll (ns : List Node) :
    (flattenAll ns).filterMap Instr.index? = indicesAll ns := by
  cases ns with
  | nil => rfl
  | cons n ns =>
      simp only [flattenAll, indicesAll, List.filterMap_append, filterMap_flatten n,
        filterMap_flattenAll ns]
termination_by sizeOf ns

end

theorem flattenAll_append (ms ns : List Node) :
    flattenAll (ms ++ ns) = flattenAll ms ++ flattenAll ns := by
  induction ms with
  | nil => rfl
  | cons m ms ih => rw [List.cons_append, flattenAll, flattenAll, ih, List.append_assoc]

end Node

end Formulary
