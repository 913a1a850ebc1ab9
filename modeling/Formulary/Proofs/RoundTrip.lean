import Formulary.Code.Building
import Formulary.Proofs.Calls
import Formulary.Proofs.Parameters
import Formulary.Proofs.Resolution

/-! # Code and trees are two forms of one rule

Building reads code from left to right over a stack of trees, flattening writes
the code of a tree in the same order. While code is read, the trees on the stack
are at any moment those of the code read so far; while the code of a tree is
read, the tree as a whole gets pushed on top of whatever stack there was.

Hence building takes exactly the code of well-formed trees, and gives each tree
back.
-/

namespace Formulary

open Node

/-- The trees on a stack are those of the code: bottom to top they flatten to it,
    and the library has the functions that they call. -/
structure Represents (l : Library) (stack : List Node) (code : Code) : Prop where
  flattenAll : flattenAll stack.reverse = code
  fits : ∀ n ∈ stack, n.Fits l

namespace Represents

variable {l : Library} {stack rest : List Node} {code : Code}

theorem empty : Represents l [] [] :=
  ⟨rfl, fun _ member => nomatch member⟩

/-- Putting a tree in the place of its operands, which are on top of the stack,
    adds its own instruction to the code. -/
theorem push (operands : List Node) {instr : Instr} {n : Node}
    (represents : Represents l (operands ++ rest) code)
    (flat : n.flatten = Node.flattenAll operands.reverse ++ [instr])
    (fits : (∀ m ∈ operands, m.Fits l) → n.Fits l) :
    Represents l (n :: rest) (code ++ [instr]) where
  flattenAll := by
    rw [← represents.flattenAll, List.reverse_append, List.reverse_cons, flattenAll_append,
      flattenAll_append, Node.flattenAll, Node.flattenAll, flat, List.append_nil,
      List.append_assoc]
  fits := by
    intro m member
    rcases List.mem_cons.mp member with rfl | below
    · exact fits fun m operand => represents.fits m (List.mem_append_left rest operand)
    · exact represents.fits m (List.mem_append_right operands below)

end Represents

theorem Instr.represents_build {l : Library} {position : Nat} {instr : Instr}
    {stack after : List Node} {code : Code} (represents : Represents l stack code)
    (built : instr.build l position stack = .ok after) : Represents l after (code ++ [instr]) := by
  cases instr with
  | const v =>
      cases built
      exact represents.push [] rfl fun _ => trivial
  | param index =>
      cases built
      exact represents.push [] rfl fun _ => trivial
  | cond =>
      simp only [Instr.build] at built
      split at built
      · rename_i no yes test rest
        cases built
        refine represents.push [no, yes, test] ?_ ?_
        · simp [flatten, Node.flattenAll]
        · intro fit
          exact ⟨fit test (by simp), fit yes (by simp), fit no (by simp)⟩
      · cases built
  | apply name =>
      simp only [Instr.build] at built
      split at built
      · cases built
      · rename_i f first
        split at built
        · rename_i enough
          cases built
          rw [← List.take_append_drop f.arity stack] at represents
          refine represents.push _ rfl ?_
          intro fit
          refine ⟨⟨f, first, ?_⟩, formedAll_iff.mpr ?_⟩
          · rw [List.length_reverse, List.length_take, Nat.min_eq_left enough]
          · exact fun n member => fit n (List.mem_reverse.mp member)
        · cases built
  | map name =>
      simp only [Instr.build] at built
      split at built
      · cases built
      · rename_i f list rest found
        cases built
        refine represents.push [list] ?_ ?_
        · simp [flatten, Node.flattenAll]
        · exact fun fit => ⟨⟨f, Library.mem_of_ofArity? found⟩, fit list (by simp)⟩
      · cases built
  | reduce name =>
      simp only [Instr.build] at built
      split at built
      · cases built
      · rename_i f list first rest found
        cases built
        refine represents.push [list, first] ?_ ?_
        · simp [flatten, Node.flattenAll]
        · intro fit
          exact ⟨⟨f, Library.mem_of_ofArity? found⟩, fit first (by simp), fit list (by simp)⟩
      · cases built
  | stray object => cases built

theorem Code.represents_build {l : Library} {position : Nat} {rest done : Code}
    {stack after : List Node} (represents : Represents l stack done)
    (built : Code.build l position rest stack = .ok after) :
    Represents l after (done ++ rest) := by
  induction rest generalizing position stack done with
  | nil =>
      cases built
      rwa [List.append_nil]
  | cons instr rest ih =>
      cases step : instr.build l position stack with
      | error e =>
          rw [Code.build, step] at built
          cases built
      | ok next =>
          rw [Code.build, step] at built
          rw [List.append_cons]
          exact ih (instr.represents_build represents step) built

theorem Instr.build_apply {l : Library} {name : String} {f : Function} {arguments : List Node}
    (first : l.default? name = some f) (arity : f.arity = arguments.length) (position : Nat)
    (stack : List Node) :
    (Instr.apply name).build l position (arguments.reverse ++ stack) =
      .ok (.apply name arguments :: stack) := by
  have length : arguments.reverse.length = f.arity := by rw [arity, List.length_reverse]
  have enough : f.arity ≤ (arguments.reverse ++ stack).length := by
    rw [List.length_append]
    omega
  simp only [build, first, if_pos enough, List.take_left' length, List.drop_left' length,
    List.reverse_reverse]

mutual

/-- Reading the code of a tree pushes the tree. -/
theorem build_flatten {l : Library} {n : Node} (fits : n.Fits l) (position : Nat) (rest : Code)
    (stack : List Node) :
    Code.build l position (n.flatten ++ rest) stack =
      Code.build l (position + n.flatten.length) rest (n :: stack) := by
  cases n with
  | const | param => rfl
  | cond test yes no =>
      simp only [flatten, List.append_assoc, build_flatten fits.1, build_flatten fits.2.1,
        build_flatten fits.2.2, List.length_append, ← Nat.add_assoc]
      rfl
  | apply name arguments =>
      obtain ⟨⟨f, first, arity⟩, fit⟩ := fits
      simp only [flatten, List.append_assoc, build_flattenAll fit, List.singleton_append,
        Code.build, Instr.build_apply first arity, List.length_append, ← Nat.add_assoc]
      rfl
  | map name list =>
      obtain ⟨f, found⟩ := Library.exists_ofArity?_iff.mpr fits.1
      simp only [flatten, List.append_assoc, build_flatten fits.2, List.singleton_append,
        Code.build, Instr.build, found, List.length_append, ← Nat.add_assoc]
      rfl
  | reduce name first list =>
      obtain ⟨f, found⟩ := Library.exists_ofArity?_iff.mpr fits.1
      simp only [flatten, List.append_assoc, build_flatten fits.2.1, build_flatten fits.2.2,
        List.singleton_append, Code.build, Instr.build, found, List.length_append, ← Nat.add_assoc]
      rfl
  | stray object => exact fits.elim
termination_by sizeOf n

theorem build_flattenAll {l : Library} {ns : List Node} (fit : FormedAll (Call.Fits l) ns)
    (position : Nat) (rest : Code) (stack : List Node) :
    Code.build l position (flattenAll ns ++ rest) stack =
      Code.build l (position + (flattenAll ns).length) rest (ns.reverse ++ stack) := by
  cases ns with
  | nil => rfl
  | cons n ns =>
      simp only [flattenAll, List.append_assoc, build_flatten fit.1, build_flattenAll fit.2,
        List.length_append, List.reverse_cons, List.singleton_append, ← Nat.add_assoc]
termination_by sizeOf ns

end

theorem Code.build_eq_ok_singleton_iff {l : Library} {code : Code} {root : Node} :
    Code.build l 0 code [] = .ok [root] ↔ root.flatten = code ∧ root.Fits l := by
  constructor
  · intro built
    have represents := Code.represents_build Represents.empty built
    have flat := represents.flattenAll
    rw [List.reverse_singleton, flattenAll, flattenAll, List.append_nil, List.nil_append] at flat
    exact ⟨flat, represents.fits root List.mem_cons_self⟩
  · rintro ⟨rfl, fits⟩
    have built := build_flatten fits 0 [] []
    rw [List.append_nil] at built
    rw [built, Code.build]

/-- Code is accepted as a rule exactly when it is the code of a tree whose calls
    fit the library and whose parameter indices leave no gap. -/
theorem Rule.ofCode_eq_ok_iff {l : Library} {code : Code} {rule : Rule} :
    Rule.ofCode l code = .ok rule ↔
      rule.root.flatten = code ∧ rule.root.Fits l ∧ GapFree rule.root.indices rule.arity := by
  obtain ⟨root, arity⟩ := rule
  have indices : ∀ {flat : Code}, root.flatten = flat →
      (flat.arity = .ok arity ↔ GapFree root.indices arity) := by
    rintro _ rfl
    rw [Code.arity_eq_ok_iff, filterMap_flatten]
  constructor
  · intro accepted
    cases built : Code.build l 0 code [] with
    | error e =>
        rw [ofCode, built] at accepted
        cases accepted
    | ok stack =>
        rw [ofCode, built] at accepted
        simp only [bind, Except.bind] at accepted
        split at accepted
        · rename_i top
          cases count : code.arity with
          | error e =>
              rw [count] at accepted
              cases accepted
          | ok k =>
              rw [count] at accepted
              cases accepted
              have ⟨flat, fits⟩ := Code.build_eq_ok_singleton_iff.mp built
              exact ⟨flat, fits, (indices flat).mp count⟩
        · cases accepted
  · rintro ⟨flat, fits, gapFree⟩
    rw [ofCode, Code.build_eq_ok_singleton_iff.mpr ⟨flat, fits⟩]
    simp only [bind, Except.bind, (indices flat).mpr gapFree]
    rfl

/-- Building undoes flattening and flattening undoes building: code builds a tree
    exactly when it is the tree's own code, every ordinary call of the tree passes
    as many arguments as the default overload takes, every list operation finds an
    overload for it, and the parameter indices are the first so many naturals. -/
theorem Node.ofCode_iff_flatten {l : Library} {code : Code} {root : Node} :
    Node.ofCode l code = .ok root ↔
      root.flatten = code ∧ root.Fits l ∧ ∃ count, GapFree root.indices count := by
  constructor
  · intro accepted
    cases built : Rule.ofCode l code with
    | error e =>
        rw [ofCode, built] at accepted
        cases accepted
    | ok rule =>
        rw [ofCode, built] at accepted
        cases accepted
        have ⟨flat, fits, gapFree⟩ := Rule.ofCode_eq_ok_iff.mp built
        exact ⟨flat, fits, rule.arity, gapFree⟩
  · rintro ⟨flat, fits, count, gapFree⟩
    have built : Rule.ofCode l code = .ok ⟨root, count⟩ :=
      Rule.ofCode_eq_ok_iff.mpr ⟨flat, fits, gapFree⟩
    rw [ofCode, built]
    rfl

end Formulary
