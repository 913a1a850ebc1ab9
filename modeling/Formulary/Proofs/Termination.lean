import Formulary.Proofs.Limits
import Formulary.Proofs.Locality
import Formulary.Proofs.OrderedMap
import Formulary.Proofs.Sessions

/-! # Definitions without recursion

A host that only defines functions under new names builds up a library in layers: the code
of each function can call no other functions than were there before it, and no later
definition gets between it and them. A call then uses up, level by level, the nodes of
ever earlier functions, and nests no deeper than the whole library is large. This holds
whatever the arguments are, since a list makes an evaluation longer and not deeper.
-/

namespace Formulary

namespace Node

mutual

/-- The number of nodes in a tree. -/
def size : Node → Nat
  | .const _ => 1
  | .param _ => 1
  | .cond test yes no => test.size + yes.size + no.size + 1
  | .apply _ arguments => sizeAll arguments + 1
  | .map _ list => list.size + 1
  | .reduce _ first list => first.size + list.size + 1
  | .stray _ => 1

def sizeAll : List Node → Nat
  | [] => 0
  | n :: ns => n.size + sizeAll ns

end

theorem size_pos (n : Node) : 0 < n.size := by
  cases n <;> simp [size]

theorem size_le_sizeAll {n : Node} {ns : List Node} (member : n ∈ ns) : n.size ≤ sizeAll ns := by
  induction ns with
  | nil => cases member
  | cons m ns ih =>
      rw [sizeAll]
      rcases List.mem_cons.mp member with rfl | there
      · omega
      · have := ih there
        omega

theorem mem_namesAll {n : Node} {ns : List Node} (member : n ∈ ns) :
    ∀ name ∈ n.names, name ∈ namesAll ns := by
  induction ns with
  | nil => cases member
  | cons m ns ih =>
      intro name inside
      rw [namesAll, List.mem_append]
      rcases List.mem_cons.mp member with rfl | there
      · exact .inl inside
      · exact .inr (ih there name inside)

end Node

/-- The size of a function is that of its tree, if it has one, and one for the function
    itself. -/
def Function.size (f : Function) : Nat :=
  match f.body with
  | .tree root => root.size + 1
  | _ => 1

/-- How large some functions are together. -/
def Function.sizeAll (fs : List Function) : Nat :=
  (fs.map Function.size).sum

theorem Function.sizeAll_append (fs gs : List Function) :
    sizeAll (fs ++ gs) = sizeAll fs + sizeAll gs := by
  simp [sizeAll]

theorem Function.sizeAll_cons (f : Function) (fs : List Function) :
    sizeAll (f :: fs) = f.size + sizeAll fs := by
  simp [sizeAll]

def Library.size (l : Library) : Nat :=
  Function.sizeAll l.functions

namespace Library

/-- The names of some functions. -/
def namesOf (fs : List Function) : Set String :=
  {name | ∃ f ∈ fs, f.name = name}

/-- Each function has a name of its own, and comes only to functions before it. -/
structure Layered (l : Library) : Prop where
  distinct : (l.functions.map Function.name).Nodup
  earlier : ∀ before f behind, l.functions = before ++ f :: behind →
    f.body.NamesOnly (namesOf before)

theorem Layered.mem_of_named {l : Library} (layered : l.Layered) {before behind : List Function}
    (functions : l.functions = before ++ behind) {f : Function} (member : f ∈ l.functions)
    (named : f.name ∈ namesOf before) : f ∈ before := by
  obtain ⟨g, there, same⟩ := named
  have inside : g ∈ l.functions := by
    rw [functions]
    exact List.mem_append_left behind there
  rwa [List.inj_on_of_nodup_map layered.distinct member inside same.symm]

end Library

section

variable {l : Library} {invoke : Function → List Value → Run Value}

/-- Whether every function of certain names that is entered ends. -/
def EndsUnder (S : Set String) (l : Library) (invoke : Function → List Value → Run Value) :
    Prop :=
  ∀ f ∈ l.functions, f.name ∈ S → ∀ arguments, (invoke f arguments).Ends

theorem EndsUnder.choose {S : Set String} (calls : EndsUnder S l invoke) {name : String}
    (inside : name ∈ S) {n : Nat} {f : Function} (found : l.ofArity? name n = some f)
    (arguments : List Value) : (invoke (l.choose name arguments f) arguments).Ends := by
  have chosen : l.choose name arguments f ∈ l.overloads name :=
    Library.mem_choose (Library.mem_of_ofArity? found).1
  obtain ⟨member, named⟩ := Library.mem_overloads.mp chosen
  exact calls _ member (by rwa [named]) arguments

theorem EndsUnder.run {S : Set String} (calls : EndsUnder S l invoke) {program : HostProgram}
    (names : program.NamesOnly S) : (program.run l invoke).Ends := by
  induction program with
  | answer v => exact .pure v
  | fail e => exact .fail e
  | call name arguments next ih =>
      rw [HostProgram.run]
      cases found : l.resolve? name (arguments.map Value.type) with
      | none => exact .fail _
      | some f =>
          obtain ⟨member, named⟩ :=
            Library.mem_overloads.mp (Library.mem_of_resolve? found).1
          refine (calls f member (by rw [named]; exact names.1) arguments).bind fun v => ?_
          exact ih v (names.2 v)

theorem Node.evalTop_ends {n : Node} (calls : EndsUnder {name | name ∈ n.names} l invoke)
    {evaluate : Node → Run Value}
    (below : ∀ m, m.size < n.size → (∀ name ∈ m.names, name ∈ n.names) → (evaluate m).Ends)
    (parameters : List Value) : (n.evalTop l invoke evaluate parameters).Ends := by
  cases n with
  | const v => exact .pure v
  | param index => exact .ofExcept _
  | stray object => exact .fail _
  | cond test yes no =>
      simp only [size, names] at below
      refine (below test (by omega) (by grind)).bind fun v => ?_
      split
      · exact below yes (by omega) (by simp +contextual)
      · exact below no (by omega) (by simp +contextual)
      · exact .fail _
  | apply name arguments =>
      simp only [size, names] at below
      refine .ofExcept_bind fun f called => ?_
      have found := Library.callee_eq_ok_iff.mp called
      refine (Run.Ends.mapM fun m member => ?_).bind fun vs => ?_
      · have smaller := size_le_sizeAll member
        refine below m (by omega) fun name inside => ?_
        exact List.mem_cons_of_mem _ (mem_namesAll member name inside)
      · exact calls.choose List.mem_cons_self found vs
  | map name list =>
      simp only [size, names] at below
      refine .ofExcept_bind fun f called => ?_
      have found := Library.operand_eq_ok_iff.mp called
      refine (below list (by omega) (by simp +contextual)).bind fun v => ?_
      refine (Run.Ends.ofExcept _).bind fun xs => ?_
      refine (Run.Ends.mapM fun x _ => ?_).bind fun ys => .pure _
      exact calls.choose List.mem_cons_self found [x]
  | reduce name first list =>
      simp only [size, names] at below
      refine .ofExcept_bind fun f called => ?_
      have found := Library.operand_eq_ok_iff.mp called
      refine (below first (by omega) (by simp +contextual)).bind fun a => ?_
      refine (below list (by omega) (by simp +contextual)).bind fun v => ?_
      refine (Run.Ends.ofExcept _).bind fun xs => ?_
      refine Run.Ends.foldlM (fun b x => ?_) a
      exact calls.choose List.mem_cons_self found [b, x]

end

namespace Library

variable {l : Library}

/-- With a limit as large as the functions up to some place, each of them ends, and so does
    a tree that comes only to them when it has room for its own nodes besides. -/
theorem Layered.ends (layered : l.Layered) (limit : Nat) :
    (∀ before f behind, l.functions = before ++ f :: behind →
        Function.sizeAll before + f.size ≤ limit →
          ∀ arguments, (l.invokeWithin limit f arguments).Ends) ∧
      ∀ before behind n, l.functions = before ++ behind →
        (∀ name ∈ n.names, name ∈ namesOf before) →
          Function.sizeAll before + n.size ≤ limit →
            ∀ parameters, (Node.evalWithin l limit parameters n).Ends := by
  induction limit with
  | zero =>
      constructor
      · intro before f behind _ enough
        unfold Function.size at enough
        split at enough <;> omega
      · intro before behind n _ _ enough
        have := n.size_pos
        omega
  | succ limit ih =>
      obtain ⟨functions, trees⟩ := ih
      -- An earlier function ends as soon as there is room for those up to itself.
      have calls : ∀ before behind, l.functions = before ++ behind →
          Function.sizeAll before ≤ limit →
            EndsUnder (namesOf before) l (l.invokeWithin limit) := by
        intro before behind all enough g member named arguments
        obtain ⟨front, rest, rfl⟩ := List.append_of_mem (layered.mem_of_named all member named)
        rw [Function.sizeAll_append, Function.sizeAll_cons] at enough
        exact functions front g (rest ++ behind) (by simp [all]) (by omega) arguments
      constructor
      · intro before f behind all enough arguments
        have names := layered.earlier before f behind all
        rw [invokeWithin, Function.enterBody]
        unfold Function.size at enough
        split
        · exact .fail _
        · cases kind : f.body with
          | primitive p => exact .ofExcept _
          | announced => exact .fail _
          | tree root =>
              rw [kind] at names enough
              have room : Function.sizeAll before + root.size ≤ limit := by
                dsimp only at enough
                omega
              exact trees before (f :: behind) root all names room arguments
          | host traced program =>
              rw [kind] at names enough
              have room : Function.sizeAll before ≤ limit := by simpa using enough
              refine Run.Ends.bind (.pure _) fun _ => ?_
              exact (calls before (f :: behind) all room).run (names arguments)
      · intro before behind n all names enough parameters
        have positive := n.size_pos
        rw [Node.evalWithin]
        refine Node.evalTop_ends ?_ ?_ parameters
        · intro g member named
          exact calls before behind all (by omega) g member (names _ named)
        · intro m smaller inside
          exact trees before behind m all (fun name there => names name (inside name there))
            (by omega) parameters

/-- A function of a new name that comes to functions of the library only is a layer upon
    it. -/
theorem Layered.snoc (layered : l.Layered) {f : Function}
    (new : ∀ g ∈ l.functions, g.name ≠ f.name)
    (names : f.body.NamesOnly (namesOf l.functions)) : Layered ⟨l.functions ++ [f]⟩ where
  distinct := by
    rw [List.map_append, List.map_singleton, List.nodup_append]
    refine ⟨layered.distinct, List.nodup_singleton _, ?_⟩
    intro name member name' same
    obtain ⟨g, there, rfl⟩ := List.mem_map.mp member
    rw [List.mem_singleton.mp same]
    exact new g there
  earlier := by
    intro before g behind all
    dsimp only at all
    rcases List.eq_nil_or_concat behind with rfl | ⟨rest, h, rfl⟩
    · obtain ⟨rfl, last⟩ := List.append_inj' all rfl
      cases last
      exact names
    · have apart : l.functions ++ [f] = (before ++ g :: rest) ++ [h] := by simpa using all
      exact layered.earlier before g rest (List.append_inj' apart rfl).1

theorem predefined_layered : Library.predefined.Layered where
  distinct := by decide
  earlier := by
    intro before f behind all
    have member : f ∈ Primitive.functions := by
      change Primitive.functions = _ at all
      rw [all]
      simp
    obtain ⟨_, _, rfl⟩ := List.mem_map.mp member
    trivial

/-- The libraries that come of the predefined functions by successful definitions, each
    under a name that is new to the library. All else that a workspace may have been through
    in between is left open. -/
inductive Grown : Library → Prop
  | start : Grown .predefined
  | define {w : Workspace} {name : String} {code : Code} {f : Function} :
      Grown w.library → w.library.contains name = false → (w.define name code).2 = .ok f →
        Grown (w.define name code).1.library

theorem Grown.layered (grown : l.Grown) : l.Layered := by
  induction grown with
  | start => exact predefined_layered
  | @define w name code f _ unused made ih =>
      have new : ∀ g ∈ w.library.functions, g.name ≠ name := by
        simpa [contains] using unused
      rcases w.define_cases name code with
        ⟨rule, m, w', built, accepted, result, after⟩ | ⟨w', e, result, _⟩
      · have named : (w.functionOf name rule).name = name := rfl
        have fits := (Rule.ofCode_eq_ok_iff.mp (Rule.written_eq_ok_iff.mp built).1).2.1
        rw [result, after]
        -- Under a new name there is nothing to replace, so the function comes last.
        rcases register_eq_some_iff.mp accepted with ⟨_, rfl⟩ | ⟨d, found, _, _⟩
        · rw [place_eq_append new]
          refine ih.snoc new fun called inside => ?_
          obtain ⟨c, fit, rfl⟩ := fits.exists_call called inside
          obtain ⟨g, member, _⟩ := Call.Fits.answered fit
          exact ⟨g, mem_overloads.mp member⟩
        · obtain ⟨member, clash⟩ := clash?_spec found
          exact (new d member clash.1).elim
      · rw [result] at made
        cases made

theorem Grown.closed (grown : l.Grown) : l.Closed [] := by
  induction grown with
  | start => exact predefined_closed
  | @define w name code f _ _ _ ih =>
      have before : AllClosed [] w.library [] := ⟨ih, fun _ member => nomatch member⟩
      exact (before.afterDefine name code).library

end Library

end Formulary
