import Formulary.Proofs.Chains
import Formulary.Proofs.Conditions
import Formulary.Proofs.TypeFailures

/-! # Sessions that only extend the library

A host that takes nothing out of the library, and puts in nothing but what was
made from code, keeps it closed: a name once registered stays, with a function for
every number of arguments that it ever took. So whatever function the host was
given during the session stays callable until its end. Only recursive definitions that
are broken off leave functions behind that cannot be called yet.
-/

namespace Formulary

/-- Every function of the first library has one in the second that answers the same
    calls. -/
def Library.ExtendsTo (l m : Library) : Prop :=
  ∀ f ∈ l.functions, ∃ g ∈ m.functions, g.signature.Clashes f.signature

variable {pending : List String}

namespace Library.ExtendsTo

variable {l m : Library}

theorem answered (larger : l.ExtendsTo m) {c : Call} (answered : c.Answered l) : c.Answered m := by
  obtain ⟨f, member, arity⟩ := answered
  have ⟨there, name⟩ := mem_overloads.mp member
  obtain ⟨g, found, clash⟩ := larger f there
  exact ⟨g, mem_overloads.mpr ⟨found, clash.1.trans name⟩, clash.arity.trans arity⟩

theorem closed (larger : l.ExtendsTo m) {f : Function} (closed : f.Closed pending l) :
    f.Closed pending m := by
  unfold Function.Closed at closed ⊢
  generalize f.body = body at closed ⊢
  cases body with
  | primitive p => exact closed
  | tree root => exact ⟨closed.answered.imp fun _ => larger.answered, closed.inRange⟩
  | announced => exact closed
  | host traced program => exact closed

end Library.ExtendsTo

namespace Library

variable {l m : Library} {f : Function}

theorem extendsTo_of_register (accepted : (l.register f).library? = some m) : l.ExtendsTo m := by
  have ⟨newcomer, _, kept⟩ := register_spec accepted
  intro g member
  rcases kept g member with there | clash
  · exact ⟨g, there, .refl _⟩
  · exact ⟨f, newcomer, clash.symm⟩

theorem closed_of_register (accepted : (l.register f).library? = some m)
    (closed : l.Closed pending) (fine : f.Closed pending m) : m.Closed pending := by
  have ⟨_, only, _⟩ := register_spec accepted
  intro g member
  rcases only g member with rfl | there
  · exact fine
  · exact (extendsTo_of_register accepted).closed (closed g there)

theorem predefined_closed : Library.predefined.Closed [] := by
  intro f member
  obtain ⟨⟨p, serial⟩, there, rfl⟩ := List.mem_map.mp member
  have guarded := Primitive.catalog_settles HostMath.standard_documented
  exact ⟨rfl, guarded p (List.fst_mem_of_mem_zipIdx there)⟩

end Library

/-- A function made from code is closed in the library that the code was built
    against. -/
theorem Workspace.functionOf_closed (pending : List String) {l : Library} {code : Code}
    {rule : Rule} {levels : Nat} (built : Rule.written l levels code = .ok rule) (w : Workspace)
    (name : String) : (w.functionOf name rule).Closed pending l := by
  have ⟨_, fits, gapFree⟩ := Rule.ofCode_eq_ok_iff.mp (Rule.written_eq_ok_iff.mp built).1
  refine ⟨fits.imp fun _ => Call.Fits.answered, ?_⟩
  intro i member
  have inside := (gapFree i).mp member
  rwa [← w.functionOf_arity name rule] at inside

/-- The function that a host is given, if any. -/
def given (result : Except DefinitionError Function) : List Function :=
  match result with
  | .ok f => [f]
  | .error _ => []

/-- The name under which a recursive definition that was broken off has left an announced
    function, if it was. -/
def brokenOff (name : String) (result : Except DefinitionError Function) : List String :=
  match result with
  | .error .tooDeep => [name]
  | _ => []

/-- The workspaces that a host can bring about from the predefined functions without
    taking any function out, each with all functions that it has been given so far and
    with the names whose recursive definition was broken off. Evaluations may happen at any
    time; they change no workspace. -/
inductive Session (stem : String) : Workspace → List Function → List String → Prop
  | start : Session stem (.predefined stem) [] []
  | build {w held pending} (name : String) (code : Code) :
      Session stem w held pending →
        Session stem (w.build name code).1 (held ++ given (w.build name code).2) pending
  | define {w held pending} (name : String) (code : Code) :
      Session stem w held pending →
        Session stem (w.define name code).1 (held ++ given (w.define name code).2) pending
  | defineRecursive {w held pending} (name : String) (code : Code) (arity : Int) :
      Session stem w held pending →
        Session stem (w.defineRecursive name code arity).1
          (held ++ given (w.defineRecursive name code arity).2)
          (pending ++ brokenOff name (w.defineRecursive name code arity).2)
  | register {w held pending f} :
      Session stem w held pending → f ∈ held → Session stem (w.register f).1 held pending

/-- Everything in a library, and everything that a host has been given, can be called, but for
    announced functions under the pending names. -/
structure AllClosed (pending : List String) (l : Library) (held : List Function) : Prop where
  library : l.Closed pending
  held : ∀ f ∈ held, f.Closed pending l

theorem Function.Closed.mono {l : Library} {f : Function} (closed : f.Closed pending l)
    (more : List String) : f.Closed (pending ++ more) l := by
  unfold Function.Closed at closed ⊢
  generalize f.body = body at closed ⊢
  cases body with
  | announced => exact List.mem_append_left more closed
  | primitive | tree | host => exact closed

namespace AllClosed

variable {l m : Library} {w : Workspace} {held : List Function} {f : Function}

theorem mono (closed : AllClosed pending l held) (more : List String) :
    AllClosed (pending ++ more) l held where
  library g member := (closed.library g member).mono more
  held g member := (closed.held g member).mono more

theorem register (closed : AllClosed pending l held) (accepted : (l.register f).library? = some m)
    (fine : f.Closed pending m) : AllClosed pending m held where
  library := Library.closed_of_register accepted closed.library fine
  held g member := (Library.extendsTo_of_register accepted).closed (closed.held g member)

theorem give (closed : AllClosed pending l held) (fine : f.Closed pending l) :
    AllClosed pending l (held ++ [f]) where
  library := closed.library
  held := by
    intro g member
    rcases List.mem_append.mp member with before | new
    · exact closed.held g before
    · rwa [List.mem_singleton.mp new]

theorem giveNothing (closed : AllClosed pending l held) : AllClosed pending l (held ++ []) := by
  rwa [List.append_nil]

theorem afterDefine (closed : AllClosed pending w.library held) (name : String) (code : Code) :
    AllClosed pending (w.define name code).1.library (held ++ given (w.define name code).2) := by
  rcases w.define_cases name code with
    ⟨rule, l, w', built, accepted, result, after⟩ | ⟨w', e, result, same⟩
  · have fine := (Library.extendsTo_of_register accepted).closed
      (Workspace.functionOf_closed pending built w name)
    rw [result, after]
    exact (closed.register accepted fine).give fine
  · rw [result, same]
    exact closed.giveNothing

end AllClosed

end Formulary
