import Formulary.Proofs.Reachability
import Formulary.Proofs.OrderedMap

/-! # The journal keeps count

The library writes one record about every registration, whether it adds a function, replaces
one or is refused, and one about every function that is taken out. Requests that define
functions come down to a few such changes; what they write besides comes from other parts of
the workspace. So the records of added functions, less those of functions taken out, are at
every moment as many as the library has functions.
-/

namespace Formulary

/-- Whether a record says that a function was added. -/
def Record.saysAdded : Record → Bool
  | .registered _ => true
  | .replaced _ | .rejected .. | .unregistered _ | .built .. | .defined _
  | .definedRecursive _ => false

/-- Whether a record says that a function was taken out. -/
def Record.saysRemoved : Record → Bool
  | .unregistered _ => true
  | .registered _ | .replaced _ | .rejected .. | .built .. | .defined _
  | .definedRecursive _ => false

namespace Library

variable {l m : Library} {f : Function} {fs : List Function}

/-- How many functions the library has. -/
def count (l : Library) : Nat :=
  l.functions.length

theorem length_place : (place f fs).length = fs.length + 1 := by
  induction fs with
  | nil => rfl
  | cons g gs ih =>
      rw [place]
      split
      · rfl
      · rw [List.length_cons, ih, List.length_cons]

theorem length_substitute : (substitute f fs).length = fs.length := by
  induction fs with
  | nil => rfl
  | cons g gs ih =>
      rw [substitute]
      split
      · rfl
      · rw [List.length_cons, ih, List.length_cons]

theorem count_of_added (added : l.register f = .added m) : m.count = l.count + 1 := by
  unfold register at added
  split at added
  · cases added
    exact length_place
  · split at added <;> cases added

theorem count_of_replaced (replaced : l.register f = .replaced m) : m.count = l.count := by
  unfold register at replaced
  split at replaced
  · cases replaced
  · split at replaced
    · cases replaced
    · cases replaced
      exact length_substitute

theorem count_of_unregistered (removed : l.unregister? f = some m) : l.count = m.count + 1 := by
  have step : Step (.unregister f) l.functions m.functions := step_of_change? removed
  rw [count, count]
  generalize l.functions = fs, m.functions = gs at step
  cases step with
  | removed => simp only [List.length_append, List.length_cons, Nat.add_assoc]

end Library

namespace Workspace

/-- What the library of a workspace has written. -/
def libraryRecords (w : Workspace) : List Record :=
  w.journal.filter (·.scribe = .library)

/-- Whether there are as many functions as the journal says: those that were added, less
    those that were taken out. -/
def Balanced (w : Workspace) : Prop :=
  w.journal.countP Record.saysAdded = w.journal.countP Record.saysRemoved + w.library.count

/-- Carry out a change of the library. -/
def make (w : Workspace) : Change → Workspace
  | .register f => (w.register f).1
  | .unregister f => (w.unregister f).1

/-- Carry out changes of the library one after the other. -/
def makeAll (w : Workspace) (changes : List Change) : Workspace :=
  changes.foldl make w

section

variable {w : Workspace} {f : Function} {l : Library}

theorem register_of_added (offered : w.library.register f = .added l) :
    w.register f = ({ w with library := l }.log (.registered f.signature), .ok ()) := by
  rw [register, offered]

theorem register_of_replaced (offered : w.library.register f = .replaced l) :
    w.register f = ({ w with library := l }.log (.replaced f.signature), .ok ()) := by
  rw [register, offered]

theorem register_of_refused {existing : Function}
    (offered : w.library.register f = .refused existing) :
    w.register f = (w.log (.rejected f.signature existing.signature),
      .error (.duplicate f.signature existing.signature)) := by
  rw [register, offered]

theorem unregister_of_some (removed : w.library.unregister? f = some l) :
    w.unregister f = ({ w with library := l }.log (.unregistered f.signature), true) := by
  rw [unregister, removed]

theorem unregister_of_none (kept : w.library.unregister? f = none) :
    w.unregister f = (w, false) := by
  rw [unregister, kept]

end

theorem register_recorded (w : Workspace) (f : Function) :
    ∃ r, (w.register f).1.journal = w.journal ++ [r] ∧ r.scribe = .library ∧
      ((∃ existing, r = .rejected f.signature existing) ↔ ∃ e, (w.register f).2 = .error e) ∧
      (r = .replaced f.signature ↔
        (w.register f).2 = .ok () ∧ (w.register f).1.library.count = w.library.count) ∧
      (r = .registered f.signature ↔ (w.register f).1.library.count = w.library.count + 1) := by
  cases offered : w.library.register f with
  | added l =>
      rw [register_of_added offered]
      refine ⟨.registered f.signature, rfl, rfl, ?_⟩
      have grown := Library.count_of_added offered
      simp [log, grown]
  | replaced l =>
      rw [register_of_replaced offered]
      refine ⟨.replaced f.signature, rfl, rfl, ?_⟩
      have same := Library.count_of_replaced offered
      simp [log, same]
  | refused existing =>
      rw [register_of_refused offered]
      refine ⟨.rejected f.signature existing.signature, rfl, rfl, ?_⟩
      simp [log]

theorem unregister_recorded (w : Workspace) (f : Function) :
    (w.unregister f).1.journal =
      w.journal ++ if (w.unregister f).2 then [.unregistered f.signature] else [] := by
  cases removed : w.library.unregister? f with
  | some l =>
      rw [unregister_of_some removed]
      rfl
  | none =>
      rw [unregister_of_none removed]
      exact (List.append_nil _).symm

/-- A record keeps the balance if it tells how the number of functions changed. -/
theorem Balanced.write {w : Workspace} (balanced : w.Balanced) {l : Library} {r : Record}
    (told : l.count + r.saysRemoved.toNat = w.library.count + r.saysAdded.toNat) :
    ({ w with library := l }.log r).Balanced := by
  unfold Balanced at balanced ⊢
  simp only [log, List.countP_append, List.countP_singleton]
  cases added : r.saysAdded <;> cases removed : r.saysRemoved <;>
    simp only [added, removed, Bool.toNat_true, Bool.toNat_false, if_true, Bool.false_eq_true,
      if_false] at told ⊢ <;> omega

theorem Balanced.make {w : Workspace} (balanced : w.Balanced) (c : Change) :
    (w.make c).Balanced := by
  cases c with
  | register f =>
      rw [Workspace.make]
      cases offered : w.library.register f with
      | added l =>
          rw [register_of_added offered]
          exact balanced.write (Library.count_of_added offered)
      | replaced l =>
          rw [register_of_replaced offered]
          exact balanced.write (Library.count_of_replaced offered)
      | refused existing =>
          rw [register_of_refused offered]
          exact balanced.write rfl
  | unregister f =>
      rw [Workspace.make]
      cases removed : w.library.unregister? f with
      | some l =>
          rw [unregister_of_some removed]
          exact balanced.write (Library.count_of_unregistered removed).symm
      | none =>
          rw [unregister_of_none removed]
          exact balanced

theorem empty_balanced (stem : String) : (empty stem).Balanced :=
  rfl

theorem Balanced.makeAll {w : Workspace} (balanced : w.Balanced) (changes : List Change) :
    (w.makeAll changes).Balanced := by
  induction changes generalizing w with
  | nil => exact balanced
  | cons c cs ih => exact ih (balanced.make c)

/-- Whether two workspaces have the same library, and it wrote the same in both. -/
structure SameBooks (w v : Workspace) : Prop where
  library : w.library = v.library
  records : w.libraryRecords = v.libraryRecords

namespace SameBooks

variable {w v u : Workspace}

theorem refl (w : Workspace) : w.SameBooks w :=
  ⟨rfl, rfl⟩

theorem trans (first : w.SameBooks v) (second : v.SameBooks u) : w.SameBooks u :=
  ⟨first.library.trans second.library, first.records.trans second.records⟩

theorem log (same : w.SameBooks v) (r : Record) : (w.log r).SameBooks (v.log r) where
  library := same.library
  records := by
    have records := same.records
    unfold libraryRecords at records ⊢
    simp only [Workspace.log, List.filter_append, records]

theorem log_other (w : Workspace) {r : Record} (other : r.scribe ≠ .library) :
    (w.log r).SameBooks w where
  library := rfl
  records := by simp [libraryRecords, Workspace.log, other]

theorem withLibrary (same : w.SameBooks v) (l : Library) :
    { w with library := l }.SameBooks { v with library := l } :=
  ⟨rfl, same.records⟩

theorem register (same : w.SameBooks v) (f : Function) :
    (w.register f).1.SameBooks (v.register f).1 := by
  rw [Workspace.register, Workspace.register, same.library]
  cases v.library.register f with
  | added l | replaced l => exact (same.withLibrary l).log _
  | refused existing => exact same.log _

theorem unregister (same : w.SameBooks v) (f : Function) :
    (w.unregister f).1.SameBooks (v.unregister f).1 := by
  rw [Workspace.unregister, Workspace.unregister, same.library]
  cases v.library.unregister? f with
  | some l => exact (same.withLibrary l).log _
  | none => exact same

theorem make (same : w.SameBooks v) (c : Change) : (w.make c).SameBooks (v.make c) := by
  cases c with
  | register f => exact same.register f
  | unregister f => exact same.unregister f

theorem makeAll (same : w.SameBooks v) (changes : List Change) :
    (w.makeAll changes).SameBooks (v.makeAll changes) := by
  induction changes generalizing w v with
  | nil => exact same
  | cons c cs ih => exact ih (same.make c)

theorem balanced_iff (same : w.SameBooks v) : w.Balanced ↔ v.Balanced := by
  have added (u : Workspace) :
      u.journal.countP Record.saysAdded = u.libraryRecords.countP Record.saysAdded := by
    rw [libraryRecords, List.countP_filter]
    congr
    funext r
    cases r <;> rfl
  have removed (u : Workspace) :
      u.journal.countP Record.saysRemoved = u.libraryRecords.countP Record.saysRemoved := by
    rw [libraryRecords, List.countP_filter]
    congr
    funext r
    cases r <;> rfl
  rw [Balanced, Balanced, added, added, removed, removed, same.library, same.records]

end SameBooks

/-- The change that takes back an announcement. -/
def withdrawal (announced : Function) : Option Function → Change
  | some displaced => .register displaced
  | none => .unregister announced

/-- What follows upon the announcement of a function, which the library now holds: the function
    itself is registered if the code stands for one with the stated number of parameters, and
    otherwise the announcement is taken back, unless the definition is broken off. -/
def completion (w : Workspace) (name : String) (code : Code) (arity : Int) (l : Library) :
    List Change :=
  let announced := (w.announce name arity).2
  let undo := withdrawal announced (w.library.clash? announced.signature)
  match Rule.written l w.levels code with
  | .error e => if e.kind.phase? = some .definition then [undo] else []
  | .ok rule =>
    if (rule.arity : Int) = arity then
      [.register ((w.announce name arity).1.functionOf name rule)]
    else [undo]

/-- The changes of the library by which a request is carried out, in order. -/
def changesFor (w : Workspace) : Request → List Change
  | .register f => [.register f]
  | .unregister f => [.unregister f]
  | .define name code =>
    match Rule.written w.library w.levels code with
    | .error _ => []
    | .ok rule => [.register (w.functionOf name rule)]
  | .defineRecursive name code arity =>
    let announced := (w.announce name arity).2
    match (w.library.register announced).library? with
    | none => [.register announced]
    | some l => .register announced :: w.completion name code arity l

theorem withdraw_eq_make (w : Workspace) (announced : Function) (displaced : Option Function) :
    w.withdraw announced displaced = w.make (withdrawal announced displaced) := by
  cases displaced <;> rfl

section

variable {w v : Workspace} {name : String} {code : Code} {rule : Rule}

theorem build_books (built : Rule.written w.library w.levels code = .ok rule) (name : String) :
    ∃ v, w.build name code = (v, .ok (w.functionOf name rule)) ∧ v.SameBooks w := by
  rw [build, built]
  exact ⟨_, rfl, (SameBooks.log_other _ (by simp [Record.scribe])).trans ⟨rfl, rfl⟩⟩

theorem register_books {w' : Workspace} {f : Function} {result : Except DefinitionError Unit}
    (same : v.SameBooks w) (registering : v.register f = (w', result)) :
    w'.SameBooks (w.make (.register f)) := by
  have after := same.register f
  rwa [registering] at after

theorem define_books (w : Workspace) (name : String) (code : Code) :
    (w.define name code).1.SameBooks (w.makeAll (w.changesFor (.define name code))) := by
  cases built : Rule.written w.library w.levels code with
  | error e =>
      simp only [define, build_error built, changesFor, built]
      exact .refl w
  | ok rule =>
      obtain ⟨v, building, same⟩ := build_books built name
      simp only [define, building, changesFor, built]
      cases registering : v.register (w.functionOf name rule) with
      | mk w' result =>
          have books := register_books same registering
          cases result with
          | error e => exact books
          | ok => exact (SameBooks.log_other w' (by simp [Record.scribe])).trans books

theorem defineRecursive_books (w : Workspace) (name : String) (code : Code) (arity : Int) :
    (w.defineRecursive name code arity).1.SameBooks
      (w.makeAll (w.changesFor (.defineRecursive name code arity))) := by
  have announcing : (w.announce name arity).1.SameBooks w := ⟨rfl, rfl⟩
  cases offered : (w.library.register (w.announce name arity).2).library? with
  | none =>
      obtain ⟨w₁, e, registering, _⟩ :=
        register_refused (w := (w.announce name arity).1) offered
      simp only [defineRecursive, registering, changesFor, offered]
      exact register_books announcing registering
  | some l =>
      obtain ⟨w₁, registering, after, levels, made⟩ := announce_accepted offered
      have books := register_books announcing registering
      -- Whatever completes the definition starts from these books.
      have completed (changes : List Change) {v : Workspace} (same : v.SameBooks w₁) :
          (v.makeAll changes).SameBooks
            (w.makeAll (.register (w.announce name arity).2 :: changes)) :=
        (same.trans books).makeAll changes
      have reading : Rule.written l w.levels code = Rule.written w₁.library w₁.levels code := by
        rw [after, levels]
      simp only [defineRecursive, registering, changesFor, offered, completion, reading]
      cases built : Rule.written w₁.library w₁.levels code with
      | error e =>
          simp only [build_error built, withdraw_eq_make]
          split
          · exact completed [_] (.refl w₁)
          · exact completed [] (.refl w₁)
      | ok rule =>
          obtain ⟨w₂, building, same⟩ := build_books built name
          rw [made] at building
          simp only [building, functionOf_arity]
          by_cases declared : (rule.arity : Int) = arity
          · simp only [if_pos declared]
            cases replacing :
              w₂.register ((w.announce name arity).1.functionOf name rule) with
            | mk w₃ result =>
                have final := register_books (same.trans books) replacing
                cases result with
                | error e => exact final
                | ok => exact (SameBooks.log_other w₃ (by simp [Record.scribe])).trans final
          · simp only [if_neg declared, withdraw_eq_make]
            exact completed [_] same

end

/-- Carrying out a request comes down to the changes for it: they lead to the same library,
    and the library writes the same. -/
theorem perform_books (w : Workspace) (request : Request) :
    (w.perform request).1.SameBooks (w.makeAll (w.changesFor request)) := by
  cases request with
  | register f | unregister f => exact .refl _
  | define name code => exact w.define_books name code
  | defineRecursive name code arity => exact w.defineRecursive_books name code arity

/-- Carry out requests one after the other. -/
def performAll (w : Workspace) (requests : List Request) : Workspace :=
  requests.foldl (fun w request => (w.perform request).1) w

/-- The changes by which requests are carried out. -/
def changesForAll (w : Workspace) : List Request → List Change
  | [] => []
  | request :: rest => w.changesFor request ++ (w.perform request).1.changesForAll rest

theorem makeAll_append (w : Workspace) (changes changes' : List Change) :
    w.makeAll (changes ++ changes') = (w.makeAll changes).makeAll changes' :=
  List.foldl_append

theorem performAll_books (w : Workspace) (requests : List Request) :
    (w.performAll requests).SameBooks (w.makeAll (w.changesForAll requests)) := by
  induction requests generalizing w with
  | nil => exact .refl w
  | cons request rest ih =>
      rw [changesForAll, makeAll_append]
      exact (ih _).trans ((w.perform_books request).makeAll _)

theorem makeAll_register_new {w : Workspace} {fs : List Function} (holds : w.library = ⟨fs⟩)
    (gs : List Function) (new : ((fs ++ gs).map Function.name).Nodup) :
    w.makeAll (gs.map .register) = { w with
      library := ⟨fs ++ gs⟩
      journal := w.journal ++ gs.map fun g => .registered g.signature } := by
  induction gs generalizing w fs with
  | nil =>
      simp only [List.append_nil, List.map_nil, ← holds]
      rfl
  | cons g gs ih =>
      have added : w.library.register g = .added ⟨fs ++ [g]⟩ := by
        rw [holds, Library.register_new new]
      rw [List.append_cons] at new ⊢
      have made : (w.make (.register g)).library = ⟨fs ++ [g]⟩ := by
        rw [make, register_of_added added]
        rfl
      have rest := ih made new
      rw [make, register_of_added added] at rest
      rw [List.map_cons, makeAll, List.foldl_cons, make, register_of_added added]
      refine Eq.trans rest ?_
      simp [log]

theorem initial_books (includePredefined : Bool) (stem : String) :
    (initial includePredefined stem).SameBooks
      ((empty stem).makeAll (Library.opening includePredefined)) := by
  cases includePredefined with
  | false => exact .refl _
  | true =>
      have nothing : (empty stem).library = ⟨[]⟩ := rfl
      have registered := makeAll_register_new nothing Primitive.functions (by decide)
      rw [Library.opening, if_pos rfl, registered]
      exact ⟨rfl, rfl⟩

/-- The journal keeps count of the functions of the library. A registration leaves one record:
    that it was refused, that it replaced a function, in which case their number is the same,
    or that it added one. A removal leaves one record if it is granted, and none otherwise.
    Whatever is requested of a workspace comes down to such changes, beginning with those
    that set its library up, and at every moment along the way, as well as in the end, the
    library has as many functions as were added, less those that were taken out. -/
theorem journal_counts (includePredefined : Bool) (stem : String) (requests : List Request) :
    (∀ (w : Workspace) (f : Function), ∃ r,
      (w.register f).1.journal = w.journal ++ [r] ∧ r.scribe = .library ∧
      ((∃ existing, r = .rejected f.signature existing) ↔ ∃ e, (w.register f).2 = .error e) ∧
      (r = .replaced f.signature ↔
        (w.register f).2 = .ok () ∧ (w.register f).1.library.count = w.library.count) ∧
      (r = .registered f.signature ↔ (w.register f).1.library.count = w.library.count + 1)) ∧
    (∀ (w : Workspace) (f : Function), (w.unregister f).1.journal =
      w.journal ++ if (w.unregister f).2 then [.unregistered f.signature] else []) ∧
    let start := initial includePredefined stem
    let changes := Library.opening includePredefined ++ start.changesForAll requests
    (start.performAll requests).SameBooks ((empty stem).makeAll changes) ∧
      (∀ passed, passed <+: changes → ((empty stem).makeAll passed).Balanced) ∧
      (start.performAll requests).Balanced := by
  have balanced (changes : List Change) : ((empty stem).makeAll changes).Balanced :=
    (empty_balanced stem).makeAll changes
  have books := (performAll_books (initial includePredefined stem) requests).trans
    ((initial_books includePredefined stem).makeAll _)
  rw [← makeAll_append] at books
  refine ⟨register_recorded, unregister_recorded, books, fun passed _ => balanced passed, ?_⟩
  exact books.balanced_iff.mpr (balanced _)

end Workspace

end Formulary
