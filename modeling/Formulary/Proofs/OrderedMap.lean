import Formulary.Proofs.Changes
import Formulary.Proofs.Parameters

/-! # The library as an ordered map

The changes made to an empty library say all there is to say about what it has
become. Under each key stands the function of the last registration granted,
unless that one was taken out since. Functions of a name stand in the order in which
their keys came to be there, names in the order in which they last came to have a
function.

The order in time carries the proof: since no two keys came to be there at the same
moment, it also tells that functions of one name stand together.
-/

namespace Formulary

/-- Something came about with the change at a moment: it did not hold before, and it
    has held ever since. -/
structure CameAbout (holds : List Change → Prop) (changes : List Change) (moment : Nat) :
    Prop where
  inside : moment < changes.length
  before : ¬holds (changes.take moment)
  since : ∀ n, moment < n → n ≤ changes.length → holds (changes.take n)

/-- Of two things that hold after a history, the first one came about earlier. -/
def Earlier (P Q : List Change → Prop) (changes : List Change) : Prop :=
  ∃ s t, CameAbout P changes s ∧ CameAbout Q changes t ∧ s < t

section

variable {P Q : List Change → Prop} {cs : List Change} {c : Change} {s t : Nat}

namespace CameAbout

theorem le (first : CameAbout P cs s) (second : CameAbout P cs t) : s ≤ t := by
  by_contra after
  have inside := first.inside
  exact first.before (second.since s (by omega) (by omega))

theorem unique (first : CameAbout P cs s) (second : CameAbout P cs t) : s = t :=
  Nat.le_antisymm (first.le second) (second.le first)

theorem keep (came : CameAbout P cs s) (still : P (cs ++ [c])) : CameAbout P (cs ++ [c]) s where
  inside := by
    have inside := came.inside
    rw [List.length_append]
    omega
  before := by
    rw [List.take_append_of_le_length (Nat.le_of_lt came.inside)]
    exact came.before
  since n later within := by
    rw [List.length_append, List.length_singleton] at within
    by_cases old : n ≤ cs.length
    · rw [List.take_append_of_le_length old]
      exact came.since n later old
    · rw [List.take_of_length_le (by rw [List.length_append, List.length_singleton]; omega)]
      exact still

theorem now (before : ¬P cs) (holds : P (cs ++ [c])) : CameAbout P (cs ++ [c]) cs.length where
  inside := by simp
  before := by rwa [List.take_left]
  since n later within := by
    rw [List.take_of_length_le (by simp; omega)]
    exact holds

theorem exists_of_holds (start : ¬P []) (holds : P cs) : ∃ s, CameAbout P cs s := by
  induction cs using List.reverseRecOn with
  | nil => exact (start holds).elim
  | append_singleton cs c ih =>
      by_cases before : P cs
      · obtain ⟨s, came⟩ := ih before
        exact ⟨s, came.keep holds⟩
      · exact ⟨cs.length, now before holds⟩

end CameAbout

namespace Earlier

theorem asymm (first : Earlier P Q cs) : ¬Earlier Q P cs := by
  rintro ⟨t', s', cameQ', cameP', order'⟩
  obtain ⟨s, t, cameP, cameQ, order⟩ := first
  rw [cameP'.unique cameP, cameQ'.unique cameQ] at order'
  omega

theorem keep (order : Earlier P Q cs) (first : P (cs ++ [c])) (second : Q (cs ++ [c])) :
    Earlier P Q (cs ++ [c]) := by
  obtain ⟨s, t, cameP, cameQ, before⟩ := order
  exact ⟨s, t, cameP.keep first, cameQ.keep second, before⟩

theorem now (start : ¬P []) (old : P cs) (still : P (cs ++ [c])) (new : ¬Q cs)
    (holds : Q (cs ++ [c])) : Earlier P Q (cs ++ [c]) := by
  obtain ⟨s, came⟩ := CameAbout.exists_of_holds start old
  exact ⟨s, cs.length, came.keep still, .now new holds, came.inside⟩

end Earlier

end

section

variable {α : Type}

theorem eq_filter_append_filter {xs : List α} {p : α → Bool}
    (first : xs.Pairwise fun x y => p y → p x) : xs = xs.filter p ++ xs.filter (!p ·) := by
  induction first with
  | nil => rfl
  | @cons x xs here _ ih =>
      cases chosen : p x with
      | true =>
          rw [List.filter_cons_of_pos chosen, List.filter_cons_of_neg (by simp [chosen]),
            List.cons_append, ← ih]
      | false =>
          have none : ∀ y ∈ xs, p y = false := by
            intro y member
            by_contra other
            have : p x = true := here y member (by simpa using other)
            simp [chosen] at this
          have left : xs.filter p = [] := by
            rw [List.filter_eq_nil_iff]
            simpa using none
          have right : xs.filter (!p ·) = xs := by
            rw [List.filter_eq_self]
            simpa using none
          rw [List.filter_cons_of_neg (by simp [chosen]),
            List.filter_cons_of_pos (by simp [chosen]), left, right, List.nil_append]

theorem eraseDups_sublist (ns : List String) : ns.eraseDups.Sublist ns := by
  cases ns with
  | nil => exact List.Sublist.refl _
  | cons n ns =>
      rw [List.eraseDups_cons]
      exact ((eraseDups_sublist _).trans List.filter_sublist).cons_cons n
termination_by ns.length
decreasing_by exact Nat.lt_succ_of_le (List.length_filter_le _ _)

theorem eq_flatMap_filter {xs : List α} {name : α → String} {R : String → String → Prop}
    (asymm : ∀ a b, R a b → ¬R b a)
    (sorted : xs.Pairwise fun x y => name x ≠ name y → R (name x) (name y)) :
    xs = (xs.map name).eraseDups.flatMap fun n => xs.filter (name · = n) := by
  match xs, sorted with
  | [], _ => rfl
  | x :: xs, sorted =>
      have ⟨here, there⟩ := List.pairwise_cons.mp sorted
      -- What has the name of the first element follows it before anything else does.
      have apart : xs = xs.filter (name · = name x) ++ xs.filter (!name · = name x) := by
        refine eq_filter_append_filter (there.imp_of_mem ?_)
        intro y z inside _ order same
        simp only [decide_eq_true_eq] at same ⊢
        by_contra other
        rw [same] at order
        exact asymm _ _ (here y inside (Ne.symm other)) (order other)
      have rest := eq_flatMap_filter asymm (there.filter (!name · = name x))
      have names : ((x :: xs).map name).eraseDups =
          name x :: ((xs.filter (!name · = name x)).map name).eraseDups := by
        rw [List.map_cons, List.eraseDups_cons, List.filter_map]
        rfl
      rw [names, List.flatMap_cons, List.filter_cons_of_pos (by simp), List.cons_append]
      congr 1
      conv_lhs => rw [apart, rest]
      congr 1
      refine List.flatMap_congr fun n member => ?_
      obtain ⟨y, inside, rfl⟩ := List.mem_map.mp (List.mem_eraseDups.mp member)
      have other : ¬name y = name x := by simpa using (List.mem_filter.mp inside).2
      rw [List.filter_filter, List.filter_cons_of_neg (by simpa using Ne.symm other)]
      refine List.filter_congr fun z _ => ?_
      by_cases same : name z = name y <;> simp [same, other]
termination_by xs.length
decreasing_by exact Nat.lt_succ_of_le (List.length_filter_le _ _)

end

namespace Library

variable {l m : Library} {cs : List Change} {c : Change} {k k' : Key} {n : String}

/-- The function of the last registration granted for a key, unless it was taken out
    since. -/
def holder? (key : Key) (granted : List Change) : Option Function :=
  match (granted.filter (·.subject.key = key)).getLast? with
  | some (.register f) => some f
  | _ => none

theorem holder?_append_singleton (granted : List Change) :
    holder? k (granted ++ [c]) =
      if c.subject.key = k then holder? k [c] else holder? k granted := by
  by_cases about : c.subject.key = k <;>
    simp [holder?, List.filter_append, about]

theorem filter_key_eq_nil {fs : List Function} (absent : ∀ g ∈ fs, g.key ≠ k) :
    fs.filter (·.key = k) = [] := by
  simpa [List.filter_eq_nil_iff] using absent

theorem key_ne_of_nodup {g : Function} {before behind : List Function}
    (distinct : ((before ++ g :: behind).map Function.key).Nodup) :
    ∀ f ∈ before ++ behind, f.key ≠ g.key := by
  rw [List.map_append, List.map_cons, List.nodup_middle, List.nodup_cons, ← List.map_append]
    at distinct
  exact fun f member same => distinct.1 (List.mem_map.mpr ⟨f, member, same⟩)

theorem filter_key_middle {g : Function} {before behind : List Function}
    (apart : ∀ f ∈ before ++ behind, f.key ≠ g.key) (k : Key) :
    (before ++ g :: behind).filter (·.key = k) =
      if g.key = k then [g] else (before ++ behind).filter (·.key = k) := by
  by_cases about : g.key = k
  · have none := filter_key_eq_nil (about ▸ apart)
    rw [List.filter_append, List.append_eq_nil_iff] at none
    simp [List.filter_append, about, none.1, none.2]
  · simp [List.filter_append, about]

/-- A granted change settles what stands under the key that it is about, and touches
    no other key. -/
theorem Step.filter_key {fs gs : List Function} (step : Step c fs gs)
    (distinct : (fs.map Function.key).Nodup) :
    gs.filter (·.key = k) =
      if c.subject.key = k then (holder? k [c]).toList else fs.filter (·.key = k) := by
  cases step with
  | @added f before behind fresh place =>
      rw [filter_key_middle fresh]
      by_cases about : f.key = k <;> simp [holder?, Change.subject, about]
  | @replaced f g before behind same free =>
      have apart := key_ne_of_nodup distinct
      rw [filter_key_middle apart, filter_key_middle (same ▸ apart), same]
      by_cases about : f.key = k <;> simp [holder?, Change.subject, about]
  | @removed f g before behind same free =>
      have apart := key_ne_of_nodup distinct
      rw [filter_key_middle apart, same.key]
      by_cases about : f.key = k
      · have none := filter_key_eq_nil (about ▸ same.key ▸ apart)
        simp [holder?, Change.subject, about, none]
      · simp [Change.subject, about]

theorem filter_key_after (cs : List Change) (k : Key) :
    (empty.after cs).functions.filter (·.key = k) = (holder? k (empty.granted cs)).toList := by
  induction cs using List.reverseRecOn with
  | nil => rfl
  | append_singleton cs c ih =>
      rw [after_append_singleton, granted_append_singleton]
      cases made : (empty.after cs).change? c with
      | none => simpa using ih
      | some m =>
          have distinct := empty_distinct.after cs
          simp only [Option.getD_some, Option.isSome_some, if_true, holder?_append_singleton,
            (step_of_change? made).filter_key distinct, ih]
          split <;> rfl

def HasKey (key : Key) (changes : List Change) : Prop :=
  key ∈ (empty.after changes).keys

def HasName (name : String) (changes : List Change) : Prop :=
  (empty.after changes).contains name = true

theorem hasKey_of_mem {f : Function} (member : f ∈ (empty.after cs).functions) :
    HasKey f.key cs :=
  List.mem_map_of_mem member

theorem hasName_iff : HasName n cs ↔ ∃ k, HasKey k cs ∧ k.name = n := by
  rw [HasName, contains_iff]
  constructor
  · rintro ⟨f, member⟩
    have ⟨there, name⟩ := mem_overloads.mp member
    exact ⟨f.key, hasKey_of_mem there, name⟩
  · rintro ⟨k, present, rfl⟩
    obtain ⟨f, there, rfl⟩ := List.mem_map.mp present
    exact ⟨f, mem_overloads.mpr ⟨there, rfl⟩⟩

theorem HasKey.hasName (present : HasKey k cs) : HasName k.name cs :=
  hasName_iff.mpr ⟨k, present, rfl⟩

theorem not_hasKey_nil : ¬HasKey k [] :=
  List.not_mem_nil

theorem not_hasName_nil : ¬HasName n [] := by
  rw [hasName_iff]
  rintro ⟨k, present, _⟩
  exact not_hasKey_nil present

/-- Keys of one name stand in the order of their own arrival, others in the order of
    the arrival of their names. -/
def InOrder (changes : List Change) (k k' : Key) : Prop :=
  (k.name = k'.name → Earlier (HasKey k) (HasKey k') changes) ∧
    (k.name ≠ k'.name → Earlier (HasName k.name) (HasName k'.name) changes)

theorem InOrder.keep (order : InOrder cs k k') (first : HasKey k (cs ++ [c]))
    (second : HasKey k' (cs ++ [c])) : InOrder (cs ++ [c]) k k' :=
  ⟨fun same => (order.1 same).keep first second,
    fun other => (order.2 other).keep first.hasName second.hasName⟩

/-- The names before a newcomer came about earlier than its own. The last function of its
    own name stands behind them, or that name has come about just now. -/
theorem Belongs.earlier_name {f : Function} {before behind : List Function}
    (place : Belongs f before behind) (functions : (empty.after cs).functions = before ++ behind)
    (afterwards : (empty.after (cs ++ [c])).functions = before ++ f :: behind)
    (sorted : before.Pairwise fun g h => InOrder (cs ++ [c]) g.key h.key) {g : Function}
    (member : g ∈ before) (other : g.name ≠ f.name) :
    Earlier (HasName g.name) (HasName f.name) (cs ++ [c]) := by
  rcases place with ⟨⟨x, last, name⟩, _⟩ | ⟨rfl, others⟩
  · obtain ⟨front, rfl⟩ := List.getLast?_eq_some_iff.mp last
    rw [← name] at other ⊢
    rcases List.mem_append.mp member with inFront | isLast
    · exact ((List.pairwise_append.mp sorted).2.2 g inFront x List.mem_cons_self).2 other
    · rw [List.mem_singleton] at isLast
      exact (other (isLast ▸ rfl)).elim
  · have old : HasKey g.key cs := hasKey_of_mem (by simp [functions, member])
    have still : HasKey g.key (cs ++ [c]) := hasKey_of_mem (by simp [afterwards, member])
    have here : HasKey f.key (cs ++ [c]) := hasKey_of_mem (by simp [afterwards])
    have absent : ¬HasName f.name cs := by
      rw [HasName, contains_iff]
      rintro ⟨x, there⟩
      have ⟨inside, same⟩ := mem_overloads.mp there
      rw [functions, List.append_nil] at inside
      exact others x inside same
    exact .now not_hasName_nil old.hasName still.hasName absent here.hasName

/-- A newcomer stands in order where it belongs: behind what came earlier, and before
    the names that came after its own. -/
theorem inOrder_insert {f : Function} {before behind : List Function}
    (functions : (empty.after cs).functions = before ++ behind)
    (afterwards : (empty.after (cs ++ [c])).functions = before ++ f :: behind)
    (fresh : ∀ g ∈ before ++ behind, g.key ≠ f.key) (place : Belongs f before behind)
    (sorted : ((before ++ behind).map Function.key).Pairwise (InOrder (cs ++ [c]))) :
    ((before ++ f :: behind).map Function.key).Pairwise (InOrder (cs ++ [c])) := by
  have here : HasKey f.key (cs ++ [c]) := hasKey_of_mem (by simp [afterwards])
  have new : ¬HasKey f.key cs := by
    rw [HasKey, keys, functions]
    intro again
    obtain ⟨g, member, same⟩ := List.mem_map.mp again
    exact fresh g member same
  rw [List.pairwise_map, List.pairwise_append] at sorted
  obtain ⟨left, right, across⟩ := sorted
  rw [List.pairwise_map, List.pairwise_append, List.pairwise_cons]
  refine ⟨left, ⟨fun g member => ?_, right⟩, fun g member h there => ?_⟩
  · rcases place with ⟨⟨x, last, name⟩, others⟩ | ⟨rfl, _⟩
    · have order := across x (List.mem_of_getLast? last) g member
      refine ⟨fun same => (others g member same.symm).elim, fun other => ?_⟩
      have same : x.key.name = f.key.name := name
      rw [← same] at other ⊢
      exact order.2 other
    · cases member
  · rcases List.mem_cons.mp there with rfl | inBehind
    · have old : HasKey g.key cs := hasKey_of_mem (by simp [functions, member])
      have still : HasKey g.key (cs ++ [c]) := hasKey_of_mem (by simp [afterwards, member])
      exact ⟨fun _ => .now not_hasKey_nil old still new here,
        place.earlier_name functions afterwards left member⟩
    · exact across g member h inBehind

theorem keys_inOrder (cs : List Change) : (empty.after cs).keys.Pairwise (InOrder cs) := by
  induction cs using List.reverseRecOn with
  | nil => exact .nil
  | append_singleton cs c ih =>
      have keep {ks : List Key} (sorted : ks.Pairwise (InOrder cs))
          (there : ∀ k ∈ ks, HasKey k (cs ++ [c])) : ks.Pairwise (InOrder (cs ++ [c])) :=
        sorted.imp_of_mem fun first second order => order.keep (there _ first) (there _ second)
      have next := after_append_singleton (l := empty) cs c
      cases made : (empty.after cs).change? c with
      | none =>
          rw [made, Option.getD_none] at next
          rw [next]
          exact keep ih fun k member => by rwa [HasKey, next]
      | some m =>
          rw [made, Option.getD_some] at next
          have step := step_of_change? made
          have there : ∀ k ∈ m.keys, HasKey k (cs ++ [c]) := fun k member => by rwa [HasKey, next]
          rw [next]
          rw [keys] at ih there ⊢
          generalize before : (empty.after cs).functions = fs at ih step
          generalize behind : m.functions = gs at there step ⊢
          cases step with
          | added fresh place =>
              refine inOrder_insert before (by rw [next, behind]) fresh place (keep ih ?_)
              intro k member
              refine there k ?_
              simp only [List.map_append, List.map_cons, List.mem_append, List.mem_cons] at member ⊢
              exact member.imp_right .inr
          | replaced same free =>
              simp only [List.map_append, List.map_cons, same] at ih there ⊢
              exact keep ih there
          | removed same free =>
              refine keep (ih.sublist (List.Sublist.map _ ?_)) there
              exact (List.sublist_cons_self _ _).append_left _

theorem overloads_inOrder (cs : List Change) (n : String) :
    ((empty.after cs).overloads n).Pairwise fun f g =>
      Earlier (HasKey f.key) (HasKey g.key) cs := by
  refine ((List.pairwise_map.mp (keys_inOrder cs)).filter _).imp_of_mem ?_
  intro f g first second order
  exact order.1 ((mem_overloads.mp first).2.trans (mem_overloads.mp second).2.symm)

theorem names_inOrder (cs : List Change) :
    (empty.after cs).names.Pairwise fun a b => Earlier (HasName a) (HasName b) cs := by
  have sorted : ((empty.after cs).functions.map Function.name).Pairwise fun a b =>
      a ≠ b → Earlier (HasName a) (HasName b) cs :=
    List.pairwise_map.mpr ((List.pairwise_map.mp (keys_inOrder cs)).imp And.right)
  have distinct := nodup_eraseDups ((empty.after cs).functions.map Function.name)
  exact ((sorted.sublist (eraseDups_sublist _)).and distinct).imp fun both => both.1 both.2

theorem functions_eq_flatMap (cs : List Change) :
    (empty.after cs).functions = (empty.after cs).names.flatMap (empty.after cs).overloads :=
  eq_flatMap_filter (R := fun a b => Earlier (HasName a) (HasName b) cs)
    (fun _ _ => Earlier.asymm) ((List.pairwise_map.mp (keys_inOrder cs)).imp And.right)

theorem absent_after {f : Function} (absent : ∀ g ∈ l.functions, ¬g.Same f)
    (never : ∀ g, .register g ∈ cs → ¬g.Same f) : ∀ g ∈ (l.after cs).functions, ¬g.Same f := by
  induction cs generalizing l with
  | nil => exact absent
  | cons c cs ih =>
      rw [after_cons]
      refine ih ?_ fun g later => never g (List.mem_cons_of_mem c later)
      cases made : l.change? c with
      | none => exact absent
      | some m =>
          intro g member
          rcases (step_of_change? made).mem member with rfl | there
          · exact never g List.mem_cons_self
          · exact absent g there

theorem absent_of_register {f g : Function} (distinct : l.Distinct)
    (made : l.change? (.register g) = some m) (same : f.key = g.key) (other : ¬g.Same f) :
    ∀ h ∈ m.functions, ¬h.Same f := by
  intro h member again
  have there : g ∈ m.functions := (register_spec made).1
  have kept : m.Distinct := (step_of_change? made).nodup distinct
  have equal : h.key = g.key := again.key.trans same
  rw [kept.eq_of_key member there equal] at again
  exact other again

theorem place_eq_append {f : Function} {fs : List Function} (new : ∀ g ∈ fs, g.name ≠ f.name) :
    place f fs = fs ++ [f] := by
  induction fs with
  | nil => rfl
  | cons x xs ih =>
      have ⟨here, there⟩ := List.forall_mem_cons.mp new
      rw [place, if_neg fun same => here same.1, ih there, List.cons_append]

theorem register_new {fs gs : List Function} {g : Function}
    (new : ((fs ++ g :: gs).map Function.name).Nodup) :
    register ⟨fs⟩ g = .added ⟨fs ++ [g]⟩ := by
  have apart : ∀ f ∈ fs, f.name ≠ g.name := by
    intro f member
    rw [List.map_append, List.map_cons, List.nodup_middle, List.nodup_cons,
      ← List.map_append] at new
    exact fun same => new.1 (List.mem_map.mpr ⟨f, List.mem_append_left _ member, same⟩)
  have fresh : clash? ⟨fs⟩ g.signature = none :=
    clash?_eq_none_iff.mpr fun f member clash => apart f member clash.1
  rw [register, fresh]
  simp only [place_eq_append apart]

theorem after_register_new (fs gs : List Function) (new : ((fs ++ gs).map Function.name).Nodup) :
    after ⟨fs⟩ (gs.map .register) = ⟨fs ++ gs⟩ := by
  induction gs generalizing fs with
  | nil => rw [List.append_nil]; rfl
  | cons g gs ih =>
      have added : change? ⟨fs⟩ (.register g) = some ⟨fs ++ [g]⟩ := by
        rw [change?, register_new new, Registration.library?]
      rw [List.append_cons] at new ⊢
      rw [List.map_cons, after_cons, added, Option.getD_some, ih _ new]

/-- The registrations by which a new library comes about. -/
def opening (includePredefined : Bool) : List Change :=
  if includePredefined then Primitive.functions.map .register else []

theorem initial_eq_after (includePredefined : Bool) :
    initial includePredefined = empty.after (opening includePredefined) := by
  cases includePredefined with
  | false => rfl
  | true => exact (after_register_new [] Primitive.functions (by decide)).symm

/-- A library as an ordered map from keys to functions, described by the changes that were
    made to it since it was empty. -/
structure Recounts (changes : List Change) (l : Library) : Prop where
  distinct : l.Distinct
  /-- Under a key there is the function of the last registration granted, unless it was
      taken out since. -/
  held (k : Key) : l.functions.filter (·.key = k) = (holder? k (empty.granted changes)).toList
  /-- Once another function was registered under its key, a function stays away until it is
      registered itself. -/
  gone {earlier later : List Change} {f g : Function} :
    changes = earlier ++ .register g :: later →
      ((empty.after earlier).change? (.register g)).isSome → f.key = g.key → ¬g.Same f →
        (∀ h, .register h ∈ later → ¬h.Same f) →
          (∀ h ∈ l.functions, ¬h.Same f) ∧ l.change? (.unregister f) = none
  /-- Only over a predefined function no other one can be registered. -/
  refused (f : Function) :
    l.change? (.register f) = none ↔ ∃ g ∈ l.functions, g.key = f.key ∧ g.predefined = true
  /-- Only what is there, and not predefined, can be taken out. -/
  retained (f : Function) :
    l.change? (.unregister f) = none ↔ f.predefined = true ∨ ∀ g ∈ l.functions, ¬g.Same f
  /-- A replacement takes the position of what it replaces. -/
  position {f g : Function} {m : Library} :
    g ∈ l.functions → g.key = f.key → l.change? (.register f) = some m →
      ∃ before behind, l.functions = before ++ g :: behind ∧ m.functions = before ++ f :: behind
  overloads_order (n : String) :
    (l.overloads n).Pairwise fun f g => Earlier (HasKey f.key) (HasKey g.key) changes
  names_order : l.names.Pairwise fun a b => Earlier (HasName a) (HasName b) changes
  names_nodup : l.names.Nodup
  mem_names (n : String) : n ∈ l.names ↔ l.contains n = true
  contains_iff (n : String) : l.contains n = true ↔ l.overloads n ≠ []
  iteration : l.functions = l.names.flatMap l.overloads
  once : l.functions.Nodup

theorem recounts (cs : List Change) : (empty.after cs).Recounts cs where
  distinct := empty_distinct.after cs
  held := filter_key_after cs
  gone := by
    intro earlier later f g split granted same other never
    obtain ⟨m, made⟩ := Option.isSome_iff_exists.mp granted
    have reached : empty.after cs = m.after later := by
      rw [split, after_append, after_cons, made, Option.getD_some]
    have absent := absent_of_register (empty_distinct.after earlier) made same other
    have gone : ∀ h ∈ (empty.after cs).functions, ¬h.Same f :=
      reached ▸ absent_after absent never
    exact ⟨gone, change?_unregister_eq_none_iff.mpr (.inr gone)⟩
  refused _ := change?_register_eq_none_iff (empty_distinct.after cs)
  retained _ := change?_unregister_eq_none_iff
  position := by
    intro f g m member same made
    have found := (clash?_iff (empty_distinct.after cs)).mpr ⟨member, same⟩
    rcases register_eq_some_iff.mp made with ⟨fresh, _⟩ | ⟨d, displaced, _, rfl⟩
    · rw [found] at fresh
      cases fresh
    · rw [clash?_eq_find?] at found
      exact substitute_spec found
  overloads_order := overloads_inOrder cs
  names_order := names_inOrder cs
  names_nodup := nodup_eraseDups _
  mem_names n := by simp [names, contains]
  contains_iff n := by
    rw [Library.contains_iff]
    constructor
    · rintro ⟨_, member⟩
      exact List.ne_nil_of_mem member
    · exact List.exists_mem_of_ne_nil _
  iteration := functions_eq_flatMap cs
  once := List.Nodup.of_map Function.key (empty_distinct.after cs)

/-- After any history of registrations and removals, granted or refused, that starts with
    an empty library or with the predefined functions, the library is what the history
    says. -/
theorem after_recounts (includePredefined : Bool) (changes : List Change) :
    ((initial includePredefined).after changes).Recounts
      (opening includePredefined ++ changes) := by
  rw [initial_eq_after, ← after_append]
  exact recounts _

end Library

end Formulary
