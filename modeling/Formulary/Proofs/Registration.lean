import Formulary.Library.Basic

/-! # Registering functions

An accepted registration either adds a function or puts it in the place of the
one that it clashes with. Registering once more a function that clashes with the
newcomer amounts to registering that one in the first place; so a registration
can be undone, by registering what it displaced or by taking out what it added.
-/

namespace Formulary

namespace Signature.Clashes

variable {s t u : Signature}

theorem refl (s : Signature) : s.Clashes s :=
  ⟨rfl, rfl⟩

theorem symm (h : s.Clashes t) : t.Clashes s :=
  ⟨h.1.symm, h.2.symm⟩

theorem trans (first : s.Clashes t) (second : t.Clashes u) : s.Clashes u :=
  ⟨first.1.trans second.1, first.2.trans second.2⟩

theorem congr (h : s.Clashes t) : u.Clashes s ↔ u.Clashes t :=
  ⟨fun first => first.trans h, fun first => first.trans h.symm⟩

theorem arity (h : s.Clashes t) : s.arity = t.arity := by
  have lengths := congrArg List.length h.2
  rwa [types, types, List.length_map, List.length_map] at lengths

end Signature.Clashes

namespace Library

variable {l m : Library} {f g : Function} {fs : List Function}

theorem mem_place : g ∈ place f fs ↔ g = f ∨ g ∈ fs := by
  induction fs with
  | nil => rw [place, List.mem_singleton, List.mem_nil_iff, or_false]
  | cons x xs ih =>
      rw [place]
      split
      · rw [List.mem_cons, List.mem_cons, List.mem_cons, or_left_comm]
      · rw [List.mem_cons, List.mem_cons, ih, or_left_comm]

theorem mem_of_mem_substitute (member : g ∈ substitute f fs) : g = f ∨ g ∈ fs := by
  induction fs with
  | nil => exact .inr member
  | cons x xs ih =>
      rw [substitute] at member
      split at member
      · rcases List.mem_cons.mp member with here | there
        · exact .inl here
        · exact .inr (List.mem_cons_of_mem x there)
      · rcases List.mem_cons.mp member with here | there
        · exact .inr (here ▸ List.mem_cons_self)
        · exact (ih there).imp_right (List.mem_cons_of_mem x)

theorem mem_substitute_self (clash : ∃ x ∈ fs, x.signature.Clashes f.signature) :
    f ∈ substitute f fs := by
  induction fs with
  | nil =>
      obtain ⟨x, member, _⟩ := clash
      cases member
  | cons x xs ih =>
      rw [substitute]
      split
      · exact List.mem_cons_self
      · rename_i differs
        obtain ⟨y, member, same⟩ := clash
        rcases List.mem_cons.mp member with rfl | there
        · exact (differs same).elim
        · exact List.mem_cons_of_mem x (ih ⟨y, there, same⟩)

theorem mem_substitute_of_mem (member : g ∈ fs) :
    g ∈ substitute f fs ∨ g.signature.Clashes f.signature := by
  induction fs with
  | nil => cases member
  | cons x xs ih =>
      rw [substitute]
      split
      · rename_i clash
        rcases List.mem_cons.mp member with rfl | there
        · exact .inr clash
        · exact .inl (List.mem_cons_of_mem f there)
      · rcases List.mem_cons.mp member with rfl | there
        · exact .inl List.mem_cons_self
        · exact (ih there).imp_left (List.mem_cons_of_mem x)

theorem substitute_place (fresh : ∀ x ∈ fs, ¬x.signature.Clashes g.signature)
    (clash : f.signature.Clashes g.signature) : substitute g (place f fs) = place g fs := by
  have names : f.name = g.name := clash.1
  induction fs with
  | nil => rw [place, place, substitute, if_pos clash]
  | cons x xs ih =>
      have ⟨here, there⟩ := List.forall_mem_cons.mp fresh
      rw [place, place, names]
      split
      · rw [substitute, if_neg here, substitute, if_pos clash]
      · rw [substitute, if_neg here, ih there]

theorem substitute_substitute (clash : f.signature.Clashes g.signature) :
    substitute g (substitute f fs) = substitute g fs := by
  induction fs with
  | nil => rfl
  | cons x xs ih =>
      by_cases here : x.signature.Clashes f.signature
      · rw [substitute, if_pos here, substitute, if_pos clash, substitute,
          if_pos (here.trans clash)]
      · have differs : ¬x.signature.Clashes g.signature := fun same =>
          here (same.trans clash.symm)
        rw [substitute, if_neg here, substitute, if_neg differs, ih, substitute, if_neg differs]

theorem substitute_self (found : fs.find? (·.signature.Clashes f.signature) = some f) :
    substitute f fs = fs := by
  induction fs with
  | nil => rfl
  | cons x xs ih =>
      rw [substitute]
      split
      · rename_i clash
        simp only [List.find?_cons, decide_eq_true clash, Option.some.injEq] at found
        rw [found]
      · rename_i differs
        simp only [List.find?_cons, decide_eq_false differs] at found
        rw [ih found]

theorem eraseP_place (fresh : ∀ x ∈ fs, ¬x.signature.Clashes f.signature) :
    (place f fs).eraseP (·.Same f) = fs := by
  have same : f.Same f := ⟨.refl f.signature, rfl⟩
  induction fs with
  | nil => simp only [place, List.eraseP_cons, decide_eq_true same, cond_true]
  | cons x xs ih =>
      have ⟨here, there⟩ := List.forall_mem_cons.mp fresh
      have other : ¬x.Same f := fun h => here h.1
      rw [place]
      split
      · simp only [List.eraseP_cons, decide_eq_false other, decide_eq_true same, cond_true,
          cond_false]
      · simp only [List.eraseP_cons, decide_eq_false other, cond_false, ih there]

theorem find?_place (fresh : ∀ x ∈ fs, ¬x.signature.Clashes f.signature) :
    (place f fs).find? (·.signature.Clashes f.signature) = some f := by
  have self := decide_eq_true (Signature.Clashes.refl f.signature)
  induction fs with
  | nil => simp only [place, List.find?_cons, self]
  | cons x xs ih =>
      have ⟨here, there⟩ := List.forall_mem_cons.mp fresh
      rw [place]
      split
      · simp only [List.find?_cons, decide_eq_false here, self]
      · simp only [List.find?_cons, decide_eq_false here, ih there]

theorem find?_substitute (clash : ∃ x ∈ fs, x.signature.Clashes f.signature) :
    (substitute f fs).find? (·.signature.Clashes f.signature) = some f := by
  induction fs with
  | nil =>
      obtain ⟨x, member, _⟩ := clash
      cases member
  | cons x xs ih =>
      rw [substitute]
      split
      · simp only [List.find?_cons, decide_eq_true (Signature.Clashes.refl f.signature)]
      · rename_i differs
        obtain ⟨y, member, same⟩ := clash
        rcases List.mem_cons.mp member with rfl | there
        · exact (differs same).elim
        · simp only [List.find?_cons, decide_eq_false differs, ih ⟨y, there, same⟩]

/-- The library after a registration, unless that is refused. -/
def Registration.library? : Registration → Option Library
  | .added l => some l
  | .replaced l => some l
  | .refused _ => none

theorem clash?_eq_none_iff {s : Signature} :
    l.clash? s = none ↔ ∀ x ∈ l.functions, ¬x.signature.Clashes s := by
  simp [clash?_eq_find?]

theorem clash?_spec {s : Signature} (found : l.clash? s = some g) :
    g ∈ l.functions ∧ g.signature.Clashes s := by
  rw [clash?_eq_find?] at found
  have clash := List.find?_some found
  exact ⟨List.mem_of_find?_eq_some found, of_decide_eq_true clash⟩

theorem clash?_congr {s t : Signature} (h : s.Clashes t) : l.clash? s = l.clash? t := by
  simp only [clash?_eq_find?, h.congr]

theorem register_eq_some_iff :
    (l.register f).library? = some m ↔
      (l.clash? f.signature = none ∧ m = ⟨place f l.functions⟩) ∨
        ∃ g, l.clash? f.signature = some g ∧ g.predefined = false ∧
          m = ⟨substitute f l.functions⟩ := by
  have flip (n : Library) : some n = some m ↔ m = n := by rw [Option.some.injEq, eq_comm]
  unfold register
  cases l.clash? f.signature with
  | none => simp [Registration.library?, flip]
  | some g => cases fixed : g.predefined <;> simp [Registration.library?, fixed, flip]

/-- What a library holds after a registration: the newcomer, and of the others all
    that do not clash with it. -/
theorem register_spec (accepted : (l.register f).library? = some m) :
    f ∈ m.functions ∧ (∀ g ∈ m.functions, g = f ∨ g ∈ l.functions) ∧
      ∀ g ∈ l.functions, g ∈ m.functions ∨ g.signature.Clashes f.signature := by
  rcases register_eq_some_iff.mp accepted with ⟨_, rfl⟩ | ⟨d, clash, _, rfl⟩
  · exact ⟨mem_place.mpr (.inl rfl), fun _ => mem_place.mp, fun _ member =>
      .inl (mem_place.mpr (.inr member))⟩
  · exact ⟨mem_substitute_self ⟨d, clash?_spec clash⟩, fun _ => mem_of_mem_substitute,
      fun _ => mem_substitute_of_mem⟩

theorem clash?_register (accepted : (l.register f).library? = some m) :
    m.clash? f.signature = some f := by
  rw [clash?_eq_find?]
  rcases register_eq_some_iff.mp accepted with ⟨fresh, rfl⟩ | ⟨d, clash, _, rfl⟩
  · exact find?_place (clash?_eq_none_iff.mp fresh)
  · exact find?_substitute ⟨d, clash?_spec clash⟩

/-- Over a newcomer that is not predefined, a function that clashes with it can be
    registered, with the effect that this would have had without the newcomer. -/
theorem register_over (accepted : (l.register f).library? = some m)
    (replaceable : f.predefined = false) (clash : f.signature.Clashes g.signature) :
    ∃ n, (m.register g).library? = some n ∧ (l.register g).library? = some n := by
  have newcomer : m.clash? g.signature = some f := by
    rw [← clash?_congr clash, clash?_register accepted]
  refine ⟨⟨substitute g m.functions⟩, ?_, ?_⟩
  · exact register_eq_some_iff.mpr (.inr ⟨f, newcomer, replaceable, rfl⟩)
  · rcases register_eq_some_iff.mp accepted with ⟨fresh, rfl⟩ | ⟨d, displaced, free, rfl⟩
    · rw [clash?_congr clash] at fresh
      rw [substitute_place (clash?_eq_none_iff.mp fresh) clash]
      exact register_eq_some_iff.mpr (.inl ⟨fresh, rfl⟩)
    · rw [clash?_congr clash] at displaced
      rw [substitute_substitute clash]
      exact register_eq_some_iff.mpr (.inr ⟨d, displaced, free, rfl⟩)

theorem register_displaced {d : Function} (accepted : (l.register f).library? = some m)
    (replaceable : f.predefined = false) (displaced : l.clash? f.signature = some d) :
    (m.register d).library? = some l := by
  have ⟨_, clash⟩ := clash?_spec displaced
  rcases register_eq_some_iff.mp accepted with ⟨fresh, _⟩ | ⟨e, found, free, _⟩
  · rw [displaced] at fresh
    cases fresh
  · rw [displaced] at found
    cases found
    obtain ⟨n, again, direct⟩ := register_over accepted replaceable clash.symm
    rw [clash?_congr clash.symm] at displaced
    have unchanged : (l.register d).library? = some l := by
      refine register_eq_some_iff.mpr (.inr ⟨d, displaced, free, ?_⟩)
      rw [clash?_eq_find?] at displaced
      rw [substitute_self displaced]
    rw [again, ← direct, unchanged]

theorem unregister?_added (accepted : (l.register f).library? = some m)
    (removable : f.predefined = false) (fresh : l.clash? f.signature = none) :
    m.unregister? f = some l := by
  rcases register_eq_some_iff.mp accepted with ⟨_, rfl⟩ | ⟨d, found, _⟩
  · have held : holds ⟨place f l.functions⟩ f = true :=
      List.any_eq_true.mpr ⟨f, mem_place.mpr (.inl rfl), decide_eq_true ⟨.refl _, rfl⟩⟩
    rw [unregister?, removable, held, eraseP_place (clash?_eq_none_iff.mp fresh)]
    rfl
  · rw [fresh] at found
    cases found

end Library

end Formulary
