import Formulary.Proofs.RealTexts
import Formulary.Value.Basic

/-! # The texts of values

The text of a value can be found in a longer text, as long as it is followed by one of the
characters that separate and close. So neither the elements of a list nor the constants of a
tree run into what stands behind them, and a text is the text of one value only.
-/

namespace Formulary

open Numeral (isRealChar)

namespace Text

section

variable {part : Char → Bool} {word word' rest rest' : List Char}

theorem takeWhile_append (inside : ∀ c ∈ word, part c = true)
    (behind : ∀ c ∈ rest.head?, part c = false) : (word ++ rest).takeWhile part = word := by
  rw [List.takeWhile_append_of_pos inside]
  cases rest with
  | nil => exact List.append_nil word
  | cons c rest => rw [List.takeWhile_cons_of_neg (by simp [behind c rfl]), List.append_nil]

theorem word_unique (inside : ∀ c ∈ word, part c = true) (inside' : ∀ c ∈ word', part c = true)
    (behind : ∀ c ∈ rest.head?, part c = false) (behind' : ∀ c ∈ rest'.head?, part c = false)
    (same : word ++ rest = word' ++ rest') : word = word' ∧ rest = rest' := by
  have words : word = word' := by
    rw [← takeWhile_append inside behind, same, takeWhile_append inside' behind']
  exact ⟨words, List.append_cancel_left (words ▸ same)⟩

end

section

variable {α : Type} {stop : Char → Bool} {text : α → List Char}

/-- Whether nothing follows, or a character that texts stop at. -/
def Ends (stop : Char → Bool) (rest : List Char) : Prop :=
  ∀ c ∈ rest.head?, stop c = true

theorem Ends.nil : Ends stop [] := by
  intro c mem
  cases mem

theorem Ends.cons {c : Char} (stops : stop c = true) (rest : List Char) :
    Ends stop (c :: rest) := by
  intro d mem
  cases mem
  exact stops

theorem Ends.imp {stop' : Char → Bool} (more : ∀ c, stop c = true → stop' c = true)
    {rest : List Char} (ends : Ends stop rest) : Ends stop' rest := by
  intro c mem
  exact more c (ends c mem)

theorem Ends.outside {part : Char → Bool} (apart : ∀ c, stop c = true → part c = false)
    {rest : List Char} (ends : Ends stop rest) : ∀ c ∈ rest.head?, part c = false := by
  intro c mem
  exact apart c (ends c mem)

/-- Whether two things can be told apart by their texts within longer ones, and with them
    what stands behind. -/
def Distinguishes (stop : Char → Bool) (text : α → List Char) (x y : α) : Prop :=
  ∀ r s, Ends stop r → Ends stop s → text x ++ r = text y ++ s → x = y ∧ r = s

/-- The texts of several things, each behind a separator. -/
def row (text : α → List Char) (separator : List Char) (xs : List α) : List Char :=
  xs.flatMap fun x => separator ++ text x

variable {first close : Char} {others : List Char}

theorem ends_row (stops : stop first = true) (closes : stop close = true) (xs : List α)
    (r : List Char) : Ends stop (row text (first :: others) xs ++ close :: r) := by
  cases xs with
  | nil => exact .cons closes r
  | cons x xs => exact .cons stops _

/-- A row up to its closing character tells how many things it has and which ones. -/
theorem row_unique (stops : stop first = true) (closes : stop close = true)
    (different : first ≠ close) {xs ys : List α} {r s : List Char}
    (each : ∀ x ∈ xs, ∀ y ∈ ys, Distinguishes stop text x y)
    (same : row text (first :: others) xs ++ close :: r =
      row text (first :: others) ys ++ close :: s) : xs = ys ∧ r = s := by
  induction xs generalizing ys with
  | nil =>
      cases ys with
      | nil => exact ⟨rfl, (List.cons.inj same).2⟩
      | cons y ys => exact (different (List.cons.inj same).1.symm).elim
  | cons x xs ih =>
      cases ys with
      | nil => exact (different (List.cons.inj same).1).elim
      | cons y ys =>
          have behind : text x ++ (row text (first :: others) xs ++ close :: r) =
              text y ++ (row text (first :: others) ys ++ close :: s) := by
            apply (List.append_right_inj (first :: others)).mp
            simpa [row] using same
          obtain ⟨head, others⟩ := each x List.mem_cons_self y List.mem_cons_self _ _
            (ends_row stops closes xs r) (ends_row stops closes ys s) behind
          obtain ⟨tail, rest⟩ := ih (fun x mem y mem' =>
            each x (List.mem_cons_of_mem _ mem) y (List.mem_cons_of_mem _ mem')) others
          exact ⟨by rw [head, tail], rest⟩

end

end Text

namespace Numeral

def isIntegerChar (c : Char) : Bool :=
  c.isDigit || c == '-'

theorem integerText_eq (n : ℤ) :
    toString n = (if decide (n < 0) then "-" else "") ++ toString n.natAbs := by
  cases n with
  | ofNat k => rfl
  | negSucc k =>
      rw [decide_eq_true (Int.negSucc_lt_zero k), if_pos rfl]
      rfl

theorem integerText_alphabet (n : ℤ) : ∀ c ∈ (toString n).toList, isIntegerChar c = true := by
  intro c mem
  rw [integerText_eq, String.toList_append] at mem
  rcases List.mem_append.mp mem with sign | digit
  · split at sign <;> simp at sign
    rw [sign]
    rfl
  · simp [isIntegerChar, AllDigits.toString _ c digit]

theorem integerText_ne_nil (n : ℤ) : (toString n).toList ≠ [] := by
  rw [integerText_eq, String.toList_append]
  exact List.append_ne_nil_of_right_ne_nil _ (toString_toList_ne_nil _)

theorem integerText_injective : Function.Injective (toString : ℤ → String) := by
  intro m n same
  have unsigned (k : Nat) : (toString k).toList.head? ≠ some '-' := by
    intro sign
    exact (AllDigits.toString k).notMem rfl (List.mem_of_head? sign)
  rw [integerText_eq, integerText_eq] at same
  obtain ⟨sign, digits⟩ := signed_injective (unsigned _) (unsigned _) same
  have absolute : m.natAbs = n.natAbs := by
    rw [← whole_toString m.natAbs, digits, whole_toString]
  rw [decide_eq_decide] at sign
  omega

end Numeral

namespace Value

open Text

/-- The characters that stand behind the text of a value within a longer one. -/
def isStop (c : Char) : Bool :=
  " ),]".toList.contains c

/-- The text of a value, by its characters. -/
def chars (v : Value) : List Char :=
  v.text.toList

/-- The characters of truth values, integers and reals. -/
def isScalarChar (c : Char) : Bool :=
  isRealChar c || "truls".toList.contains c

/-- The type of the value that a text stands for. -/
def typeOfText (cs : List Char) : Ty :=
  if cs.head? = some '[' then .list
  -- Truth values come before reals, as there is an `e` in their texts, too.
  else if 't' ∈ cs ∨ 'l' ∈ cs then .boolean
  else if '.' ∈ cs ∨ 'e' ∈ cs ∨ 'n' ∈ cs then .real
  else .integer

theorem chars_list_cons (v : Value) (vs : List Value) : (Value.list (v :: vs)).chars =
    '[' :: (v.chars ++ (row chars [',', ' '] vs ++ [']'])) := by
  have body (v : Value) : (", ".intercalate (texts (v :: vs))).toList =
      v.chars ++ row chars [',', ' '] vs := by
    induction vs generalizing v with
    | nil => simp [texts, chars, row]
    | cons w vs ih =>
        simp only [texts, String.toList_intercalate, List.map_cons,
          List.intercalate_cons_cons] at ih ⊢
        rw [ih]
        simp [row, chars]
  rw [chars, text, String.toList_append, String.toList_append, body]
  simp

theorem exists_list_of_type {v : Value} (list : v.type = .list) : ∃ vs, v = .list vs := by
  cases v with
  | list vs => exact ⟨vs, rfl⟩
  | boolean | integer | real => cases list

theorem chars_list_opens (vs : List Value) : ∃ rest, (Value.list vs).chars = '[' :: rest := by
  cases vs with
  | nil => exact ⟨[']'], by decide⟩
  | cons v vs => exact ⟨_, chars_list_cons v vs⟩

theorem scalarChar_of_realChar {cs : List Char} (inside : ∀ c ∈ cs, isRealChar c = true) :
    ∀ c ∈ cs, isScalarChar c = true := by
  intro c mem
  rw [isScalarChar, inside c mem]
  rfl

theorem scalar_alphabet {v : Value} (scalar : v.type ≠ .list) :
    ∀ c ∈ v.chars, isScalarChar c = true := by
  cases v with
  | boolean b => cases b <;> exact List.all_eq_true.mp rfl
  | integer n =>
      intro c mem
      have integer := Numeral.integerText_alphabet n c mem
      rw [Numeral.isIntegerChar, Bool.or_eq_true, beq_iff_eq] at integer
      rcases integer with digit | rfl
      · simp [isScalarChar, isRealChar, digit]
      · rfl
  | real x => exact scalarChar_of_realChar (Layout.render_alphabet _)
  | list => exact (scalar rfl).elim

theorem scalar_ne_nil {v : Value} (scalar : v.type ≠ .list) : v.chars ≠ [] := by
  cases v with
  | boolean b => cases b <;> decide
  | integer n => exact Numeral.integerText_ne_nil n
  | real x =>
      rcases Layout.render_fractional (.ofFloat x) with point | power | word
      · exact List.ne_nil_of_mem point
      · exact List.ne_nil_of_mem power
      · exact List.ne_nil_of_mem word
  | list => exact (scalar rfl).elim

theorem chars_opens (v : Value) :
    ∃ first rest, v.chars = first :: rest ∧ (isScalarChar first = true ∨ first = '[') := by
  by_cases list : v.type = .list
  · obtain ⟨vs, rfl⟩ := exists_list_of_type list
    obtain ⟨rest, shape⟩ := chars_list_opens vs
    exact ⟨'[', rest, shape, .inr rfl⟩
  · obtain ⟨first, rest, shape⟩ := List.exists_cons_of_ne_nil (scalar_ne_nil list)
    exact ⟨first, rest, shape, .inl (scalar_alphabet list first (shape ▸ List.mem_cons_self))⟩

theorem typeOfText_chars (v : Value) : typeOfText v.chars = v.type := by
  rw [typeOfText]
  cases v with
  | boolean b => cases b <;> decide
  | integer n =>
      have absent {c : Char} (outside : Numeral.isIntegerChar c = false) :
          c ∉ (Value.integer n).chars :=
        Numeral.notMem_of_forall (Numeral.integerText_alphabet n) outside
      rw [if_neg (fun head => absent rfl (List.mem_of_head? head)), if_neg, if_neg]
      · rfl
      · simp [absent (c := '.') rfl, absent (c := 'e') rfl, absent (c := 'n') rfl]
      · simp [absent (c := 't') rfl, absent (c := 'l') rfl]
  | real x =>
      have absent {c : Char} (outside : isRealChar c = false) : c ∉ (Value.real x).chars :=
        Numeral.notMem_of_forall (Layout.render_alphabet _) outside
      rw [if_neg (fun head => absent rfl (List.mem_of_head? head)), if_neg, if_pos]
      · rfl
      · exact Layout.render_fractional _
      · simp [absent (c := 't') rfl, absent (c := 'l') rfl]
  | list vs =>
      obtain ⟨rest, shape⟩ := chars_list_opens vs
      rw [shape]
      rfl

/-- The text of a scalar is that of no other value. -/
theorem eq_of_scalar_text {v w : Value} (scalar : v.type ≠ .list) (same : v.chars = w.chars) :
    v = w := by
  have type : v.type = w.type := by rw [← typeOfText_chars, same, typeOfText_chars]
  have text : v.text = w.text := String.toList_inj.mp same
  cases v with
  | boolean a =>
      cases w with
      | boolean b => cases a <;> cases b <;> first | rfl | exact absurd text (by decide)
      | integer | real | list => cases type
  | integer m =>
      cases w with
      | integer n => rw [Numeral.integerText_injective text]
      | boolean | real | list => cases type
  | real x =>
      cases w with
      | real y => rw [realText_injective text]
      | boolean | integer | list => cases type
  | list => exact (scalar rfl).elim

theorem type_eq_list_iff {v : Value} : v.type = .list ↔ v.chars.head? = some '[' := by
  rw [← typeOfText_chars, typeOfText]
  split_ifs with bracket <;> simp [bracket]

theorem chars_ne_nil (v : Value) : v.chars ≠ [] := by
  obtain ⟨first, rest, shape, _⟩ := v.chars_opens
  simp [shape]

theorem chars_append_ne {c : Char} (outside : isScalarChar c = false) (other : c ≠ '[')
    (v : Value) (rest cs : List Char) : v.chars ++ rest ≠ c :: cs := by
  obtain ⟨first, others, shape, opens⟩ := v.chars_opens
  intro same
  rw [shape] at same
  obtain ⟨rfl, _⟩ := List.cons.inj same
  rcases opens with scalar | bracket
  · rw [outside] at scalar
    cases scalar
  · exact other bracket

theorem not_isScalarChar_of_isStop (c : Char) (stop : isStop c = true) :
    isScalarChar c = false := by
  simp [isStop] at stop
  rcases stop with rfl | rfl | rfl | rfl <;> rfl

theorem list_distinguishes {vs ws : List Value}
    (each : ∀ v ∈ vs, ∀ w ∈ ws, Distinguishes isStop chars v w) :
    Distinguishes isStop chars (.list vs) (.list ws) := by
  intro r s ends ends' same
  cases vs with
  | nil =>
      cases ws with
      | nil => exact ⟨rfl, List.append_cancel_left same⟩
      | cons w ws =>
          rw [chars_list_cons, List.cons_append, List.append_assoc] at same
          exact (chars_append_ne rfl (by decide) w _ _ (List.cons.inj same).2.symm).elim
  | cons v vs =>
      cases ws with
      | nil =>
          rw [chars_list_cons, List.cons_append, List.append_assoc] at same
          exact (chars_append_ne rfl (by decide) v _ _ (List.cons.inj same).2).elim
      | cons w ws =>
          simp only [chars_list_cons, List.cons_append, List.append_assoc, List.nil_append,
            List.cons.injEq, true_and] at same
          obtain ⟨head, others⟩ := each v List.mem_cons_self w List.mem_cons_self _ _
            (ends_row rfl rfl vs r) (ends_row rfl rfl ws s) same
          obtain ⟨tail, rest⟩ := row_unique rfl rfl (by decide) (fun x mem y mem' =>
            each x (List.mem_cons_of_mem _ mem) y (List.mem_cons_of_mem _ mem')) others
          exact ⟨by rw [head, tail], rest⟩

theorem type_eq_list_iff_of_append {v w : Value} {r s : List Char}
    (same : v.chars ++ r = w.chars ++ s) : v.type = .list ↔ w.type = .list := by
  have heads := congrArg List.head? same
  rw [List.head?_append_of_ne_nil _ v.chars_ne_nil, List.head?_append_of_ne_nil _ w.chars_ne_nil]
    at heads
  rw [type_eq_list_iff, heads, type_eq_list_iff]

theorem scalar_distinguishes {v : Value} (scalar : v.type ≠ .list) (w : Value) :
    Distinguishes isStop chars v w := by
  intro r s ends ends' same
  have scalar' : w.type ≠ .list := mt (type_eq_list_iff_of_append same).mpr scalar
  obtain ⟨text, rest⟩ := word_unique (scalar_alphabet scalar) (scalar_alphabet scalar')
    (ends.outside not_isScalarChar_of_isStop) (ends'.outside not_isScalarChar_of_isStop) same
  exact ⟨eq_of_scalar_text scalar text, rest⟩

theorem distinguishes (v w : Value) : Distinguishes isStop chars v w := by
  -- The other value is a list if this one is, since only lists start with a bracket.
  cases v with
  | list vs =>
      intro r s ends ends' same
      obtain ⟨ws, rfl⟩ := exists_list_of_type ((type_eq_list_iff_of_append same).mp rfl)
      exact list_distinguishes (fun v mem w _ => distinguishes v w) r s ends ends' same
  | boolean | integer | real => exact scalar_distinguishes (by simp [type]) w
termination_by sizeOf v
decreasing_by
  have smaller := List.sizeOf_lt_of_mem mem
  simp
  omega

end Value

end Formulary
