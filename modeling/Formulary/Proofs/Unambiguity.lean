import Formulary.Code.Instr
import Formulary.Proofs.Calls
import Formulary.Proofs.ValueTexts

/-! # Texts of trees are unambiguous

A tree is its first instruction together with its operands. The text starts with the
instruction, which can be read back from it, and lists the operands behind it, each of which
ends where its own text ends. So a text belongs to one tree only, as long as no name is taken
for a part of the text that is no name.
-/

namespace Formulary

open Text

/-- A name that stands out in the text of a tree: it has no space, closing parenthesis or double
    quote, and is none of the words that start the text of another node. Parentheses that open
    do no harm, and neither does other white space. -/
def Legible (name : String) : Prop :=
  name ∉ ["cond", "map", "reduce"] ∧ ' ' ∉ name.toList ∧ ')' ∉ name.toList ∧ '"' ∉ name.toList

instance (name : String) : Decidable (Legible name) :=
  inferInstanceAs (Decidable (_ ∧ _))

/-- The characters that stand behind the text of a tree within a longer one. -/
def Node.isStop (c : Char) : Bool :=
  " )".toList.contains c

namespace Instr

/-- The character that tells the kind of an instruction. A constant has none. -/
def mark : Instr → Option Char
  | .param _ => some '$'
  | .cond | .apply _ | .map _ | .reduce _ => some '('
  | .const _ | .stray _ => none

/-- Whether an instruction makes a tree in parentheses. -/
def isCompound (i : Instr) : Bool :=
  i.mark == some '('

/-- A name between quotes, behind a space. -/
def quotation (name : String) : List Char :=
  ' ' :: '"' :: (name.toList ++ ['"'])

/-- The text of a tree with the instruction, up to the operands. -/
def opening : Instr → List Char
  | .const v => v.chars
  | .param index => '$' :: (toString index).toList
  | .cond => '(' :: "cond".toList
  | .apply name => '(' :: name.toList
  | .map name => '(' :: ("map".toList ++ quotation name)
  | .reduce name => '(' :: ("reduce".toList ++ quotation name)
  | .stray object => object.shown.toList

/-- Whether the name in an instruction, if any, is legible. -/
def Legible : Instr → Prop
  | .apply name | .map name | .reduce name => Formulary.Legible name
  | .const _ | .param _ | .cond => True
  | .stray _ => False

variable {i j : Instr} {r s : List Char}

def markOf (cs : List Char) : Option Char :=
  cs.head?.filter fun c => c == '$' || c == '('

theorem markOf_opening (legible : i.Legible) (rest : List Char) :
    markOf (i.opening ++ rest) = i.mark := by
  cases i with
  | const v =>
      obtain ⟨first, others, shape, opens⟩ := v.chars_opens
      rw [opening, shape]
      rcases opens with scalar | rfl
      · have other : first ≠ '$' ∧ first ≠ '(' := by
          constructor <;> intro same <;> rw [same] at scalar <;> cases scalar
        simp [markOf, mark, other]
      · rfl
  | stray => exact legible.elim
  | param | cond | apply | map | reduce => rfl

/-- The name between quotes that follows. -/
def quotedName (cs : List Char) : String :=
  String.ofList (Numeral.cut '"' (cs.drop 2)).1

/-- The instruction that a word starts, given what stands behind it. -/
def ofWord (word behind : List Char) : Instr :=
  if word = "cond".toList then .cond
  else if word = "map".toList then .map (quotedName behind)
  else if word = "reduce".toList then .reduce (quotedName behind)
  else .apply (String.ofList word)

/-- The instruction of a text in parentheses. -/
def read (cs : List Char) : Instr :=
  let word := cs.takeWhile fun c => !Node.isStop c
  ofWord word (cs.drop word.length)

theorem read_append {word : List Char} (inside : word.all (fun c => !Node.isStop c) = true)
    (ends : Ends Node.isStop r) : read (word ++ r) = ofWord word r := by
  have behind : ∀ c ∈ r.head?, (!Node.isStop c) = false := ends.outside (by simp)
  have words := takeWhile_append (List.all_eq_true.mp inside) behind
  simp only [read, words, List.drop_left]

theorem quotedName_append {name : String} (legible : Formulary.Legible name) (rest : List Char) :
    quotedName (quotation name ++ rest) = name := by
  have inner : (quotation name ++ rest).drop 2 = name.toList ++ '"' :: rest := by
    simp [quotation]
  rw [quotedName, inner, Numeral.cut_append legible.2.2.2, String.ofList_toList]

theorem ends_quotation (name : String) (rest : List Char) :
    Ends Node.isStop (quotation name ++ rest) :=
  .cons rfl _

theorem opening_of_compound (compound : i.isCompound = true) :
    i.opening = '(' :: i.opening.tail := by
  cases i with
  | cond | apply | map | reduce => rfl
  | const | param | stray => cases compound

theorem ofWord_of_legible {name : String} (legible : Formulary.Legible name)
    (behind : List Char) : ofWord name.toList behind = .apply name := by
  have other {keyword : String} (mem : keyword ∈ ["cond", "map", "reduce"]) :
      name.toList ≠ keyword.toList := by
    intro same
    rw [String.toList_inj.mp same] at legible
    exact legible.1 mem
  rw [ofWord, if_neg (other (by decide)), if_neg (other (by decide)), if_neg (other (by decide)),
    String.ofList_toList]

theorem read_opening (legible : i.Legible) (compound : i.isCompound = true)
    (ends : Ends Node.isStop r) : read (i.opening.tail ++ r) = i := by
  cases i with
  | cond =>
      have inside : "cond".toList.all (fun c => !Node.isStop c) = true := by decide
      exact read_append inside ends
  | apply name =>
      have inside : name.toList.all (fun c => !Node.isStop c) = true := by
        obtain ⟨_, space, parenthesis, _⟩ := legible
        rw [List.all_eq_true]
        intro c mem
        have other := ne_of_mem_of_not_mem mem space
        have other' := ne_of_mem_of_not_mem mem parenthesis
        simp [Node.isStop, other, other']
      rw [opening, List.tail_cons, read_append inside ends, ofWord_of_legible legible]
  | map name =>
      have quoted := ends_quotation name r
      rw [opening, List.tail_cons, List.append_assoc, read_append (by decide) quoted, ofWord,
        if_neg (by decide), if_pos rfl, quotedName_append legible]
  | reduce name =>
      have quoted := ends_quotation name r
      rw [opening, List.tail_cons, List.append_assoc, read_append (by decide) quoted, ofWord,
        if_neg (by decide), if_neg (by decide), if_pos rfl, quotedName_append legible]
  | const | param | stray => cases compound

theorem compound_distinguishes (legible : i.Legible) (legible' : j.Legible)
    (compound : i.isCompound = true) (compound' : j.isCompound = true) :
    Distinguishes Node.isStop opening i j := by
  intro r s ends ends' same
  rw [opening_of_compound compound, opening_of_compound compound'] at same
  have behind : i.opening.tail ++ r = j.opening.tail ++ s := (List.cons.inj same).2
  have equal : i = j := by
    rw [← read_opening legible compound ends, behind, read_opening legible' compound' ends']
  exact ⟨equal, List.append_cancel_left (equal ▸ behind)⟩

theorem param_distinguishes (index index' : Int) :
    Distinguishes Node.isStop opening (.param index) (.param index') := by
  intro r s ends ends' same
  have outside (c : Char) (stop : Node.isStop c = true) : Numeral.isIntegerChar c = false := by
    simp [Node.isStop] at stop
    rcases stop with rfl | rfl <;> rfl
  obtain ⟨text, rest⟩ := word_unique (Numeral.integerText_alphabet index)
    (Numeral.integerText_alphabet index') (ends.outside outside) (ends'.outside outside)
    (List.cons.inj same).2
  exact ⟨by rw [Numeral.integerText_injective (String.toList_inj.mp text)], rest⟩

theorem const_distinguishes (v w : Value) :
    Distinguishes Node.isStop opening (.const v) (.const w) := by
  intro r s ends ends' same
  have more (c : Char) (stop : Node.isStop c = true) : Value.isStop c = true := by
    simp [Node.isStop, Value.isStop] at stop ⊢
    tauto
  obtain ⟨value, rest⟩ := v.distinguishes w r s (ends.imp more) (ends'.imp more) same
  exact ⟨by rw [value], rest⟩

theorem distinguishes (legible : i.Legible) (legible' : j.Legible) :
    Distinguishes Node.isStop opening i j := by
  intro r s ends ends' same
  have mark : i.mark = j.mark := by
    rw [← markOf_opening legible r, same, markOf_opening legible' s]
  cases i with
  | const v =>
      cases j with
      | const w => exact const_distinguishes v w r s ends ends' same
      | stray => exact legible'.elim
      | param | cond | apply | map | reduce => cases mark
  | param index =>
      cases j with
      | param index' => exact param_distinguishes index index' r s ends ends' same
      | const | stray | cond | apply | map | reduce => cases mark
  | stray => exact legible.elim
  | cond | apply | map | reduce =>
      have compound : j.isCompound = true := by
        rw [isCompound, ← mark]
        rfl
      exact compound_distinguishes legible legible' rfl compound r s ends ends' same

end Instr

namespace Node

/-- The text of a tree, by its characters. -/
def chars (n : Node) : List Char :=
  n.text.toList

/-- Whether all names of a tree are legible, and no object in it is no node. -/
def Legible (n : Node) : Prop :=
  n.Formed fun c => Formulary.Legible c.name

/-- The instruction that makes a tree of its operands. -/
def instr : Node → Instr
  | .const v => .const v
  | .param index => .param index
  | .cond .. => .cond
  | .apply name _ => .apply name
  | .map name _ => .map name
  | .reduce name .. => .reduce name
  | .stray object => .stray object

theorem eq_of_instr_of_operands {m n : Node} (instr : m.instr = n.instr)
    (operands : m.operands = n.operands) : m = n := by
  cases m <;> cases n <;> cases instr <;> cases operands <;> rfl

/-- The text of a tree behind its instruction. -/
def closing (n : Node) : List Char :=
  if n.instr.isCompound then row chars [' '] n.operands ++ [')'] else []

theorem spaced_toList (ns : List Node) : (spaced ns).toList = row chars [' '] ns := by
  induction ns with
  | nil => rfl
  | cons n ns ih => simp [spaced, row, chars, ih]

theorem chars_eq (n : Node) : n.chars = n.instr.opening ++ n.closing := by
  cases n <;> simp [chars, text, instr, Instr.opening, closing, Instr.isCompound, Instr.mark,
    Instr.quotation, operands, row, Value.chars, spaced_toList]

theorem Legible.instr {n : Node} (legible : n.Legible) : n.instr.Legible := by
  cases n with
  | const | param | cond => trivial
  | apply | map | reduce => exact legible.1
  | stray => exact legible.elim

theorem Legible.operand {n k : Node} (legible : n.Legible) (mem : k ∈ n.operands) : k.Legible := by
  have all : FormedAll (fun c => Formulary.Legible c.name) n.operands := by
    cases n with
    | const | param | stray => trivial
    | cond => exact ⟨legible.1, legible.2.1, legible.2.2, trivial⟩
    | apply => exact legible.2
    | map => exact ⟨legible.2, trivial⟩
    | reduce => exact ⟨legible.2.1, legible.2.2, trivial⟩
  exact formedAll_iff.mp all k mem

theorem sizeOf_lt_of_mem_operands {n k : Node} (mem : k ∈ n.operands) : sizeOf k < sizeOf n := by
  cases n with
  | const | param | stray => cases mem
  | cond =>
      simp only [operands, List.mem_cons, List.not_mem_nil, or_false] at mem
      rcases mem with rfl | rfl | rfl <;> simp +arith
  | apply =>
      have smaller := List.sizeOf_lt_of_mem mem
      simp only [operands] at smaller
      simp
      omega
  | map =>
      simp only [operands, List.mem_cons, List.not_mem_nil, or_false] at mem
      simp [mem]
  | reduce =>
      simp only [operands, List.mem_cons, List.not_mem_nil, or_false] at mem
      rcases mem with rfl | rfl <;> simp +arith

theorem ends_closing (n : Node) {r : List Char} (ends : Ends isStop r) :
    Ends isStop (n.closing ++ r) := by
  rw [closing]
  split
  · rw [List.append_assoc]
    exact ends_row rfl rfl _ r
  · exact ends

theorem operands_eq_nil {n : Node} (leaf : ¬n.instr.isCompound = true) : n.operands = [] := by
  cases n with
  | const | param | stray => rfl
  | cond | apply | map | reduce => exact (leaf rfl).elim

theorem closing_unique {m n : Node} {r s : List Char} (instr : m.instr = n.instr)
    (each : ∀ x ∈ m.operands, ∀ y ∈ n.operands, Distinguishes isStop chars x y)
    (same : m.closing ++ r = n.closing ++ s) : m.operands = n.operands ∧ r = s := by
  rw [closing, closing, instr] at same
  split at same
  · rw [List.append_assoc, List.append_assoc] at same
    exact row_unique rfl rfl (by decide) each same
  · rename_i leaf
    rw [operands_eq_nil leaf, operands_eq_nil (instr ▸ leaf)]
    exact ⟨rfl, same⟩

/-- Trees are told apart by their texts, within longer ones as well. -/
theorem distinguishes {m n : Node} (legible : m.Legible) (legible' : n.Legible) :
    Distinguishes isStop chars m n := by
  intro r s ends ends' same
  rw [chars_eq, chars_eq, List.append_assoc, List.append_assoc] at same
  obtain ⟨instr, behind⟩ := Instr.distinguishes legible.instr legible'.instr _ _
    (m.ends_closing ends) (n.ends_closing ends') same
  -- With the same instruction both trees list operands, or neither has any.
  obtain ⟨operands, rest⟩ := closing_unique instr (fun _ mem _ mem' =>
    distinguishes (legible.operand mem) (legible'.operand mem')) behind
  exact ⟨eq_of_instr_of_operands instr operands, rest⟩
termination_by sizeOf m
decreasing_by exact sizeOf_lt_of_mem_operands mem

/-- The texts of trees are unambiguous: trees whose names are legible have the same text only if
    they are the same. -/
theorem text_eq_iff {m n : Node} (legible : m.Legible) (legible' : n.Legible) :
    m.text = n.text ↔ m = n := by
  constructor
  · intro same
    exact (distinguishes legible legible' [] [] .nil .nil (congrArg (·.toList ++ []) same)).1
  · intro same
    rw [same]

/-- A list with two elements is not two arguments. -/
theorem text_eq_iff_list :
    (apply "f" [.const (.list [.integer 1, .integer 2])]).text = "(f [1, 2])" ∧
      (apply "f" [.const (.list [.integer 1]), .const (.integer 2)]).text ≠ "(f [1, 2])" := by
  have legible : (apply "f" [.const (.list [.integer 1, .integer 2])]).Legible :=
    ⟨by decide, trivial, trivial⟩
  have legible' : (apply "f" [.const (.list [.integer 1]), .const (.integer 2)]).Legible :=
    ⟨by decide, trivial, trivial, trivial⟩
  constructor
  · rfl
  · intro same
    cases (text_eq_iff legible' legible).mp same

/-- Without legible names there are different trees with one text. -/
example : (apply "cond" [.param 0, .param 1, .param 2]).text =
    (cond (.param 0) (.param 1) (.param 2)).text := by
  rfl

end Node

end Formulary
