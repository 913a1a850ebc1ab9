import Formulary.Value.Basic
import Formulary.Value.Stray

/-! # Instructions

The flat form of a rule: instructions in postfix order over a stack of
operands. Constants and parameters push one; every other instruction takes
operands off the stack and pushes its result.
-/

namespace Formulary

inductive Instr where
  | const (v : Value)
  | param (index : Int)
  /-- Takes a test and two branches. -/
  | cond
  /-- Takes as many operands as the named function has parameters. -/
  | apply (name : String)
  /-- Takes a list and calls the named function with each element. -/
  | map (name : String)
  /-- Takes a first value and a list and folds the named function over it. -/
  | reduce (name : String)
  /-- An object that is no instruction. -/
  | stray (object : Stray)

/-- A rule as its author writes it. -/
abbrev Code := List Instr

/-- The text of an instruction. -/
def Instr.text : Instr → String
  | .const v => s!"const {v.text}"
  | .param index => s!"param ${index}"
  | .cond => "cond"
  | .apply name => s!"apply {name}"
  | .map name => s!"map {name}"
  | .reduce name => s!"reduce {name}"
  | .stray object => object.shown

end Formulary
