import Formulary.Code.Instr
import Formulary.Code.ListOperator
import Formulary.Error.Kind
import Formulary.Signature

/-! # Errors of definition

What can go wrong while code is turned into a function and while a function is
registered. The host itself breaks off where it would have to write the text of a tree
that is nested too deeply.
-/

namespace Formulary

inductive DefinitionError where
  /-- A predefined function already has the name and the parameter types. -/
  | duplicate (rejected existing : Signature)
  /-- No function has the name that the instruction at the position calls. -/
  | undefinedCallee (position : Nat) (instr : Instr) (name : String)
  /-- No function of that name has the number of parameters that the list
      operation at the position needs. -/
  | undefinedOperand (position : Nat) (instr : Instr) (name : String) (operator : ListOperator)
  | missingOperands (position : Nat) (instr : Instr) (needed available : Nat)
  | strayInstruction (position : Nat) (object : Stray)
  /-- The code leaves no operand on the stack, or more than one. -/
  | unbalanced (left : Nat)
  /-- A parameter index is negative or leaves a gap below it. -/
  | parameterIndex (index : Int) (referenced : List Int)
  /-- A recursive definition refers to a number of parameters that it did not
      declare. -/
  | undeclaredArity (name : String) (declared : Int) (referenced : Nat)
  /-- The tree is nested too deeply for the host to write its text. -/
  | tooDeep

namespace DefinitionError

def kind : DefinitionError → ErrorKind
  | .duplicate .. => .duplicateFunction
  | .undefinedCallee .. | .undefinedOperand .. => .undefinedFunction
  | .missingOperands .. | .strayInstruction .. | .unbalanced .. | .undeclaredArity .. =>
    .invalidInstructions
  | .parameterIndex .. => .invalidParameterIndex
  | .tooDeep => .foreign

/-- The function name that an error is about. -/
def name? : DefinitionError → Option String
  | .duplicate rejected _ => some rejected.name
  | .undefinedCallee _ _ name | .undefinedOperand _ _ name _ => some name
  | _ => none

/-- The parameter index that an error is about. -/
def index? : DefinitionError → Option Int
  | .parameterIndex index _ => some index
  | _ => none

/-- Where in the code an error was found. -/
def place (position : Nat) (instr : Instr) : String :=
  s!"Instruction {position}: {instr.text}"

/-- Integers between brackets, smallest first. -/
def sortedText (ns : List Int) : String :=
  "[" ++ ", ".intercalate ((ns.mergeSort (· ≤ ·)).map toString) ++ "]"

def report : DefinitionError → Report
  | .duplicate rejected existing =>
    { Report.duplicateFunction rejected.name with
      received := some rejected.text
      expected := some s!"Parameter types other than those of {existing.text}" }
  | .undefinedCallee position instr name =>
    { Report.undefinedFunction name with
      context := some (place position instr)
      suggestion := some "Register the function before building code that calls it" }
  | .undefinedOperand position instr name operator =>
    { Report.undefinedFunction name with
      context := some (place position instr)
      expected := some operator.requirement }
  | .missingOperands position instr needed available =>
    { Report.invalidInstructions
        s!"Not enough operands for instruction {position}: {instr.text}" with
      expected := some s!"{needed} operands"
      received := some s!"{available} operands" }
  | .strayInstruction position object =>
    Report.invalidInstructions s!"Unknown instruction at position {position}: {object.shown}"
  | .unbalanced left =>
    { Report.invalidInstructions "Instructions must reduce to exactly one expression" with
      received := some s!"{left} expressions left on the stack" }
  | .parameterIndex index referenced =>
    { Report.invalidParameterIndex index with
      received := some s!"Referenced parameter indices: {sortedText referenced}" }
  | .undeclaredArity name declared referenced =>
    { Report.invalidInstructions
        s!"Function '{name}' was declared with {declared} parameters" with
      received := some s!"Instructions reference {referenced} parameters" }
  | .tooDeep => { message := "maximum recursion depth exceeded" }

end DefinitionError

end Formulary
