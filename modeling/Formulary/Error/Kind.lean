import Formulary.Error.Report

/-! # Kinds of errors

Errors come in two families, according to the phase they belong to: defining
functions, or evaluating them. Each kind has a standard report, to which a
particular error adds what it knows.
-/

namespace Formulary

inductive Phase where
  | definition
  | evaluation
  deriving Repr, DecidableEq

inductive ErrorKind where
  | general
  | definition
  | invalidInstructions
  | invalidParameterIndex
  | duplicateFunction
  | undefinedFunction
  | evaluation
  | invalidType
  | invalidParameters
  | unknownFunction
  | runtime
  /-- Raised by the host itself. -/
  | foreign
  deriving Repr, DecidableEq

/-- The family of a kind. The general kind stands above both, and what the host itself raises
    belongs to neither. -/
def ErrorKind.phase? : ErrorKind → Option Phase
  | .general | .foreign => none
  | .definition | .invalidInstructions | .invalidParameterIndex | .duplicateFunction
  | .undefinedFunction => some .definition
  | .evaluation | .invalidType | .invalidParameters | .unknownFunction | .runtime =>
    some .evaluation

namespace Report

def invalidInstructions (message : String := "Invalid instructions") : Report where
  message := message
  suggestion := some
    "Every instruction must find its operands on the stack and exactly one node must remain"

def invalidParameterIndex (index : Int) : Report where
  message := s!"Invalid parameter index: {index}"
  suggestion := some "Parameter indices must be contiguous and start at 0"

def duplicateFunction (name : String) : Report where
  message := s!"Duplicate function: '{name}'"
  context := some "A predefined function with the same parameter types already exists"
  suggestion := some "Use a different name or different parameter types"

def undefinedFunction (name : String) : Report where
  message := s!"Undefined function: '{name}'"

def invalidType (message : String := "Invalid type") : Report where
  message := message

def invalidParameters (message : String := "Invalid parameters") : Report where
  message := message

def unknownFunction (name : String) : Report where
  message := s!"Unknown function: '{name}'"

end Report

/-- The standard report of a kind, about the given name or parameter index where
    the kind is about one. Kinds without a standard message say nothing. -/
def ErrorKind.standard (name : String) (index : Int) : ErrorKind → Report
  | .general | .definition | .evaluation | .runtime | .foreign => { message := "" }
  | .invalidInstructions => Report.invalidInstructions
  | .invalidParameterIndex => Report.invalidParameterIndex index
  | .duplicateFunction => Report.duplicateFunction name
  | .undefinedFunction => Report.undefinedFunction name
  | .invalidType => Report.invalidType
  | .invalidParameters => Report.invalidParameters
  | .unknownFunction => Report.unknownFunction name

end Formulary
