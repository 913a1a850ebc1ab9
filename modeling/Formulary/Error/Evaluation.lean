import Formulary.Code.ListOperator
import Formulary.Error.Kind
import Formulary.Primitive.Arithmetic
import Formulary.Signature
import Formulary.Value.Stray

/-! # Errors of evaluation

What can go wrong while host data is converted and while functions are
evaluated. Next to the errors that belong to rules there are faults of the host
that nobody catches.
-/

namespace Formulary

inductive EvalError where
  /-- Host data holds an integer that does not fit 64 bits. -/
  | integerOutOfRange (n : Int)
  /-- Host data holds an object that no value stands for. -/
  | notConvertible (object : Stray)
  | conditionNotBoolean (test : Value)
  | operandNotList (operator : ListOperator) (operand : Value)
  /-- A predefined function got an argument that is not a number. -/
  | notReal (function : String) (argument : Value)
  | notInteger (function : String) (argument : Value)
  | parameterOutOfRange (index : Int) (available : Nat)
  | strayNode (object : Stray)
  /-- No overload of the callee's name takes so many arguments. -/
  | unsuitableCall (callee : Signature) (given : Nat)
  /-- A function was entered with a wrong number of arguments. -/
  | wrongArgumentCount (callee : Signature) (arguments : List Value)
  /-- A call from outside names a function that no overload fits. -/
  | noOverload (name : String) (given : Nat) (overloads : List Signature)
  | unknownFunction (name : String)
  /-- A list operation names a function without an overload for it. -/
  | unknownOperator (name : String) (operator : ListOperator)
  /-- The function has been announced but does not have a body yet. -/
  | unfinished (name : String)
  /-- A host function gave up. -/
  | hostFailure (message : String)
  /-- Arithmetic of the host raised a fault that no guard caught. -/
  | fault (cause : Fault)
  /-- An object of the host was asked for what only values have. -/
  | missingAttribute (kind wanted : String)

namespace EvalError

def kind : EvalError → ErrorKind
  | .integerOutOfRange .. | .notConvertible .. | .conditionNotBoolean .. | .operandNotList ..
  | .notReal .. | .notInteger .. => .invalidType
  | .parameterOutOfRange .. | .strayNode .. | .unsuitableCall .. | .wrongArgumentCount ..
  | .noOverload .. => .invalidParameters
  | .unknownFunction .. | .unknownOperator .. | .unfinished .. => .unknownFunction
  | .hostFailure .. => .runtime
  | .fault .. | .missingAttribute .. => .foreign

/-- The function name that could not be resolved. -/
def name? : EvalError → Option String
  | .unknownFunction name | .unknownOperator name _ | .unfinished name => some name
  | _ => none

/-- Number of binary digits of an integer's absolute value. -/
def bitLength (n : Int) : Nat :=
  if n = 0 then 0 else Nat.log2 n.natAbs + 1

/-- Arguments as a message lists them. -/
def argumentsText (arguments : List Value) : String :=
  if arguments.isEmpty then "(none)" else ", ".intercalate (Value.texts arguments)

def arityMessage (callee : Signature) (given : Nat) : String :=
  s!"Function '{callee.name}' expects {callee.arity} arguments, got {given}"

def report : EvalError → Report
  | .integerOutOfRange n =>
    { message := "Integer out of range"
      received := some s!"An integer of {bitLength n} bits"
      expected := some s!"An integer between {leastInteger} and {greatestInteger}"
      suggestion := some "Use a float for values outside the 64-bit integer range" }
  | .notConvertible object =>
    { message := s!"Cannot convert Python value of type {object.kind}"
      received := some object.shown
      expected := some "bool, int, float, or a list of these" }
  | .conditionNotBoolean test =>
    { message := "Condition test must be a boolean"
      received := some test.textWithType
      expected := some "boolean"
      suggestion := some "Use a comparison such as <=, == or >= as the test" }
  | .operandNotList operator operand =>
    { message := s!"The {operator.text} operand must be a list"
      received := some operand.textWithType
      expected := some "list" }
  | .notReal function argument =>
    { message := s!"Function '{function}' requires real arguments"
      received := some argument.textWithType
      expected := some "real or integer" }
  | .notInteger function argument =>
    { message := s!"Function '{function}' requires an integer argument"
      received := some argument.textWithType
      expected := some "integer" }
  | .parameterOutOfRange index available =>
    { message := s!"Parameter index ${index} is out of range"
      received := some s!"{available} parameters" }
  | .strayNode object =>
    { message := s!"Invalid node type: {object.kind}"
      expected := some "Constant, parameter, condition, apply, map or reduce node" }
  | .unsuitableCall callee given =>
    { message := arityMessage callee given
      expected := some s!"Parameters: {callee.parametersText}" }
  | .wrongArgumentCount callee arguments =>
    { message := arityMessage callee arguments.length
      expected := some s!"Parameters: {callee.parametersText}"
      received := some s!"Arguments: {argumentsText arguments}" }
  | .noOverload name given overloads =>
    { message := s!"No overload of '{name}' takes {given} arguments"
      expected := some (" or ".intercalate (overloads.map Signature.text)) }
  | .unknownFunction name => Report.unknownFunction name
  | .unknownOperator name operator =>
    { Report.unknownFunction name with
      expected := some operator.requirement }
  | .unfinished name =>
    { Report.unknownFunction name with
      context := some "Function is still being defined" }
  | .hostFailure message => { message := message }
  | .fault cause => { message := cause.text }
  | .missingAttribute kind wanted =>
    { message := s!"'{kind}' object has no attribute '{wanted}'" }

end EvalError

end Formulary
