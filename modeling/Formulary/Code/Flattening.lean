import Formulary.Code.Instr
import Formulary.Code.Node

/-! # Flattening trees

The code of a tree lists the code of its operands from left to right and then
its own instruction, so that each instruction finds its operands on the stack.
-/

namespace Formulary.Node

mutual

/-- The code of a tree. -/
def flatten : Node → Code
  | .const v => [.const v]
  | .param index => [.param index]
  | .cond test yes no => test.flatten ++ yes.flatten ++ no.flatten ++ [.cond]
  | .apply name arguments => flattenAll arguments ++ [.apply name]
  | .map name list => list.flatten ++ [.map name]
  | .reduce name first list => first.flatten ++ list.flatten ++ [.reduce name]
  | .stray object => [.stray object]

/-- The code of several trees, one after the other. -/
def flattenAll : List Node → Code
  | [] => []
  | n :: ns => n.flatten ++ flattenAll ns

end

end Formulary.Node
