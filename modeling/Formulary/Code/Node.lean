import Formulary.Value.Basic
import Formulary.Value.Stray

/-! # Trees

The nested form of a rule, in which every operand has found its place. Function
names stay names: they are resolved when the tree is evaluated, which is what
lets a function call itself.
-/

namespace Formulary

inductive Node where
  | const (v : Value)
  | param (index : Int)
  | cond (test yes no : Node)
  | apply (name : String) (arguments : List Node)
  | map (name : String) (list : Node)
  | reduce (name : String) (first list : Node)
  /-- An object that is no node. -/
  | stray (object : Stray)

namespace Node

/-- The trees right under a tree, from left to right. -/
def operands : Node → List Node
  | .const _ | .param _ | .stray _ => []
  | .cond test yes no => [test, yes, no]
  | .apply _ arguments => arguments
  | .map _ list => [list]
  | .reduce _ first list => [first, list]

/-- Whether a tree has at most so many levels. -/
def nestsWithin : Nat → Node → Bool
  | 0, _ => false
  | levels + 1, n => n.operands.all (nestsWithin levels)

mutual

/-- The text of a tree, operator first. -/
def text : Node → String
  | .const v => v.text
  | .param index => "$" ++ toString index
  | .cond test yes no => "(cond " ++ test.text ++ " " ++ yes.text ++ " " ++ no.text ++ ")"
  | .apply name arguments => "(" ++ name ++ spaced arguments ++ ")"
  | .map name list => "(map \"" ++ name ++ "\" " ++ list.text ++ ")"
  | .reduce name first list =>
    "(reduce \"" ++ name ++ "\" " ++ first.text ++ " " ++ list.text ++ ")"
  | .stray object => object.shown

/-- The texts of several trees, each behind a space. -/
def spaced : List Node → String
  | [] => ""
  | n :: ns => " " ++ n.text ++ spaced ns

end

end Node

end Formulary
