import Formulary.Text.Quoted

/-! # Stray objects

A host can hand over things that mean nothing to rules: a piece of text, nothing at
all, or any other object of its own. They are kept as they are until the place that
must refuse them, so that its message can show them.
-/

namespace Formulary

/-- An object of the host that is neither a value, an instruction nor a node. -/
inductive Stray where
  | text (s : String)
  | nothing
  /-- Any other object, of which messages say its kind and how the host shows it. -/
  | object (kind shown : String)
  deriving Repr, DecidableEq

namespace Stray

/-- The host's name for the kind of object. -/
def kind : Stray → String
  | .text _ => "str"
  | .nothing => "NoneType"
  | .object kind _ => kind

/-- The object as a message shows it. -/
def shown : Stray → String
  | .text s => quoted s
  | .nothing => "None"
  | .object _ shown => shown

end Stray

end Formulary
