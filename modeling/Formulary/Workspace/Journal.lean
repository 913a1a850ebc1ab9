import Formulary.Code.Node
import Formulary.Signature

/-! # The journal

Everything that changes a library, or tries to, leaves a record.
-/

namespace Formulary

/-- How much attention a record asks for. -/
inductive Severity where
  | debug
  | warning
  deriving Repr, DecidableEq

def Severity.text : Severity → String
  | .debug => "DEBUG"
  | .warning => "WARNING"

/-- The part of a workspace that writes a record. -/
inductive Scribe where
  | workspace
  | library
  | builder
  deriving Repr, DecidableEq

inductive Record where
  | registered (s : Signature)
  | replaced (s : Signature)
  | rejected (offered existing : Signature)
  | unregistered (s : Signature)
  | built (s : Signature) (root : Node)
  | defined (s : Signature)
  | definedRecursive (s : Signature)

namespace Record

def severity : Record → Severity
  | rejected .. => .warning
  | _ => .debug

def scribe : Record → Scribe
  | registered _ | replaced _ | rejected .. | unregistered _ => .library
  | built .. => .builder
  | defined _ | definedRecursive _ => .workspace

def text : Record → String
  | registered s => s!"Registered function {s.text}"
  | replaced s => s!"Replaced function {s.text}"
  | rejected offered existing =>
    s!"Rejected registration of '{offered.name}': predefined overload {existing.text} exists"
  | unregistered s => s!"Unregistered function {s.text}"
  | built s root => s!"Built function {s.text} = {root.text}"
  | defined s => s!"Defined {s.text}"
  | definedRecursive s => s!"Defined recursive {s.text}"

end Record

end Formulary
