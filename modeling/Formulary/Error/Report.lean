/-! # Reports

Every error is shown in the same form: what went wrong, and as many further
lines as there is something to say on.
-/

namespace Formulary

structure Report where
  message : String
  received : Option String := none
  expected : Option String := none
  context : Option String := none
  suggestion : Option String := none
  usage : Option String := none
  deriving Repr, DecidableEq

namespace Report

/-- A labelled line, left out when there is nothing to say. -/
def line (label : String) : Option String → List String
  | none => []
  | some said => if said.isEmpty then [] else [s!"{label}: {said}"]

def lines (r : Report) : List String :=
  s!"Error: {r.message}" ::
    (line "Received" r.received ++ line "Expected" r.expected ++ line "Context" r.context ++
      line "Suggestion" r.suggestion ++ line "Example" r.usage)

def text (r : Report) : String :=
  "\n".intercalate r.lines

end Report

/-- Parts that are given for a report by hand. A part with `none` is not given;
    one with `some none` is given as missing. -/
structure Amendment where
  message : Option String := none
  received : Option (Option String) := none
  expected : Option (Option String) := none
  context : Option (Option String) := none
  suggestion : Option (Option String) := none
  usage : Option (Option String) := none
  deriving Repr, DecidableEq

/-- A report with the given parts in place of its own. -/
def Report.amend (r : Report) (given : Amendment) : Report where
  message := given.message.getD r.message
  received := given.received.getD r.received
  expected := given.expected.getD r.expected
  context := given.context.getD r.context
  suggestion := given.suggestion.getD r.suggestion
  usage := given.usage.getD r.usage

end Formulary
