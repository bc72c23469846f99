import Routing.Template
/-!
# The `set` rewrite

Gives a field the text of a template.
-/

namespace Routing

/-- An assignment to a field. -/
structure Assign where
  field : String
  template : Template
  deriving DecidableEq, Repr

namespace Assign

def label (a : Assign) : String :=
  "set(" ++ a.field ++ "=" ++ a.template.name ++ ")"

def apply (a : Assign) (message : Message) : Message :=
  message.set a.field (a.template.expand message.get?)

end Assign

end Routing
