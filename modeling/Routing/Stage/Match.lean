import Routing.Message
import Routing.Text.Blank
/-!
# The `match` filter

Passes the messages whose field holds a text somewhere, or, inverted, those whose field does not.
The empty text passes everything.
-/

namespace Routing

/-- A filter on a field. -/
structure Match where
  field : String
  value : String
  invert : Bool := false
  deriving DecidableEq, Repr

namespace Match

def onText (value : String) : Match :=
  { field := Message.textField, value }

def passesAll (m : Match) : Bool :=
  m.value.isEmpty

/-- Whether the field of a message holds the text. -/
def found (m : Match) (message : Message) : Bool :=
  match message.get? m.field with
  | some text => Text.occursIn m.value.toList text.toList
  | none => false

def accepts (m : Match) (message : Message) : Bool :=
  m.passesAll || m.found message != m.invert

def label (m : Match) : String :=
  "match(" ++ m.field ++ (if m.invert then " !~ '" else " ~ '") ++ m.value ++ "')"

def verdict (m : Match) (message : Message) : Verdict :=
  if m.accepts message then .forward else .drop

end Match

end Routing
