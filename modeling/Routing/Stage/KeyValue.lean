import Routing.Message
import Routing.Text.Blank
/-!
# The `kv` parser

Takes pairs of a key and a value out of a field. The pairs stand between blanks; words without the
separator or without a key are skipped, and double quotes around a value are left out.
-/

namespace Routing

/-- A parser of pairs. -/
structure KeyValue where
  field : String := Message.textField
  separator : Char := '='
  /-- Put in front of every key. -/
  lead : String := ""
  deriving DecidableEq, Repr

namespace KeyValue

def pair? (kv : KeyValue) (word : List Char) : Option (String × String) :=
  match Text.splitOnce kv.separator word with
  | some (key, value) =>
    if key.isEmpty then none
    else some (kv.lead ++ String.ofList key, String.ofList (Text.trimMatches '"' value))
  | none => none

def parse (kv : KeyValue) (text : String) : List (String × String) :=
  (Text.words text.toList).filterMap kv.pair?

def label (kv : KeyValue) : String :=
  "kv(" ++ kv.field ++ ")"

/-- The message with the pairs of its field as fields. -/
def apply (kv : KeyValue) (message : Message) : Message :=
  match message.get? kv.field with
  | some text => (kv.parse text).foldl (fun m (k, v) => m.set k v) message
  | none => message

end KeyValue

end Routing
