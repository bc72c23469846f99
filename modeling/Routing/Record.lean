import Routing.Json.Reader
import Routing.Json.Value
import Routing.Message
import Routing.Time.Moment
/-!
# Stored messages

A record is a message with the moment at which it was received. It is stored as a JSON object with
the members `received_at` and `fields`; other members are ignored when one is read, and an array of
the two values is read too.
-/

namespace Routing

/-- A message and the moment at which it was received. -/
structure Record where
  receivedAt : Time.Moment
  message : Message
  deriving DecidableEq, Repr

namespace Record

def toJson (r : Record) : String :=
  Json.Value.compact (.object [("received_at", .string r.receivedAt.text),
    ("fields", .object (r.message.fields.map fun (k, v) => (k, .string v)))])

def moment? : Json.Tree → Option Time.Moment
  | .string (some s) => Time.Moment.ofString? s
  | _ => none

/-- A field of a message: its name and its value are strings. -/
def field? : Option String × Json.Tree → Option (String × String)
  | (some k, .string (some v)) => some (k, v)
  | _ => none

/-- The fields of a message in a JSON object. -/
def message? : Json.Tree → Option Message
  | .object members => (members.mapM field?).map Message.ofFields
  | _ => none

/-- The value of the one member with this name. -/
def member? (name : String) (members : List (Option String × Json.Tree)) : Option Json.Tree :=
  match members.filter fun (k, _) => k == some name with
  | [(_, v)] => some v
  | _ => none

def ofTree? : Json.Tree → Option Record
  | .object members => do
    if members.any fun (k, _) => k.isNone then none
    else
      let receivedAt ← moment? (← member? "received_at" members)
      some ⟨receivedAt, ← message? (← member? "fields" members)⟩
  | .array [receivedAt, fields] => do
    some ⟨← moment? receivedAt, ← message? fields⟩
  | _ => none

def ofJson? (s : String) : Option Record := do
  ofTree? (← Json.Tree.ofString? s)

end Record

end Routing
