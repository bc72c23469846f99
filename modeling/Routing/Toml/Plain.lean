import Routing.Toml.Lexical
/-!
# What items stand for

`Item.value?` leaves out where a value stands in its document. A table with one entry under the key
`dateKey` is another way to write a date or time; a table that starts with this key and is none has
no value.
-/

namespace Routing.Toml

/-- The key of a table that stands for a date or time. -/
def dateKey : String := "$__toml_private_datetime"

/-- The table stands for a date or time: this is told by its first key. -/
def isDate : Entries → Bool
  | (k, _) :: _ => k = dateKey
  | [] => false

/-- The date or time in the only entry of a table. -/
def dateOf? : Entries → Option DateTime
  | [(_, .scalar _ (.string s))] => DateTime.ofString? s
  | _ => none

mutual

def Item.value? : Item → Option Value
  | .scalar _ v => some v
  | .array _ items => do return .array (← values? items)
  | .tables items => do return .array (← values? items)
  | .table _ _ entries =>
    if isDate entries then do return .datetime (← dateOf? entries)
    else do return .table (← namedValues? entries)

def values? : List Item → Option (List Value)
  | [] => some []
  | i :: is => do return (← i.value?) :: (← values? is)

def namedValues? : Entries → Option (List (String × Value))
  | [] => some []
  | (k, i) :: is => do return (k, ← i.value?) :: (← namedValues? is)

end

end Routing.Toml
