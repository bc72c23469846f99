/-!
# JSON values and their text

A value keeps the members of an object in the order in which they are written. `pretty` indents by
two blanks; `compact` writes no blanks at all.
-/

namespace Routing.Json

/-- A JSON value as this library writes it. -/
inductive Value where
  | null
  | number (n : Nat)
  | string (s : String)
  | array (items : List Value)
  | object (members : List (String × Value))

def escapedChar (c : Char) : List Char :=
  if c = '"' then ['\\', '"']
  else if c = '\\' then ['\\', '\\']
  else if c = '\n' then ['\\', 'n']
  else if c = '\r' then ['\\', 'r']
  else if c = '\t' then ['\\', 't']
  else if c.toNat = 8 then ['\\', 'b']
  else if c.toNat = 12 then ['\\', 'f']
  else if c.toNat < 32 then
    ['\\', 'u', '0', '0', Nat.digitChar (c.toNat / 16), Nat.digitChar (c.toNat % 16)]
  else [c]

def quote (s : String) : String :=
  String.ofList ('"' :: s.toList.flatMap escapedChar ++ ['"'])

/-- A line break and the indentation of a level. -/
def newline (level : Nat) : String :=
  "\n" ++ String.ofList (List.replicate (2 * level) ' ')

mutual

/-- The text of a value that stands at an indentation level. -/
def Value.prettyAt (level : Nat) : Value → String
  | .null => "null"
  | .number n => toString n
  | .string s => quote s
  | .array [] => "[]"
  | .array (v :: vs) =>
    "[" ++ newline (level + 1) ++ v.prettyAt (level + 1) ++ prettyItems (level + 1) vs ++
      newline level ++ "]"
  | .object [] => "\x7b\x7d"
  | .object ((k, v) :: ms) =>
    "\x7b" ++ newline (level + 1) ++ quote k ++ ": " ++ v.prettyAt (level + 1) ++
      prettyMembers (level + 1) ms ++ newline level ++ "\x7d"

/-- The items after the first one, each after a comma. -/
def prettyItems (level : Nat) : List Value → String
  | [] => ""
  | v :: vs => "," ++ newline level ++ v.prettyAt level ++ prettyItems level vs

/-- The members after the first one, each after a comma. -/
def prettyMembers (level : Nat) : List (String × Value) → String
  | [] => ""
  | (k, v) :: ms =>
    "," ++ newline level ++ quote k ++ ": " ++ v.prettyAt level ++ prettyMembers level ms

end

/-- The text of a value over several lines. -/
def Value.pretty (v : Value) : String :=
  v.prettyAt 0

mutual

/-- The text of a value on one line, without blanks. -/
def Value.compact : Value → String
  | .null => "null"
  | .number n => toString n
  | .string s => quote s
  | .array [] => "[]"
  | .array (v :: vs) => "[" ++ v.compact ++ compactItems vs ++ "]"
  | .object [] => "\x7b\x7d"
  | .object ((k, v) :: ms) =>
    "\x7b" ++ quote k ++ ":" ++ v.compact ++ compactMembers ms ++ "\x7d"

def compactItems : List Value → String
  | [] => ""
  | v :: vs => "," ++ v.compact ++ compactItems vs

def compactMembers : List (String × Value) → String
  | [] => ""
  | (k, v) :: ms => "," ++ quote k ++ ":" ++ v.compact ++ compactMembers ms

end

end Routing.Json
