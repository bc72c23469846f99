/-!
# Reading JSON

`Tree.ofString?` accepts exactly the JSON texts of RFC 8259. Numbers are checked and forgotten, as
nothing that is read here holds one. A string with half of a surrogate pair is well formed but has
no text.
-/

namespace Routing.Json

/-- A JSON text taken apart. -/
inductive Tree where
  | null
  | bool (b : Bool)
  | number
  | string (text : Option String)
  | array (items : List Tree)
  | object (members : List (Option String × Tree))

/-- A step of the reader: what it has read and what follows. -/
abbrev Step (α : Type) := List Char → Option (α × List Char)

def skipBlanks (s : List Char) : List Char :=
  s.dropWhile fun c => c = ' ' || c = '\n' || c = '\t' || c = '\r'

def hexDigit? (c : Char) : Option Nat :=
  if '0' ≤ c && c ≤ '9' then some (c.toNat - 48)
  else if 'a' ≤ c && c ≤ 'f' then some (c.toNat - 87)
  else if 'A' ≤ c && c ≤ 'F' then some (c.toNat - 55)
  else none

def hexUnit? : Step Nat
  | a :: b :: c :: d :: rest => do
    let a ← hexDigit? a
    let b ← hexDigit? b
    let c ← hexDigit? c
    let d ← hexDigit? d
    some (((a * 16 + b) * 16 + c) * 16 + d, rest)
  | _ => none

/-- One unit of a string: a character, or half of a surrogate pair. -/
inductive Unit16 where
  | char (c : Char)
  | lead (n : Nat)
  | trail (n : Nat)

def Unit16.ofNat (n : Nat) : Unit16 :=
  if 0xD800 ≤ n && n < 0xDC00 then .lead (n - 0xD800)
  else if 0xDC00 ≤ n && n < 0xE000 then .trail (n - 0xDC00)
  else .char (Char.ofNat n)

/-- The character of an escape after the backslash. -/
def escape? : Step Unit16
  | '"' :: rest => some (.char '"', rest)
  | '\\' :: rest => some (.char '\\', rest)
  | '/' :: rest => some (.char '/', rest)
  | 'b' :: rest => some (.char (Char.ofNat 8), rest)
  | 'f' :: rest => some (.char (Char.ofNat 12), rest)
  | 'n' :: rest => some (.char '\n', rest)
  | 'r' :: rest => some (.char '\r', rest)
  | 't' :: rest => some (.char '\t', rest)
  | 'u' :: rest => (hexUnit? rest).map fun (n, rest) => (Unit16.ofNat n, rest)
  | _ => none

/-- The units of a string up to its closing quote, at most one for each character of a budget. -/
def units? : List Char → Step (List Unit16)
  | [], _ => none
  | _ :: _, [] => none
  | _ :: budget, c :: rest =>
    if c = '"' then some ([], rest)
    else if c.toNat < 32 then none
    else do
      let (unit, rest) ← if c = '\\' then escape? rest else some (.char c, rest)
      let (units, rest) ← units? budget rest
      some (unit :: units, rest)

/-- The text of units, if their surrogates come in pairs. -/
def textOf? : List Unit16 → Option (List Char)
  | [] => some []
  | .char c :: rest => (textOf? rest).map (c :: ·)
  | .lead a :: .trail b :: rest =>
    (textOf? rest).map (Char.ofNat (0x10000 + a * 1024 + b) :: ·)
  | _ => none

def string? (s : List Char) : Option (Option String × List Char) :=
  (units? s s).map fun (units, rest) => ((textOf? units).map String.ofList, rest)

def digits? (s : List Char) : Option (List Char) :=
  match s with
  | c :: rest => if c.isDigit then some (rest.dropWhile Char.isDigit) else none
  | [] => none

def number? (s : List Char) : Option (List Char) := do
  let s := match s with
    | '-' :: rest => rest
    | _ => s
  let s ← match s with
    | '0' :: rest => some rest
    | _ => digits? s
  let s ← match s with
    | '.' :: rest => digits? rest
    | _ => some s
  match s with
  | c :: rest =>
    if c = 'e' || c = 'E' then
      match rest with
      | '+' :: rest => digits? rest
      | '-' :: rest => digits? rest
      | _ => digits? rest
    else some s
  | [] => some s

/-- Items up to the closing bracket, each read by `item`, at most one for each character of a
budget; the first one has been read. -/
def more? {α : Type} (close : Char) (item : Step α) : List Char → Step (List α)
  | [], _ => none
  | _ :: budget, s =>
    match skipBlanks s with
    | [] => none
    | c :: rest =>
      if c = close then some ([], rest)
      else if c = ',' then do
        let (a, rest) ← item (skipBlanks rest)
        let (as, rest) ← more? close item budget rest
        some (a :: as, rest)
      else none

def items? {α : Type} (close : Char) (item : Step α) (s : List Char) : Option (List α × List Char) :=
  match skipBlanks s with
  | [] => none
  | c :: rest =>
    if c = close then some ([], rest)
    else do
      let (a, rest) ← item (c :: rest)
      let (as, rest) ← more? close item rest rest
      some (a :: as, rest)

def member? {α : Type} (value : Step α) : Step (Option String × α)
  | '"' :: rest => do
    let (key, rest) ← string? rest
    match skipBlanks rest with
    | ':' :: rest =>
      let (v, rest) ← value (skipBlanks rest)
      some ((key, v), rest)
    | _ => none
  | _ => none

/-- A value that is nested no deeper than the fuel. -/
def tree? : Nat → Step Tree
  | 0, _ => none
  | fuel + 1, s =>
    match s with
    | 'n' :: 'u' :: 'l' :: 'l' :: rest => some (.null, rest)
    | 't' :: 'r' :: 'u' :: 'e' :: rest => some (.bool true, rest)
    | 'f' :: 'a' :: 'l' :: 's' :: 'e' :: rest => some (.bool false, rest)
    | '"' :: rest => (string? rest).map fun (text, rest) => (.string text, rest)
    | '[' :: rest => (items? ']' (tree? fuel) rest).map fun (items, rest) => (.array items, rest)
    | '{' :: rest =>
      (items? '}' (member? (tree? fuel)) rest).map fun (members, rest) => (.object members, rest)
    | _ => (number? s).map fun rest => (.number, rest)

def Tree.ofString? (s : String) : Option Tree :=
  let chars := s.toList
  match tree? (chars.length + 1) (skipBlanks chars) with
  | some (tree, rest) => if (skipBlanks rest).isEmpty then some tree else none
  | none => none

end Routing.Json
