import Routing.Toml.Lexical
/-!
# TOML documents

A document is read line by line into sections: a header and the entries below it. The sections are
then put together one after the other. `extend` and `descend` say which tables a dotted key and a
header may add to: a table is defined once, by a header, by dotted keys or in place.
-/

namespace Routing.Toml

open Reader

/-! ### Putting tables together -/

/-- Changes the entry of a key or makes one; `f` may refuse. -/
def alter (key : String) (f : Option Item → Option Item) : Entries → Option Entries
  | [] => (f none).map fun i => [(key, i)]
  | (k, i) :: rest =>
    if k = key then (f (some i)).map fun j => (k, j) :: rest
    else (alter key f rest).map fun rest => (k, i) :: rest

/-- Changes the entry of a key or makes one, and puts it behind the others; `f` may refuse. -/
def renew (key : String) (f : Option Item → Option Item) (entries : Entries) : Option Entries :=
  (f (entries.lookup key)).map fun i => entries.filter (·.1 ≠ key) ++ [(key, i)]

def alterLast (f : Item → Option Item) : List Item → Option (List Item)
  | [] => none
  | [i] => (f i).map fun j => [j]
  | i :: is => (alterLast f is).map fun is => i :: is

def Item.alterEntries (f : Entries → Option Entries) : Item → Option Item
  | .table origin span entries => (f entries).map fun entries => .table origin span entries
  | _ => none

/-- Adds an entry below the tables that a dotted key names. They are made as needed; the last of
them is one that dotted keys fill. -/
def extend : List String → String → Item → Entries → Option Entries
  | [], key, item => alter key fun
    | none => some item
    | some _ => none
  | k :: path, key, item => alter k fun
    | none => (extend path key item []).map fun entries => .table .dotted none entries
    | some (.table origin span entries) =>
      if origin = .dotted || (origin = .implied && !path.isEmpty) then
        (extend path key item entries).map fun entries => .table origin span entries
      else none
    | some (.tables items) =>
      if path.isEmpty then none
      else (alterLast (Item.alterEntries (extend path key item)) items).map fun items =>
        .tables items
    | some _ => none

/-- Changes the table that a header names. The tables above it are made as needed; in an array of
tables the last one is meant. -/
def descend (f : Entries → Option Entries) : List String → Entries → Option Entries
  | [] => f
  | k :: path => alter k fun
    | none => (descend f path []).map fun entries => .table .implied none entries
    | some (.table origin span entries) =>
      if origin = .inline then none
      else (descend f path entries).map fun entries => .table origin span entries
    | some (.tables items) =>
      (alterLast (Item.alterEntries (descend f path)) items).map fun items => .tables items
    | some _ => none

/-- A key and its value. -/
structure Entry where
  path : List String
  key : String
  item : Item

def fill (added : List Entry) (entries : Entries) : Option Entries :=
  added.foldlM (fun entries e => extend e.path e.key e.item entries) entries

/-- The header of a section. -/
structure Header where
  repeated : Bool
  path : List String
  key : String
  span : Span

/-- A header and the entries below it. -/
structure Section where
  header : Header
  entries : List Entry

/-- The bytes of a section: from its header to the last value. -/
def Section.span (s : Section) : Span :=
  match s.entries.getLast? with
  | some e => ⟨s.header.span.start, ((e.item.span?).getD s.header.span).stop⟩
  | none => s.header.span

/-- Adds a section to a document. A table that was only implied so far takes its place among the
entries beside it when its own header comes. -/
def Section.addTo (s : Section) : Entries → Option Entries :=
  let table (entries : Entries) : Option Item :=
    (fill s.entries entries).map fun entries => .table .header (some s.span) entries
  descend (if s.header.repeated then alter s.header.key fun
      | none => (table []).map fun t => .tables [t]
      | some (.tables items) => (table []).map fun t => .tables (items ++ [t])
      | some _ => none
    else renew s.header.key fun
      | none => table []
      | some (.table .implied _ entries) => table entries
      | some _ => none) s.header.path

/-! ### Values -/

/-- A key, an equals sign and a value. -/
def entry (value : Reader Item) : Reader Entry := do
  let (path, k) ← key
  char '='
  blanks
  return ⟨path, k, ← value⟩

/-- The items of an array, with a comma after the last one or not. -/
def arrayItems (value : Reader Item) : Reader (List Item) := do
  let item : Reader Item := do
    gap
    let i ← value
    gap
    return i
  match ← optional item with
  | none => do gap; return []
  | some first => do
    let others ← many (do char ','; item)
    let _ ← optional (char ',')
    gap
    return first :: others

def inlineEntries (value : Reader Item) : Reader (List Entry) := do
  let one : Reader Entry := do
    let e ← entry value
    blanks
    return e
  match ← optional one with
  | none => do blanks; return []
  | some first => return first :: (← many (do char ','; one))

def array (value : Reader Item) : Reader Item := do
  let (items, start, stop) ← located do
    char '['
    let items ← arrayItems value
    char ']'
    return items
  return .array ⟨start, stop⟩ items

def inlineTable (value : Reader Item) : Reader Item := do
  let (entries, start, stop) ← located do
    char '{'
    let entries ← inlineEntries value
    char '}'
    return entries
  match fill entries [] with
  | some entries => return .table .inline (some ⟨start, stop⟩) entries
  | none => failure

/-- A value; arrays and inline tables are nested at most so deep. -/
def value : Nat → Reader Item
  | 0 => leaf
  | depth + 1 => do
    match ← peek with
    | some '[' => array (value depth)
    | some '{' => inlineTable (value depth)
    | _ => leaf
where
  leaf : Reader Item := do
    let (v, start, stop) ← located scalar
    return .scalar ⟨start, stop⟩ v

/-! ### Lines -/

/-- A line of a document. -/
inductive Line where
  | blank
  | entry (e : Entry)
  | header (h : Header)

def headerIn (brackets : List Char × List Char) (repeated : Bool) : Reader Line := do
  let ((path, k), start, stop) ← located do
    chars brackets.1
    let k ← key
    chars brackets.2
    return k
  lineEnd
  return .header ⟨repeated, path, k, ⟨start, stop⟩⟩

def line : Reader Line := do
  blanks
  match ← lookahead with
  | [] => failure
  | '#' :: _ => do comment; newline <|> finish; return .blank
  | '\n' :: _ => do newline; return .blank
  | '\r' :: _ => do newline; return .blank
  | '[' :: '[' :: _ => headerIn (['[', '['], [']', ']']) true
  | '[' :: _ => headerIn (['['], [']']) false
  | _ => do
    let e ← entry (value (depthLimit - 1))
    lineEnd
    return .entry e

/-- The entries before the first header, and the sections after them, each with the entries that
the lines give it. -/
def sections : List Line → List Entry × List Section
  | [] => ([], [])
  | .blank :: rest => sections rest
  | .entry e :: rest => let (entries, others) := sections rest; (e :: entries, others)
  | .header h :: rest => let (entries, others) := sections rest; ([], ⟨h, entries⟩ :: others)

/-- The mark of a byte order at the start of a document. -/
def byteOrderMark : Char := Char.ofNat 0xFEFF

def lines : Reader (List Line) := do
  let _ ← optional (char byteOrderMark)
  let lines ← many line
  blanks
  finish
  return lines

def lines? (text : String) : Option (List Line) :=
  (lines.run ⟨text.toList, 0⟩).map (·.1)

def parse? (text : String) : Option Entries := do
  let (entries, others) := sections (← lines? text)
  let root ← fill entries []
  others.foldlM (fun root s => s.addTo root) root

end Routing.Toml
