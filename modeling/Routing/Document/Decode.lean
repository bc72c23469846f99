import Routing.Document.Basic
import Routing.Toml.Document
import Routing.Toml.Plain
/-!
# Reading route documents

A route document is a TOML document with a fixed scheme. A structure may be written as a table,
without other keys than its own, or as an array of its values in order; a name from a fixed list
as a string, or as a table with that name as its only key and nothing below it. Only driver entries
take keys of all names.
-/

namespace Routing

open Toml (Item)

namespace Document

/-! ### Values -/

def string? : Item → Option String
  | .scalar _ (.string s) => some s
  | _ => none

def name? : Item → Option (Spanned String)
  | .scalar span (.string s) => some ⟨s, span⟩
  | _ => none

def natural? : Item → Option Nat
  | .scalar _ (.integer n) => if 0 ≤ n then some n.toNat else none
  | _ => none

def items? : Item → Option (List Item)
  | .array _ items => some items
  | .tables items => some items
  | _ => none

/-- Nothing: an empty table or an empty array. -/
def isNothing : Item → Bool
  | .table _ _ entries => entries.isEmpty
  | .array _ items => items.isEmpty
  | .tables items => items.isEmpty
  | .scalar _ _ => false

def choice? {α : Type} (ofName? : String → Option α) : Item → Option α
  | .scalar _ (.string s) => ofName? s
  | .table _ _ [(k, i)] => if isNothing i then ofName? k else none
  | _ => none

/-- The values of a structure with these fields, those that are left out being missing. -/
def fields? (names : List String) : Item → Option (List (Option Item))
  | .table _ _ entries =>
    if entries.all fun (k, _) => names.contains k then
      some (names.map fun name => entries.lookup name)
    else none
  | .array _ items => some (positions items)
  | .tables items => some (positions items)
  | .scalar _ _ => none
where
  positions (items : List Item) : List (Option Item) :=
    names.zipIdx.map fun (_, i) => items[i]?

def optional? {α : Type} (read : Item → Option α) (default : α) : Option Item → Option α
  | none => some default
  | some i => read i

/-- The values of an array, each read by `read`. -/
def list? {α : Type} (read : Item → Option α) (i : Item) : Option (List α) := do
  (← items? i).mapM read

/-! ### Parts of a document -/

def settings? (i : Item) : Option Settings := do
  match ← fields? ["mark_freq_secs", "flush_lines", "time_reopen_secs", "catch_all_order"] i with
  | [mark, flush, reopen, order] =>
    let initial : Settings := {}
    let markSeconds ← optional? natural? initial.markSeconds mark
    let flushLines ← optional? natural? initial.flushLines flush
    let reopenSeconds ← optional? natural? initial.reopenSeconds reopen
    let sourceOrder ← optional? (choice? SourceOrder.ofName?) initial.sourceOrder order
    return { markSeconds, flushLines, reopenSeconds, sourceOrder }
  | _ => none

def template? (i : Item) : Option TemplateEntry := do
  match ← fields? ["name", "template"] i with
  | [some name, some body] => return ⟨← string? name, ← string? body⟩
  | _ => none

/-- A driver entry: all keys but that of the driver are options. -/
def driver? : Item → Option DriverSpec
  | .table _ _ entries => do
    let driver ← string? (← entries.lookup "driver")
    let options ← Toml.namedValues? (entries.filter fun (k, _) => k ≠ "driver")
    return { driver, options }
  | _ => none

def drivers? : Option Item → Option (List DriverSpec) :=
  optional? (list? driver?) []

def object? (i : Item) : Option ObjectEntry := do
  match ← fields? ["name", "drivers"] i with
  | [some name, drivers] => return { name := ← name? name, drivers := ← drivers? drivers }
  | _ => none

/-- An element that is an object in place. -/
def inline? (i : Item) : Option Element := do
  match ← fields? ["kind", "drivers"] i with
  | [some kind, drivers] =>
    let span ← kind.span?
    return .inline ⟨← choice? Kind.ofName? kind, span⟩ (← drivers? drivers)
  | _ => none

/-- The kind of the objects that an element with this key names. -/
def namedKind? (key : String) : Option Kind :=
  (Kind.ofName? key).filter (· ≠ .pipe)

/-! ### Rules -/

mutual

def rule? : Item → Option RuleEntry
  | .table _ _ entries => ruleOfEntries? [] [] entries
  | .array _ items => ruleOfItems? items
  | .tables items => ruleOfItems? items
  | .scalar _ _ => none

/-- A rule in a table, with the flags and elements read so far. -/
def ruleOfEntries? (flags : List String) (elements : List Element) :
    List (String × Item) → Option RuleEntry
  | [] => some (.mk flags elements)
  | (k, i) :: rest =>
    if k = "flags" then do ruleOfEntries? (← list? string? i) elements rest
    else if k = "elements" then do ruleOfEntries? flags (← elements? i) rest
    else none

def ruleOfItems? : List Item → Option RuleEntry
  | [] => some (.mk [] [])
  | [flags] => do return .mk (← list? string? flags) []
  | flags :: elements :: _ => do return .mk (← list? string? flags) (← elements? elements)

def elements? : Item → Option (List Element)
  | .array _ items => elementList? items
  | .tables items => elementList? items
  | _ => none

def elementList? : List Item → Option (List Element)
  | [] => some []
  | i :: is => do return (← element? i) :: (← elementList? is)

def element? : Item → Option Element
  | .table _ _ [(k, i)] =>
    if k = "junction" then (rules? i).map .junction
    else if k = "inline" then inline? i
    else do return .named (← namedKind? k) (← name? i)
  | _ => none

def rules? : Item → Option (List RuleEntry)
  | .array _ items => ruleList? items
  | .tables items => ruleList? items
  | _ => none

def ruleList? : List Item → Option (List RuleEntry)
  | [] => some []
  | i :: is => do return (← rule? i) :: (← ruleList? is)

end

/-! ### Documents -/

def keys : List String :=
  ["options", "template", "source", "destination", "filter", "parser", "rewrite", "log"]

/-- A document from the entries of its root. -/
def ofEntries? (entries : Toml.Entries) : Option Document := do
  match ← fields? keys (.table .header none entries) with
  | [settings, templates, sources, destinations, filters, parsers, rewrites, rules] =>
    return {
      settings := ← optional? settings? {} settings
      templates := ← optional? (list? template?) [] templates
      sources := ← optional? (list? object?) [] sources
      destinations := ← optional? (list? object?) [] destinations
      filters := ← optional? (list? object?) [] filters
      parsers := ← optional? (list? object?) [] parsers
      rewrites := ← optional? (list? object?) [] rewrites
      rules := ← optional? rules? [] rules }
  | _ => none

def parse (text : String) : Except Failure Document :=
  match (Toml.parse? text).bind ofEntries? with
  | some d => .ok d
  | none => .error .parse

def parseSettings (text : String) : Except Failure Settings :=
  match (Toml.parse? text).bind fun entries => settings? (.table .header none entries) with
  | some s => .ok s
  | none => .error .parse

end Document

end Routing
