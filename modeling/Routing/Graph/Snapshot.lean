import Routing.Graph.Basic
import Routing.Json.Value
/-!
# Snapshots

A view of a graph for people and for other programs: its stages with their labels, and its edges.
-/

namespace Routing

/-- A stage in a snapshot. -/
structure StageView where
  id : SlotId
  role : Role
  label : String
  capabilities : List String
  origin : Option StageOrigin
  deriving DecidableEq, Repr

/-- A view of a graph. -/
structure Snapshot where
  stages : List StageView
  edges : List Edge
  deriving DecidableEq, Repr

namespace Snapshot

/-- The view of a graph whose stages have these labels. -/
def capture (label : Nat → String) (g : Graph) : Snapshot where
  stages := g.indexed.map fun (id, s) =>
    ⟨id, s.role, label s.handle, s.capabilities.names, s.origin⟩
  edges := g.indexed.flatMap fun (id, s) => Graph.edgesOf id s

def outgoing (v : Snapshot) (id : SlotId) : List Edge :=
  v.edges.filter (·.source = id)

/-! ### Text -/

/-- A text with blanks after it, at least `width` characters. -/
def padRight (width : Nat) (s : String) : String :=
  s ++ String.ofList (List.replicate (width - s.length) ' ')

/-- What the line of a stage says about its origin. -/
def originText : Option StageOrigin → String
  | none => ""
  | some ⟨kind, some name, location⟩ =>
    " (" ++ kind.name ++ " '" ++ name ++ "' at " ++ location ++ ")"
  | some ⟨kind, none, location⟩ => " (" ++ kind.name ++ " at " ++ location ++ ")"

def stageLine (s : StageView) : String :=
  let caps := if s.capabilities.isEmpty then "" else " [" ++ ", ".intercalate s.capabilities ++ "]"
  slotText s.id ++ " " ++ padRight 11 s.role.name ++ " " ++ s.label ++ caps ++ originText s.origin

/-- The line of an edge below its stage. -/
def edgeLine (e : Edge) : String :=
  match e.kind with
  | .next => "   -> " ++ slotText e.target
  | .hop => "   => " ++ slotText e.target

/-- The lines of a snapshot: each stage with the edges that leave it. -/
def lines (v : Snapshot) : List String :=
  v.stages.flatMap fun s => stageLine s :: (v.outgoing s.id).map edgeLine

def text (v : Snapshot) : String :=
  String.join (v.lines.map (· ++ "\n"))

/-! ### JSON -/

open Json (Value)

def originJson : Option StageOrigin → Value
  | none => .null
  | some o => .object [("content", .string o.kind.name),
      ("name", (o.name.map .string).getD .null), ("location", .string o.location)]

def stageJson (s : StageView) : Value :=
  .object [("id", .number s.id), ("role", .string s.role.name), ("label", .string s.label),
    ("capabilities", .array (s.capabilities.map .string)), ("origin", originJson s.origin)]

def edgeJson (e : Edge) : Value :=
  .object [("from", .number e.source), ("to", .number e.target), ("kind", .string e.kind.name)]

def toJson (v : Snapshot) : Value :=
  .object [("stages", .array (v.stages.map stageJson)), ("edges", .array (v.edges.map edgeJson))]

/-- The JSON text of a snapshot over several lines. -/
def jsonText (v : Snapshot) : String :=
  v.toJson.pretty

end Snapshot

end Routing
