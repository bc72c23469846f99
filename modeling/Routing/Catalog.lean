import Routing.Statement
/-!
# Catalogs

The statements of a configuration: objects, which have a kind and a name, and rules, which have no
name. Objects keep the order in which their names came up first; of several objects with one kind
and name the last counts.
-/

namespace Routing

/-- The kind and name of an object. -/
structure ObjectKey where
  kind : Kind
  name : String
  deriving DecidableEq, Repr

/-- Objects by their keys, in order. -/
abbrev Objects := List (ObjectKey × Statement)

namespace Objects

def find? (objects : Objects) (key : ObjectKey) : Option Statement :=
  List.lookup key objects

/-- The objects with one put in: in the place of the one with its key, or at the end. -/
def put (key : ObjectKey) (s : Statement) : Objects → Objects
  | [] => [(key, s)]
  | (k, t) :: rest => if k = key then (key, s) :: rest else (k, t) :: put key s rest

def sources (objects : Objects) : List Statement :=
  (objects.map (·.2)).filter fun s => s.kind = .source

def sourceNames (objects : Objects) : List String :=
  (sources objects).filterMap Statement.name

end Objects

/-- The statements of a configuration. -/
structure Catalog where
  objects : Objects := []
  rules : List Statement := []

namespace Catalog

/-- The catalog with one more statement, and whether an object lost its place to it. -/
def register (c : Catalog) (s : Statement) : Option Duplicate × Catalog :=
  match s.name with
  | none => (none, { c with rules := c.rules ++ [s] })
  | some name =>
    let key : ObjectKey := ⟨s.kind, name⟩
    let duplicate := (c.objects.find? key).map fun _ => ⟨s.kind, name⟩
    (duplicate, { c with objects := c.objects.put key s })

def registerAll (c : Catalog) (ss : List Statement) : Catalog :=
  ss.foldl (fun c s => (c.register s).2) c

/-- A number greater than the serial numbers of all targets. -/
def serialBound (c : Catalog) : Nat :=
  max (Statement.serialBounds (c.objects.map (·.2))) (Statement.serialBounds c.rules)

/-- The number of statements in all objects and rules. -/
def statementCount (c : Catalog) : Nat :=
  Statement.sizes (c.objects.map (·.2)) + Statement.sizes c.rules

end Catalog

/-- The rule as it is compiled: with the flag for all sources it gets a reference to each source in
front and loses the flag. -/
def Statement.expandCatchAll (objects : Objects) (rule : Statement) : Statement :=
  if rule.flags.catchAll then
    (rule.prepend (objects.sourceNames.map fun name => .reference .source name none)).removeFlags
      { catchAll := true }
  else rule

end Routing
