import Routing.Failure
/-!
# Graphs of stages

A graph is a list of slots in the order of their creation; a slot is named by its place. A slot
holds a handle on a stage, the stage that follows it, and, if it is a multiplexer, the stages that
it hands its messages to.
-/

namespace Routing

/-- Why a slot exists. -/
inductive Role where
  /-- A stage in its own place. -/
  | declared
  /-- A clone of a stage in another place. -/
  | cloned
  /-- A point where messages fork. -/
  | multiplexer
  /-- A point where branches meet. -/
  | join
  /-- A point where a rule takes the messages of a source. -/
  | attach
  deriving DecidableEq, Repr

namespace Role

def all : List Role := [declared, cloned, multiplexer, join, attach]

def name : Role → String
  | declared => "declared"
  | cloned => "cloned"
  | multiplexer => "multiplexer"
  | join => "join"
  | attach => "attach"

def ofName? (name : String) : Option Role :=
  all.find? (·.name == name)

end Role

/-- The statement that a stage was compiled from. -/
structure StageOrigin where
  kind : Kind
  name : Option String
  location : String
  deriving DecidableEq, Repr

/-- A place in a graph. -/
structure Slot where
  handle : Nat
  role : Role
  capabilities : Capabilities
  next : Option SlotId := none
  hops : List SlotId := []
  origin : Option StageOrigin := none
  /-- The stage was started and not stopped since. -/
  initialized : Bool := false
  deriving DecidableEq, Repr

/-- A graph of stages. -/
structure Graph where
  slots : Array Slot := #[]
  deriving DecidableEq, Repr

/-- How an edge leaves its stage. -/
inductive EdgeKind where
  | next
  | hop
  deriving DecidableEq, Repr

def EdgeKind.name : EdgeKind → String
  | next => "next"
  | hop => "hop"

/-- An edge between two stages. -/
structure Edge where
  source : SlotId
  target : SlotId
  kind : EdgeKind
  deriving DecidableEq, Repr

namespace Graph

def size (g : Graph) : Nat :=
  g.slots.size

def slot? (g : Graph) (id : SlotId) : Option Slot :=
  g.slots[id]?

/-- The graph with one more slot at the end, and its place. -/
def add (g : Graph) (s : Slot) : SlotId × Graph :=
  (g.size, ⟨g.slots.push s⟩)

def modify (g : Graph) (id : SlotId) (f : Slot → Slot) : Graph :=
  ⟨g.slots.modify id f⟩

def next? (g : Graph) (id : SlotId) : Option SlotId :=
  (g.slot? id).bind (·.next)

/-- The stages that a stage hands its messages to. -/
def hops (g : Graph) (id : SlotId) : List SlotId :=
  ((g.slot? id).map (·.hops)).getD []

def role? (g : Graph) (id : SlotId) : Option Role :=
  (g.slot? id).map (·.role)

def capabilities (g : Graph) (id : SlotId) : Capabilities :=
  ((g.slot? id).map (·.capabilities)).getD .none

/-- The graph with more capabilities at a slot. -/
def insertCapabilities (g : Graph) (id : SlotId) (caps : Capabilities) : Graph :=
  g.modify id fun s => { s with capabilities := s.capabilities.union caps }

/-- The graph with one stage following another; if a stage follows already, that one. -/
def link (g : Graph) (source target : SlotId) : Except SlotId Graph :=
  match g.next? source with
  | some existing => .error existing
  | none => .ok (g.modify source fun s => { s with next := some target })

/-- The graph with one more stage that a multiplexer hands its messages to. -/
def addHop (g : Graph) (fork hop : SlotId) : Graph :=
  g.modify fork fun s => { s with hops := s.hops ++ [hop] }

/-- The stage that is reached by so many steps to the following stage, or by fewer if no stage
follows. -/
def follow (g : Graph) : Nat → SlotId → SlotId
  | 0, id => id
  | fuel + 1, id =>
    match g.next? id with
    | some next => g.follow fuel next
    | none => id

/-- The last stage of the chain that starts at a stage. A chain without a cycle has no more stages
than the graph. -/
def terminal (g : Graph) (id : SlotId) : SlotId :=
  g.follow g.size id

/-- The edges that leave a slot: to the stage that follows, then the hops. -/
def edgesOf (id : SlotId) (s : Slot) : List Edge :=
  s.next.toList.map (⟨id, ·, .next⟩) ++ s.hops.map (⟨id, ·, .hop⟩)

def indexed (g : Graph) : List (SlotId × Slot) :=
  g.slots.toList.zipIdx.map fun (s, id) => (id, s)

/-- All edges, those to following stages before all hops. -/
def edges (g : Graph) : List (SlotId × SlotId) :=
  (g.indexed.filterMap fun (id, s) => s.next.map fun next => (id, next)) ++
    g.indexed.flatMap fun (id, s) => s.hops.map fun hop => (id, hop)

end Graph

end Routing
