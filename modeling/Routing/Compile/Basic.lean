import Routing.Catalog
import Routing.Graph.Basic
import Routing.Stage.Basic
/-!
# The state of compiling

Compiling adds stages to a graph. It also changes the pool of stages, as a stage is marked when it
gets its place and cloned for further places, and it remembers what referenced sources and
destinations were compiled to. An error leaves the state as it was when the error came up.
-/

namespace Routing

/-- The ends of a compiled statement: where messages enter and where they leave. Nothing enters a
source, and nothing leaves a destination. -/
structure Fragment where
  head : Option SlotId := none
  tail : Option SlotId := none
  deriving DecidableEq, Repr

namespace Fragment

/-- The fragment starts with a source, so that nothing can be linked to its front. -/
def isSourceRooted (f : Fragment) : Bool :=
  f.head.isNone && f.tail.isSome

def isEmpty (f : Fragment) : Bool :=
  f.head.isNone && f.tail.isNone

end Fragment

/-- What tells the targets of one kind apart. -/
inductive TargetId where
  | named (name : String)
  | inline (serial : Nat)
  deriving DecidableEq, Repr

/-- The target of references. -/
structure TargetKey where
  kind : Kind
  id : TargetId
  deriving DecidableEq, Repr

/-- What compiling changes. -/
structure Build (σ ω : Type) where
  graph : Graph := {}
  pool : Pool σ ω
  /-- For a source, the stage at its end; for a destination, the stage at its start. -/
  memos : List (TargetKey × SlotId) := []

/-- A step of compiling. -/
abbrev Compile (σ ω : Type) := ExceptT CompileError (StateM (Build σ ω))

namespace Compile

variable {σ ω : Type} [Stage σ ω]

def modifyGraph (f : Graph → Graph) : Compile σ ω Unit :=
  modify fun b => { b with graph := f b.graph }

/-- Gives a stage a place in the graph. -/
def place (handle : Handle) (role : Role) (origin : Option StageOrigin) :
    Compile σ ω SlotId := do
  let b ← get
  let capabilities := b.pool.capabilities handle
  let (id, graph) := b.graph.add { handle, role, capabilities, origin }
  set { b with graph }
  return id

def addOwn (stage : σ) (role : Role) : Compile σ ω SlotId := do
  let b ← get
  let (handle, pool) := b.pool.add stage
  set { b with pool }
  place handle role none

def addMultiplexer : Compile σ ω SlotId :=
  addOwn Stage.multiplexer .multiplexer

def addJoin : Compile σ ω SlotId :=
  addOwn Stage.passThrough .join

/-- Adds a point where a rule takes the messages of a source. -/
def addAttach : Compile σ ω SlotId :=
  addOwn Stage.passThrough .attach

/-- Marks a stage as sitting in the graph. -/
def markInlined (handle : Handle) : Compile σ ω Unit :=
  modify fun b => { b with pool := b.pool.markInlined handle }

/-- A fresh stage like another, unless that one refuses. -/
def cloneStage (handle : Handle) : Compile σ ω (Option Handle) := do
  let b ← get
  let (copy, pool) := b.pool.clone handle
  set { b with pool }
  return copy

def link (source target : SlotId) (node : Descriptor) : Compile σ ω Unit := do
  let b ← get
  match b.graph.link source target with
  | .ok graph => set { b with graph }
  | .error existing => throw (.inconsistent node (.secondSuccessor source existing target))

/-- Makes a multiplexer hand its messages to one more stage. -/
def addHop (fork hop : SlotId) : Compile σ ω Unit :=
  modifyGraph fun g => g.addHop fork hop

def graph : Compile σ ω Graph := do
  return (← get).graph

/-- What a target was compiled to, or what is settled for it. -/
def remembered (key : TargetKey) (settled : Option SlotId) : Compile σ ω (Option SlotId) := do
  return ((← get).memos.lookup key).or settled

def remember (key : TargetKey) (id : SlotId) : Compile σ ω Unit :=
  modify fun b => { b with memos := (key, id) :: b.memos }

end Compile

end Routing
