import Routing.Event
import Routing.Message
import Routing.Settings
/-!
# Stages

What a graph asks of a stage. A stage is a value of `σ`; what stages share, such as the buffers
that they fill, is a value of `ω`. Every call gives back the stage and the shared value as they are
afterwards.
-/

namespace Routing

/-- The answer of a stage to a call. -/
structure Reply (σ ω α : Type) where
  value : α
  stage : σ
  shared : ω
  events : List Event := []

/-- Stages of type `σ` that share a value of type `ω`. -/
class Stage (σ : Type) (ω : outParam Type) where
  /-- A short text for people. -/
  label : σ → String
  capabilities : σ → Capabilities
  /-- A fresh stage for a second place, unless the stage refuses. -/
  clone : σ → ω → Option σ × ω
  init : Settings → σ → ω → Reply σ ω (Except StageError Unit)
  deinit : σ → ω → Reply σ ω (Except StageError Unit)
  queue : Message → σ → ω → Reply σ ω (Verdict × Message)
  /-- A stage that hands each message to several others. -/
  multiplexer : σ
  /-- A stage that hands each message on unchanged. -/
  passThrough : σ
  capabilities_multiplexer : capabilities multiplexer = .none
  capabilities_passThrough : capabilities passThrough = .none

/-- A handle on a stage: its place in a pool. -/
abbrev Handle := Nat

/-- A stage in a pool, and whether it sits in a graph. -/
structure Instance (σ : Type) where
  stage : σ
  inlined : Bool := false

/-- All stages that were made, and what they share. -/
structure Pool (σ ω : Type) where
  instances : Array (Instance σ) := #[]
  shared : ω

namespace Pool

variable {σ ω : Type}

/-- The pool with one more stage, and a handle on it. -/
def addInstance (p : Pool σ ω) (i : Instance σ) : Handle × Pool σ ω :=
  (p.instances.size, { p with instances := p.instances.push i })

/-- The pool with one more stage, which sits in no graph, and a handle on it. -/
def add (p : Pool σ ω) (stage : σ) : Handle × Pool σ ω :=
  p.addInstance { stage }

def stage? (p : Pool σ ω) (h : Handle) : Option σ :=
  p.instances[h]?.map (·.stage)

def isInlined (p : Pool σ ω) (h : Handle) : Bool :=
  (p.instances[h]?.map (·.inlined)).getD false

/-- The pool with a stage marked as sitting in a graph. -/
def markInlined (p : Pool σ ω) (h : Handle) : Pool σ ω :=
  { p with instances := p.instances.modify h fun i => { i with inlined := true } }

/-- The pool with a stage as it is after a call. -/
def update (p : Pool σ ω) (h : Handle) (stage : σ) (shared : ω) : Pool σ ω :=
  ⟨p.instances.modify h fun i => { i with stage }, shared⟩

variable [Stage σ ω]

def label (p : Pool σ ω) (h : Handle) : String :=
  ((p.stage? h).map Stage.label).getD ""

def capabilities (p : Pool σ ω) (h : Handle) : Capabilities :=
  ((p.stage? h).map Stage.capabilities).getD .none

/-- A fresh stage like the one of a handle, unless that one refuses. -/
def clone (p : Pool σ ω) (h : Handle) : Option Handle × Pool σ ω :=
  match p.stage? h with
  | none => (none, p)
  | some stage =>
    match Stage.clone stage p.shared with
    | (none, shared) => (none, { p with shared })
    | (some copy, shared) =>
      let (h, p) := add { p with shared } copy
      (some h, p)

/-- Makes a call on the stage of a handle; `absent` is the value if there is no such stage. -/
def call {α : Type} (absent : α) (f : σ → ω → Reply σ ω α) (p : Pool σ ω) (h : Handle) :
    α × List Event × Pool σ ω :=
  match p.stage? h with
  | none => (absent, [], p)
  | some stage =>
    let r := f stage p.shared
    (r.value, r.events, p.update h r.stage r.shared)

def init (settings : Settings) (p : Pool σ ω) (h : Handle) :
    Except StageError Unit × List Event × Pool σ ω :=
  call (.ok ()) (Stage.init settings) p h

def deinit (p : Pool σ ω) (h : Handle) : Except StageError Unit × List Event × Pool σ ω :=
  call (.ok ()) Stage.deinit p h

def queue (message : Message) (p : Pool σ ω) (h : Handle) :
    (Verdict × Message) × List Event × Pool σ ω :=
  call (.forward, message) (Stage.queue message) p h

end Pool

end Routing
