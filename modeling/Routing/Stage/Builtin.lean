import Routing.Stage.Assign
import Routing.Stage.Basic
import Routing.Stage.Collect
import Routing.Stage.Internal
import Routing.Stage.KeyValue
import Routing.Stage.Match
import Routing.Stage.Scripted
/-!
# The stages of the library

All kinds of stages that come with the library, as one type, and what they share.
-/

namespace Routing

/-- A stage of the library. -/
inductive Builtin where
  | internal (s : Internal)
  | filter (s : Match)
  | keyValue (s : KeyValue)
  | assign (s : Assign)
  | collect (s : Collect)
  | scripted (s : Scripted)
  /-- A stage with a label that passes on all messages and has no clones. -/
  | plain (label : String)
  | multiplexer
  | passThrough
  deriving DecidableEq, Repr

/-- What the stages of the library share. -/
structure Shared where
  buffers : Buffers := {}
  rehearsal : Rehearsal := {}
  deriving DecidableEq, Repr

/-- Takes all messages out of the buffer with a name, if there is one. -/
def Shared.takeBuffer (shared : Shared) (name : String) : Option (List Message) × Shared :=
  match shared.buffers.find? name with
  | none => (none, shared)
  | some i =>
    let (messages, buffers) := shared.buffers.take i
    (some messages, { shared with buffers })

/-- Takes the list of the calls on scripted stages. -/
def Shared.takeCalls (shared : Shared) : List String × Shared :=
  (shared.rehearsal.calls, { shared with rehearsal := { shared.rehearsal with calls := [] } })

namespace Builtin

def label : Builtin → String
  | internal _ => Internal.label
  | filter s => s.label
  | keyValue s => s.label
  | assign s => s.label
  | collect s => s.label
  | scripted s => s.label
  | plain label => label
  | multiplexer => "multiplexer"
  | passThrough => "pass"

def capabilities : Builtin → Capabilities
  | internal _ => { isSource := true }
  | keyValue _ => { changesMessage := true }
  | assign _ => { changesMessage := true }
  | scripted s => s.capabilities
  | _ => .none

/-- A fresh stage for a second place; the internal source and plain stages refuse. -/
def clone (s : Builtin) (shared : Shared) : Option Builtin × Shared :=
  match s with
  | internal _ => (none, shared)
  | plain _ => (none, shared)
  | collect c => (some (collect c.clone), shared)
  | scripted p =>
    let (copy, rehearsal) := p.clone shared.rehearsal
    (copy.map scripted, { shared with rehearsal })
  | s => (some s, shared)

def init (settings : Settings) (s : Builtin) (shared : Shared) :
    Reply Builtin Shared (Except StageError Unit) :=
  match s with
  | internal i =>
    let (result, i) := i.start settings
    { value := result, stage := internal i, shared }
  | collect c => { value := .ok (), stage := collect (c.start settings), shared }
  | scripted p =>
    let (result, p, rehearsal) := p.start settings shared.rehearsal
    { value := result, stage := scripted p, shared := { shared with rehearsal } }
  | s => { value := .ok (), stage := s, shared }

def deinit (s : Builtin) (shared : Shared) : Reply Builtin Shared (Except StageError Unit) :=
  match s with
  | internal i => { value := .ok (), stage := internal i.stop, shared }
  | collect c =>
    let (result, dropped, c) := c.stop
    { value := result, stage := collect c, shared
      events := dropped.toList.map .messagesDropped }
  | scripted p =>
    let (result, p, rehearsal) := p.stop shared.rehearsal
    { value := result, stage := scripted p, shared := { shared with rehearsal } }
  | s => { value := .ok (), stage := s, shared }

def queue (message : Message) (s : Builtin) (shared : Shared) :
    Reply Builtin Shared (Verdict × Message) :=
  match s with
  | filter m => { value := (m.verdict message, message), stage := s, shared }
  | keyValue kv => { value := (.forward, kv.apply message), stage := s, shared }
  | assign a => { value := (.forward, a.apply message), stage := s, shared }
  | collect c =>
    let (verdict, c, buffers) := c.accept message shared.buffers
    { value := (verdict, message), stage := collect c, shared := { shared with buffers } }
  | scripted p => { value := p.accept message, stage := s, shared }
  | s => { value := (.forward, message), stage := s, shared }

instance : Stage Builtin Shared where
  label := label
  capabilities := capabilities
  clone := clone
  init := init
  deinit := deinit
  queue := queue
  multiplexer := multiplexer
  passThrough := passThrough
  capabilities_multiplexer := rfl
  capabilities_passThrough := rfl

end Builtin

end Routing
