import Routing.Failure
import Routing.Message
import Routing.Settings
/-!
# The `collect` destination

Keeps messages in a buffer. Destinations with the same buffer name share a buffer, and so do the
clones of a destination.
-/

namespace Routing

/-- All buffers: some have a name, and each holds messages, the oldest first. -/
structure Buffers where
  names : List (String × Nat) := []
  stores : Array (List Message) := #[]
  deriving DecidableEq, Repr

namespace Buffers

/-- A fresh buffer without a name. -/
def fresh (b : Buffers) : Nat × Buffers :=
  (b.stores.size, { b with stores := b.stores.push [] })

def find? (b : Buffers) (name : String) : Option Nat :=
  b.names.lookup name

/-- The buffer with this name, which is made if there is none. -/
def named (b : Buffers) (name : String) : Nat × Buffers :=
  match b.find? name with
  | some i => (i, b)
  | none =>
    let (i, b) := b.fresh
    (i, { b with names := b.names ++ [(name, i)] })

def messages (b : Buffers) (i : Nat) : List Message :=
  b.stores.getD i []

def push (b : Buffers) (i : Nat) (message : Message) : Buffers :=
  { b with stores := b.stores.modify i (· ++ [message]) }

def take (b : Buffers) (i : Nat) : List Message × Buffers :=
  (b.messages i, { b with stores := b.stores.modify i fun _ => [] })

end Buffers

/-- A destination that fills a buffer. -/
structure Collect where
  buffer : Nat
  /-- The most messages that the buffer may hold; zero for no limit. -/
  capacity : Nat := 0
  /-- Messages to gather before writing, as given at the last start. -/
  flushLines : Nat := 0
  isOpen : Bool := false
  /-- The messages that were refused. -/
  dropped : Nat := 0
  deriving DecidableEq, Repr

namespace Collect

def label (c : Collect) : String :=
  if c.capacity = 0 then "collect" else "collect(capacity=" ++ toString c.capacity ++ ")"

/-- Another destination on the same buffer. -/
def clone (c : Collect) : Collect :=
  { buffer := c.buffer, capacity := c.capacity }

def start (settings : Settings) (c : Collect) : Collect :=
  { c with flushLines := settings.flushLines, isOpen := true }

/-- Closes the destination, unless it is closed; and the number of refused messages to report. -/
def stop (c : Collect) : Except StageError Unit × Option Nat × Collect :=
  if c.isOpen then
    (.ok (), if 0 < c.dropped then some c.dropped else none, { c with isOpen := false })
  else (.error ⟨"collect destination was not open"⟩, none, c)

def refuses (c : Collect) (b : Buffers) : Bool :=
  !c.isOpen || (0 < c.capacity && c.capacity ≤ (b.messages c.buffer).length)

def accept (c : Collect) (message : Message) (b : Buffers) : Verdict × Collect × Buffers :=
  if c.refuses b then (.drop, { c with dropped := c.dropped + 1 }, b)
  else (.forward, c, b.push c.buffer message)

end Collect

end Routing
