/-!
# Settings

Options that hold for a whole configuration. Every stage gets them when it starts.
-/

namespace Routing

/-- The order in which a catch-all rule takes the sources. -/
inductive SourceOrder where
  | registration
  deriving DecidableEq, Repr

namespace SourceOrder

def name : SourceOrder → String
  | registration => "registration"

def ofName? (name : String) : Option SourceOrder :=
  if name = registration.name then some registration else none

end SourceOrder

/-- Options for all stages of a configuration. -/
structure Settings where
  /-- Seconds between two marks of the internal source; zero for none. -/
  markSeconds : Nat := 1200
  /-- Messages that a destination gathers before it writes them. -/
  flushLines : Nat := 100
  /-- Seconds before a failed destination is opened again. -/
  reopenSeconds : Nat := 60
  /-- The order in which catch-all rules take the sources. -/
  sourceOrder : SourceOrder := .registration
  deriving DecidableEq, Repr

end Routing
