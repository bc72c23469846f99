import Routing.Failure
import Routing.Settings
/-!
# The `internal` source

The messages of the log daemon itself. There is one such stream, so the source runs once and is
never cloned.
-/

namespace Routing

/-- The internal source. -/
structure Internal where
  /-- Seconds between two marks, as given at the last start. -/
  markSeconds : Nat := 0
  running : Bool := false
  deriving DecidableEq, Repr

namespace Internal

def label : String := "internal"

def start (settings : Settings) (s : Internal) : Except StageError Unit × Internal :=
  if s.running then (.error ⟨"internal source is already running"⟩, s)
  else (.ok (), ⟨settings.markSeconds, true⟩)

def stop (s : Internal) : Internal :=
  { s with running := false }

end Internal

end Routing
