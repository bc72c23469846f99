import Routing.Failure
import Routing.Message
import Routing.Settings
/-!
# Scripted stages

A stage that does what it is told, for rehearsing a configuration: it fails to start or to stop so
many times, and it drops messages or passes them on. What scripted stages go through is counted and
listed.
-/

namespace Routing

/-- What all scripted stages went through. -/
structure Rehearsal where
  created : Nat := 0
  clones : Nat := 0
  inits : Nat := 0
  deinits : Nat := 0
  /-- The settings of the last successful start. -/
  settings : Option Settings := none
  /-- The calls in their order. -/
  calls : List String := []
  deriving DecidableEq, Repr

/-- A scripted stage. -/
structure Scripted where
  label : String
  capabilities : Capabilities := .none
  clones : Bool := true
  /-- How many more times the stage fails to start. -/
  failInit : Nat := 0
  /-- How many more times the stage fails to stop. -/
  failDeinit : Nat := 0
  drops : Bool := false
  deriving DecidableEq, Repr

namespace Scripted

def create (r : Rehearsal) : Rehearsal :=
  { r with created := r.created + 1 }

/-- A copy of the stage, if it has one. -/
def clone (s : Scripted) (r : Rehearsal) : Option Scripted × Rehearsal :=
  if s.clones then
    (some s, { r with
      calls := r.calls ++ ["clone " ++ s.label]
      clones := r.clones + 1
      created := r.created + 1 })
  else (none, r)

def start (settings : Settings) (s : Scripted) (r : Rehearsal) :
    Except StageError Unit × Scripted × Rehearsal :=
  let r := { r with calls := r.calls ++ ["init " ++ s.label] }
  if 0 < s.failInit then
    (.error ⟨s.label ++ " refused to start"⟩, { s with failInit := s.failInit - 1 }, r)
  else (.ok (), s, { r with inits := r.inits + 1, settings := some settings })

def stop (s : Scripted) (r : Rehearsal) : Except StageError Unit × Scripted × Rehearsal :=
  let r := { r with calls := r.calls ++ ["deinit " ++ s.label], deinits := r.deinits + 1 }
  if 0 < s.failDeinit then
    (.error ⟨s.label ++ " failed to flush"⟩, { s with failDeinit := s.failDeinit - 1 }, r)
  else (.ok (), s, r)

/-- Leaves the label of the stage in a message. -/
def accept (s : Scripted) (message : Message) : Verdict × Message :=
  (if s.drops then .drop else .forward, message.set "LAST" s.label)

end Scripted

end Routing
