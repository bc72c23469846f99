import Routing.Failure
/-!
# Events

What is worth a line in the log. An event is a value; `text` is its line.
-/

namespace Routing

/-- Where a configuration is in its life. -/
inductive Status where
  | uncompiled
  | compiled
  /-- Compiling failed, and so will every later attempt. -/
  | failed (e : CompileError)
  | started
  | stopped
  deriving DecidableEq, Repr

def Status.name : Status → String
  | uncompiled => "Uncompiled"
  | compiled => "Compiled"
  | failed _ => "Failed"
  | started => "Started"
  | stopped => "Stopped"

/-- Something worth a line in the log. -/
inductive Event where
  | unknownFlag (name : String)
  | duplicateTemplate (name : String)
  | duplicateObject (d : Duplicate) (location : Option String)
  | lateStatement (status : Status)
  | ruleRejected (e : CompileError) (rule : Nat)
  | stageNotStarted (f : StageFailure)
  | stageNotStopped (f : StageFailure)
  | releasedWhileRunning
  | releaseFailed (e : StopError)
  | messagesDropped (count : Nat)
  deriving DecidableEq, Repr

def Event.text : Event → String
  | unknownFlag name => "WARN Unknown log statement flag flag=" ++ name
  | duplicateTemplate name =>
    "WARN Duplicate template, keeping the first definition template=" ++ name
  | duplicateObject d none => "WARN " ++ d.message
  | duplicateObject d (some location) => "WARN " ++ d.message ++ " location=" ++ location
  | lateStatement status =>
    "WARN Statement registered after compilation state=" ++ status.name
  | ruleRejected e rule =>
    "ERROR " ++ e.message ++ " rule=" ++ toString rule ++ " location=" ++ e.location
  | stageNotStarted f =>
    "ERROR Error initializing message pipeline id=" ++ slotText f.slot ++ " stage=" ++ f.label ++
      " error=" ++ f.error.message
  | stageNotStopped f =>
    "WARN Error deinitializing stage id=" ++ slotText f.slot ++ " stage=" ++ f.label ++
      " error=" ++ f.error.message
  | releasedWhileRunning => "WARN Releasing a started configuration, stopping it first"
  | releaseFailed e => "WARN " ++ e.message
  | messagesDropped count =>
    "WARN Collect destination dropped messages dropped=" ++ toString count

end Routing
