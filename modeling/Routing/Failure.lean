import Routing.Kind
/-!
# Failures

What can go wrong, as causes. The wording of each is in its `message`.
-/

namespace Routing

/-- The place of a stage in a graph. -/
abbrev SlotId := Nat

/-- The text of a place in a graph. -/
def slotText (id : SlotId) : String :=
  "#" ++ toString id

/-- The statement that an error is about. -/
structure Descriptor where
  kind : Kind
  name : String
  location : String
  deriving DecidableEq, Repr

def Descriptor.text (d : Descriptor) : String :=
  d.kind.name ++ " '" ++ d.name ++ "' at " ++ d.location

/-- How a graph contradicts itself. -/
inductive Inconsistency where
  /-- A stage would get a second successor. -/
  | secondSuccessor (stage existing wanted : SlotId)
  /-- A source feeds something other than a multiplexer. -/
  | sourceWithoutFork (tail next : SlotId)
  deriving DecidableEq, Repr

def Inconsistency.message : Inconsistency → String
  | .secondSuccessor stage existing wanted =>
    "stage " ++ slotText stage ++ " is already linked to " ++ slotText existing ++
      ", cannot link " ++ slotText wanted
  | .sourceWithoutFork tail next =>
    "source tail " ++ slotText tail ++ " feeds " ++ slotText next ++
      ", which is not a multiplexer"

/-- Why a statement cannot be compiled. -/
inductive CompileError where
  /-- No object has the name that a reference gives. -/
  | unresolvedReference (kind : Kind) (name location : String)
  /-- A single statement has no stage. -/
  | missingStage (node : Descriptor)
  /-- A stage is used a second time and refuses to be cloned. -/
  | cloneRefused (node : Descriptor)
  /-- A source comes after something that is not a source. -/
  | sourceMustBeFirst (node : Descriptor)
  /-- Some branches of a junction are sources and some are not. -/
  | mixedBranches (node : Descriptor)
  /-- A statement inside a rule has the flag for all sources. -/
  | nestedCatchAll (node : Descriptor)
  /-- An object has no end to which its references could be joined. -/
  | emptyObject (kind : Kind) (name location : String)
  /-- The graph contradicts itself. -/
  | inconsistent (node : Descriptor) (fault : Inconsistency)
  /-- An object refers to itself, directly or through others. -/
  | circularReference (kind : Kind) (name location : String)
  deriving DecidableEq, Repr

namespace CompileError

def message : CompileError → String
  | unresolvedReference kind name location =>
    "Error resolving reference to " ++ kind.name ++ " '" ++ name ++ "' at " ++ location
  | missingStage node => "Single statement has no stage to instantiate: " ++ node.text
  | cloneRefused node =>
    "Error cloning pipe into its reference point, the element is not meant to be used in this " ++
      "situation: " ++ node.text
  | sourceMustBeFirst node =>
    "Source follows a non-source element, list source references/definitions first: " ++ node.text
  | mixedBranches node =>
    "Source and non-source branches are mixed in junction: " ++ node.text
  | nestedCatchAll node =>
    "The catch-all flag can only be specified for top-level log statements: " ++ node.text
  | emptyObject kind name location =>
    "Referenced " ++ kind.name ++ " '" ++ name ++
      "' compiles to no usable endpoint, referenced at " ++ location
  | inconsistent node fault =>
    "Inconsistent pipeline graph at " ++ node.text ++ ": " ++ fault.message
  | circularReference kind name location =>
    "Circular reference to " ++ kind.name ++ " '" ++ name ++ "' at " ++ location

/-- The name of an error in reports for programs. -/
def tag : CompileError → String
  | unresolvedReference .. => "UnresolvedReference"
  | missingStage _ => "MissingStage"
  | cloneRefused _ => "CloneRefused"
  | sourceMustBeFirst _ => "SourceMustBeFirst"
  | mixedBranches _ => "MixedJunctionBranches"
  | nestedCatchAll _ => "CatchAllOnNonTopLevel"
  | emptyObject .. => "EmptyObject"
  | inconsistent .. => "Inconsistent"
  | circularReference .. => "CircularReference"

/-- The location of the statement that an error is about. -/
def location : CompileError → String
  | unresolvedReference _ _ location => location
  | missingStage node => node.location
  | cloneRefused node => node.location
  | sourceMustBeFirst node => node.location
  | mixedBranches node => node.location
  | nestedCatchAll node => node.location
  | emptyObject _ _ location => location
  | inconsistent node _ => node.location
  | circularReference _ _ location => location

end CompileError

/-- An object took the place of another with its kind and name. -/
structure Duplicate where
  kind : Kind
  name : String
  deriving DecidableEq, Repr

def Duplicate.message (d : Duplicate) : String :=
  "Duplicate " ++ d.kind.name ++ " object '" ++ d.name ++ "', the last definition wins"

/-- What a stage says when it cannot start or stop. -/
structure StageError where
  message : String
  deriving DecidableEq, Repr

/-- A stage that did not start or stop. -/
structure StageFailure where
  slot : SlotId
  label : String
  error : StageError
  deriving DecidableEq, Repr

/-- Why a configuration did not start. -/
inductive StartError where
  | compile (e : CompileError)
  | stage (f : StageFailure)
  deriving DecidableEq, Repr

def StartError.message : StartError → String
  | .compile e => e.message
  | .stage f =>
    "Error initializing message pipeline at stage " ++ slotText f.slot ++ " (" ++ f.label ++
      "): " ++ f.error.message

/-- The stages that failed while a configuration stopped. -/
structure StopError where
  failures : List StageFailure
  deriving DecidableEq, Repr

def StopError.message (e : StopError) : String :=
  let parts := e.failures.map fun f =>
    slotText f.slot ++ " (" ++ f.label ++ "): " ++ f.error.message
  toString e.failures.length ++ " stage(s) failed to deinitialize: " ++ "; ".intercalate parts

/-- Why a file could not be read or a directory not be made. -/
inductive FileError where
  | notFound
  | exists
  | notDirectory
  | isDirectory
  /-- A name or the whole path has too many bytes. -/
  | nameTooLong
  /-- The path has a character of code zero. -/
  | zeroByte
  | notText
  | other (reason : String)
  deriving DecidableEq, Repr

def FileError.message : FileError → String
  | notFound => "No such file or directory (os error 2)"
  | .exists => "File exists (os error 17)"
  | notDirectory => "Not a directory (os error 20)"
  | isDirectory => "Is a directory (os error 21)"
  | nameTooLong => "File name too long (os error 36)"
  | zeroByte => "file name contained an unexpected NUL byte"
  | notText => "stream did not contain valid UTF-8"
  | other reason => reason

/-- Why a configuration could not be loaded or run. -/
inductive Failure where
  | config (reason : String)
  | unknownDriver (kind : Kind) (driver : String)
  | invalidOption (driver option reason : String)
  | parse
  | compile (e : CompileError)
  | start (e : StartError)
  | stop (e : StopError)
  | file (e : FileError)
  /-- A failure and what was being done when it happened. -/
  | within (context : String) (inner : Failure)
  deriving DecidableEq, Repr

namespace Failure

def message : Failure → String
  | config reason => "Configuration error: " ++ reason
  | unknownDriver kind driver => "Unknown " ++ kind.name ++ " driver '" ++ driver ++ "'"
  | invalidOption driver option reason =>
    "Invalid option '" ++ option ++ "' for driver '" ++ driver ++ "': " ++ reason
  | parse => "Parse error"
  | compile e => e.message
  | start e => e.message
  | stop e => e.message
  | file e => "IO error: " ++ e.message
  | within context inner => context ++ ": " ++ inner.message

/-- The failure without what was being done. -/
def root : Failure → Failure
  | within _ inner => inner.root
  | f => f

/-- The name of a failure in reports for programs. -/
def tag : Failure → String
  | config _ => "Config"
  | unknownDriver .. => "UnknownDriver"
  | invalidOption .. => "InvalidOption"
  | parse => "Parse"
  | compile _ => "Compile"
  | start _ => "Start"
  | stop _ => "Stop"
  | file _ => "Io"
  | within _ inner => inner.tag

/-- What was being done, the outermost first. -/
def contexts : Failure → List String
  | within context inner => context :: inner.contexts
  | _ => []

/-- The texts of the causes below a failure, the nearest first. -/
def causes : Failure → List String
  | within _ inner => inner.message :: inner.causes
  | start (.stage f) => [f.error.message]
  | file e => [e.message]
  | _ => []

theorem root_within (context : String) (f : Failure) : (within context f).root = f.root := rfl

end Failure

/-! ### Results -/

section Results

variable {ε α β : Type} {x : Except ε α} {b : β}

theorem bind_eq_ok {f : α → Except ε β} (h : x.bind f = .ok b) : ∃ a, x = .ok a ∧ f a = .ok b := by
  cases x with
  | error e => cases h
  | ok a => exact ⟨a, rfl, h⟩

theorem map_eq_ok {f : α → β} (h : x.map f = .ok b) : ∃ a, x = .ok a ∧ f a = b := by
  cases x with
  | error e => cases h
  | ok a => exact ⟨a, rfl, Except.ok.inj h⟩

theorem map_eq_error {f : α → β} {e : ε} (h : x.map f = .error e) : x = .error e := by
  cases x with
  | error e => exact congrArg Except.error (Except.error.inj h)
  | ok a => cases h

end Results

end Routing
