import Routing.Failure
import Routing.Location
/-!
# Statements

A statement is one construct of a configuration: a stage, a reference, a sequence or a junction.
Any statement may hold a stage or a target, but only single statements and references make use of
them. A target has a serial number, by which what it compiles to is remembered.
-/

namespace Routing

/-- What a statement says apart from its parts. -/
structure Heading where
  shape : Shape
  kind : Kind
  name : Option String := none
  flags : Flags := .none
  location : Option Location := none
  /-- The stage to which references to this statement are joined, if that is settled before. -/
  memo : Option SlotId := none
  deriving DecidableEq, Repr

mutual

/-- A statement. -/
inductive Statement where
  | mk (heading : Heading) (object : Object) (children : List Statement)

/-- What a statement holds. -/
inductive Object where
  | empty
  /-- A stage, by its handle. -/
  | stage (handle : Nat)
  /-- The statement that a reference stands for. -/
  | target (serial : Nat) (statement : Statement)

end

mutual

/-- The number of statements in a statement, targets included. -/
def Statement.size : Statement → Nat
  | .mk _ o cs => 1 + o.size + Statement.sizes cs

/-- The number of statements in what a statement holds. -/
def Object.size : Object → Nat
  | .empty => 0
  | .stage _ => 0
  | .target _ s => s.size

def Statement.sizes : List Statement → Nat
  | [] => 0
  | s :: ss => s.size + Statement.sizes ss

end

mutual

/-- A number greater than the serial numbers of all targets in a statement. -/
def Statement.serialBound : Statement → Nat
  | .mk _ o cs => max o.serialBound (Statement.serialBounds cs)

/-- A number greater than the serial numbers of all targets in what a statement holds. -/
def Object.serialBound : Object → Nat
  | .empty => 0
  | .stage _ => 0
  | .target serial s => max (serial + 1) s.serialBound

/-- A number greater than the serial numbers of all targets in a list. -/
def Statement.serialBounds : List Statement → Nat
  | [] => 0
  | s :: ss => max s.serialBound (Statement.serialBounds ss)

end

namespace Heading

def displayName (h : Heading) : String :=
  h.name.getD "unnamed"

/-- The location of the statement, if it is known. -/
def located (h : Heading) : Option Location :=
  h.location.filter Location.isKnown

/-- What messages say about the statement, given where it counts as written. -/
def describe (h : Heading) (location : Option Location) : Descriptor :=
  ⟨h.kind, h.displayName, Location.textOf location⟩

end Heading

namespace Statement

/-! ### Parts -/

/-- What the statement says apart from its parts. -/
def heading : Statement → Heading
  | mk h _ _ => h

def object : Statement → Object
  | mk _ o _ => o

def children : Statement → List Statement
  | mk _ _ cs => cs

def shape (s : Statement) : Shape := s.heading.shape

def kind (s : Statement) : Kind := s.heading.kind

def name (s : Statement) : Option String := s.heading.name

def flags (s : Statement) : Flags := s.heading.flags

/-- The location of the statement, if it is known. -/
def located (s : Statement) : Option Location := s.heading.located

/-! ### Making statements -/

def pipe (handle : Nat) (location : Option Location) : Statement :=
  mk { shape := .single, kind := .pipe, location } (.stage handle) []

/-- An object: a sequence with a kind and a name. -/
def definition (kind : Kind) (name : String) (children : List Statement)
    (location : Option Location) : Statement :=
  mk { shape := .sequence, kind, name := some name, location } .empty children

/-- A reference to the object with this kind and name. -/
def reference (kind : Kind) (name : String) (location : Option Location) : Statement :=
  mk { shape := .reference, kind, name := some name, location } .empty []

def inline (serial : Nat) (kind : Kind) (children : List Statement) (location : Option Location) :
    Statement :=
  mk { shape := .reference, kind, location }
    (.target serial (mk { shape := .sequence, kind, location } .empty children)) []

/-- A sequence without a name: a rule, or a branch of a junction. -/
def sequence (children : List Statement) (flags : Flags) (location : Option Location) : Statement :=
  mk { shape := .sequence, kind := .pipe, flags, location } .empty children

def junction (children : List Statement) (location : Option Location) : Statement :=
  mk { shape := .junction, kind := .pipe, location } .empty children

/-! ### Changing statements -/

def mapHeading (f : Heading → Heading) : Statement → Statement
  | mk h o cs => mk (f h) o cs

def setFlags (flags : Flags) : Statement → Statement :=
  mapHeading fun h => { h with flags }

def insertFlags (flags : Flags) : Statement → Statement :=
  mapHeading fun h => { h with flags := h.flags.union flags }

def removeFlags (flags : Flags) : Statement → Statement :=
  mapHeading fun h => { h with flags := h.flags.without flags }

def setName (name : Option String) : Statement → Statement :=
  mapHeading fun h => { h with name }

def setLocation (location : Option Location) : Statement → Statement :=
  mapHeading fun h => { h with location }

/-- The statement with the stage settled to which its references are joined. -/
def setMemo (memo : Option SlotId) : Statement → Statement :=
  mapHeading fun h => { h with memo }

def embed (object : Object) : Statement → Statement
  | mk h _ cs => mk h object cs

/-- The statement with more children after its own. -/
def append (more : List Statement) : Statement → Statement
  | mk h o cs => mk h o (cs ++ more)

/-- The statement with more children before its own. -/
def prepend (more : List Statement) : Statement → Statement
  | mk h o cs => mk h o (more ++ cs)

end Statement

/-- The children of a statement are set twice. -/
structure ChildrenSet where
  shape : Shape
  name : String
  deriving DecidableEq, Repr

def ChildrenSet.message (e : ChildrenSet) : String :=
  "children of " ++ e.shape.name ++ " node " ++ e.name ++ " are already set"

/-- The statement with these children, if it has none yet. -/
def Statement.setChildren (children : List Statement) : Statement → Except ChildrenSet Statement
  | .mk h o [] => .ok (.mk h o children)
  | .mk h _ (_ :: _) => .error ⟨h.shape, h.displayName⟩

end Routing
