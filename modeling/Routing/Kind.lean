/-!
# Kinds of statements, flags and capabilities

The small vocabularies of the library: what a statement is about, how its children hang together,
the flags that its author sets, and the capabilities of a stage.
-/

namespace Routing

/-- What a statement is about. -/
inductive Kind where
  | pipe
  | source
  | filter
  | parser
  | rewrite
  | destination
  deriving DecidableEq, Repr

namespace Kind

def all : List Kind := [pipe, source, filter, parser, rewrite, destination]

def name : Kind → String
  | pipe => "pipe"
  | source => "source"
  | filter => "filter"
  | parser => "parser"
  | rewrite => "rewrite"
  | destination => "destination"

def ofName? (name : String) : Option Kind :=
  all.find? (·.name == name)

end Kind

/-- How the parts of a statement hang together. -/
inductive Shape where
  /-- One stage. -/
  | single
  /-- An object that is defined elsewhere. -/
  | reference
  /-- The children one after the other. -/
  | sequence
  /-- The children side by side. -/
  | junction
  deriving DecidableEq, Repr

namespace Shape

def all : List Shape := [single, reference, sequence, junction]

def name : Shape → String
  | single => "single"
  | reference => "reference"
  | sequence => "sequence"
  | junction => "junction"

def ofName? (name : String) : Option Shape :=
  all.find? (·.name == name)

end Shape

/-- The flags of a statement. -/
structure Flags where
  /-- All sources feed this rule. -/
  catchAll : Bool := false
  /-- The branch gets the messages that no other branch accepts. -/
  fallback : Bool := false
  /-- Later branches do not get the messages that this branch accepts. -/
  final : Bool := false
  /-- The branch holds its sender back instead of losing messages. -/
  flowControl : Bool := false
  deriving DecidableEq, Repr

namespace Flags

def none : Flags := {}

def union (a b : Flags) : Flags :=
  ⟨a.catchAll || b.catchAll, a.fallback || b.fallback, a.final || b.final,
    a.flowControl || b.flowControl⟩

/-- The flags of the first set that are not in the second. -/
def without (a b : Flags) : Flags :=
  ⟨a.catchAll && !b.catchAll, a.fallback && !b.fallback, a.final && !b.final,
    a.flowControl && !b.flowControl⟩

/-- The flag that an author names, or nothing for a name that is no flag. -/
def ofName? (name : String) : Option Flags :=
  if name = "catch-all" || name = "catchall" || name = "catch_all" then
    some { catchAll := true }
  else if name = "fallback" then some { fallback := true }
  else if name = "final" then some { final := true }
  else if name = "flow_control" || name = "flow-control" then some { flowControl := true }
  else .none

/-- The flags that an author names, without the names that are no flags. -/
def ofNames (names : List String) : Flags :=
  names.foldl (fun flags name => flags.union ((ofName? name).getD none)) none

def unknownNames (names : List String) : List String :=
  names.filter fun name => (ofName? name).isNone

/-- The names of the flags in a set. -/
def names (f : Flags) : List String :=
  (if f.catchAll then ["CATCH_ALL"] else []) ++ (if f.fallback then ["FALLBACK"] else []) ++
    (if f.final then ["FINAL"] else []) ++ (if f.flowControl then ["FLOW_CONTROL"] else [])

/-- The set as a number. -/
def bits (f : Flags) : Nat :=
  f.catchAll.toNat + 2 * f.fallback.toNat + 4 * f.final.toNat + 8 * f.flowControl.toNat

end Flags

/-- The capabilities of a stage. A stage declares the first three; compiling adds to them where a
branch starts. -/
structure Capabilities where
  /-- Makes messages and takes none. -/
  isSource : Bool := false
  /-- Changes messages, so that a fork before it has to copy them. -/
  changesMessage : Bool := false
  /-- Holds its sender back until a message is delivered. -/
  hardFlowControl : Bool := false
  /-- Starts a fallback branch. -/
  branchFallback : Bool := false
  /-- Starts a final branch. -/
  branchFinal : Bool := false
  deriving DecidableEq, Repr

namespace Capabilities

def none : Capabilities := {}

def union (a b : Capabilities) : Capabilities :=
  ⟨a.isSource || b.isSource, a.changesMessage || b.changesMessage,
    a.hardFlowControl || b.hardFlowControl, a.branchFallback || b.branchFallback,
    a.branchFinal || b.branchFinal⟩

/-- The capabilities whose bits are set in a number. -/
def ofBits (n : Nat) : Capabilities :=
  ⟨n.testBit 0, n.testBit 1, n.testBit 2, n.testBit 3, n.testBit 4⟩

def ofName? (name : String) : Option Capabilities :=
  if name = "IS_SOURCE" then some { isSource := true }
  else if name = "CHANGES_MESSAGE" then some { changesMessage := true }
  else if name = "HARD_FLOW_CONTROL" then some { hardFlowControl := true }
  else if name = "BRANCH_FALLBACK" then some { branchFallback := true }
  else if name = "BRANCH_FINAL" then some { branchFinal := true }
  else .none

def ofNames (names : List String) : Capabilities :=
  names.foldl (fun caps name => caps.union ((ofName? name).getD none)) none

/-- The names of the capabilities in a set. -/
def names (c : Capabilities) : List String :=
  (if c.isSource then ["IS_SOURCE"] else []) ++
    (if c.changesMessage then ["CHANGES_MESSAGE"] else []) ++
    (if c.hardFlowControl then ["HARD_FLOW_CONTROL"] else []) ++
    (if c.branchFallback then ["BRANCH_FALLBACK"] else []) ++
    (if c.branchFinal then ["BRANCH_FINAL"] else [])

@[simp] theorem union_none (c : Capabilities) : c.union none = c := by
  simp [union, none]

@[simp] theorem none_union (c : Capabilities) : none.union c = c := by
  simp [union, none]

theorem union_assoc (a b c : Capabilities) : (a.union b).union c = a.union (b.union c) := by
  simp [union, Bool.or_assoc]

theorem union_comm (a b : Capabilities) : a.union b = b.union a := by
  simp [union, Bool.or_comm]

end Capabilities

end Routing
