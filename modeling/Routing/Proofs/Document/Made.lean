import Mathlib.Data.List.Forall2
import Routing.Proofs.Document.Wp
/-!
# What documents are built to

The statements of a document mirror its entries. Stages get their handles, and targets their serial
numbers, in the order of the document. Here that is said without the steps of the builder, and the
builder is shown to make just these statements or to stop at a driver that is refused or at an object
in place that must not be one.
-/

namespace Routing

variable {σ ω : Type}

/-! ### What is written -/

/-- An object in place of a name: its kind and its drivers. -/
abbrev InlineEntry := Spanned Kind × List DriverSpec

/-- The drivers of objects in place, with the kinds in which they stand. -/
def InlineEntry.specs (entries : List InlineEntry) : List (Kind × DriverSpec) :=
  entries.flatMap fun entry => entry.2.map (entry.1.value, ·)

mutual

/-- The objects in place, in order. -/
def Element.inlines : Element → List InlineEntry
  | .named _ _ => []
  | .inline kind drivers => [(kind, drivers)]
  | .junction branches => RuleEntry.allInlines branches

/-- The objects in place in a rule, in order. -/
def RuleEntry.inlines : RuleEntry → List InlineEntry
  | .mk _ es => Element.allInlines es

def Element.allInlines : List Element → List InlineEntry
  | [] => []
  | e :: es => e.inlines ++ Element.allInlines es

def RuleEntry.allInlines : List RuleEntry → List InlineEntry
  | [] => []
  | r :: rs => r.inlines ++ RuleEntry.allInlines rs

end

mutual

/-- The bytes of all names and kinds, in order. -/
def Element.spans : Element → List Toml.Span
  | .named _ name => [name.span]
  | .inline kind _ => [kind.span]
  | .junction branches => RuleEntry.allSpans branches

/-- The bytes of all names and kinds in a rule, in order. -/
def RuleEntry.spans : RuleEntry → List Toml.Span
  | .mk _ es => Element.allSpans es

def Element.allSpans : List Element → List Toml.Span
  | [] => []
  | e :: es => e.spans ++ Element.allSpans es

def RuleEntry.allSpans : List RuleEntry → List Toml.Span
  | [] => []
  | r :: rs => r.spans ++ RuleEntry.allSpans rs

end

/-- The entries of objects, in the order in which they are built. -/
def Document.objects (d : Document) : List (Kind × ObjectEntry) :=
  [d.sources.map (.source, ·), d.destinations.map (.destination, ·), d.filters.map (.filter, ·),
    d.parsers.map (.parser, ·), d.rewrites.map (.rewrite, ·)].flatten

/-- The drivers of objects, with the kinds in which they stand. -/
def ObjectEntry.specs (entries : List (Kind × ObjectEntry)) : List (Kind × DriverSpec) :=
  entries.flatMap fun entry => entry.2.drivers.map (entry.1, ·)

/-- All drivers of a document, in the order in which they are made. -/
def Document.specs (d : Document) : List (Kind × DriverSpec) :=
  ObjectEntry.specs d.objects ++ InlineEntry.specs (RuleEntry.allInlines d.rules)

/-! ### What it is made to -/

open Building

/-- Statements for so many stages in a row. -/
def Statement.pipes (n count : Nat) (location : Location) : List Statement :=
  (List.range' n count).map fun h => .pipe h (some location)

mutual

/-- The statement of an element; stages are numbered from `n` and targets from `k`. -/
def Element.made (p : Plan σ ω) (n k : Nat) : Element → Statement
  | .named kind name => .reference kind name.value (some (p.locate name))
  | .inline kind drivers =>
    .inline k kind.value (Statement.pipes n drivers.length (p.locate kind)) (some (p.locate kind))
  | .junction branches => .junction (RuleEntry.allMade p n k branches) (firstInBranches p branches)

/-- The statement of a rule or a branch. -/
def RuleEntry.made (p : Plan σ ω) (n k : Nat) : RuleEntry → Statement
  | .mk names es =>
    .sequence (Element.allMade p n k es) (Flags.ofNames names) (firstInElements p es)

def Element.allMade (p : Plan σ ω) (n k : Nat) : List Element → List Statement
  | [] => []
  | e :: es => e.made p n k ::
      Element.allMade p (n + (InlineEntry.specs e.inlines).length) (k + e.inlines.length) es

def RuleEntry.allMade (p : Plan σ ω) (n k : Nat) : List RuleEntry → List Statement
  | [] => []
  | r :: rs => r.made p n k ::
      RuleEntry.allMade p (n + (InlineEntry.specs r.inlines).length) (k + r.inlines.length) rs

end

/-- The statement of an object. -/
def ObjectEntry.made (p : Plan σ ω) (n : Nat) (kind : Kind) (entry : ObjectEntry) : Statement :=
  .definition kind entry.name.value
    (Statement.pipes n entry.drivers.length (p.locate entry.name)) (some (p.locate entry.name))

def ObjectEntry.allMade (p : Plan σ ω) (n : Nat) : List (Kind × ObjectEntry) → List Statement
  | [] => []
  | (kind, entry) :: rest =>
    entry.made p n kind :: ObjectEntry.allMade p (n + entry.drivers.length) rest

/-- The rules of a document, with stages numbered from `n`. -/
def Document.madeRules (d : Document) (p : Plan σ ω) (n : Nat) : List Statement :=
  RuleEntry.allMade p (n + (ObjectEntry.specs d.objects).length) 0 d.rules

/-- The statements of a document in the order in which they are registered. -/
def Document.made (d : Document) (p : Plan σ ω) (n : Nat) : List Statement :=
  ObjectEntry.allMade p n d.objects ++ d.madeRules p n

namespace Building

/-! ### Sites that fill up -/

/-- The stage is made from the driver and sits in no graph. -/
def Makes (p : Plan σ ω) (spec : Kind × DriverSpec) (i : Instance σ) : Prop :=
  i.inlined = false ∧
    ∃ shared shared', p.factory spec.1 spec.2 p.templates shared = (.ok i.stage, shared')

/-- The stages of these drivers come to the end of a pool, in order. -/
def Fills (p : Plan σ ω) (specs : List (Kind × DriverSpec)) (pool pool' : Pool σ ω) : Prop :=
  ∃ new, pool'.instances.toList = pool.instances.toList ++ new ∧ List.Forall₂ (Makes p) specs new

/-- The stages of these drivers and so many targets are made, and statements still to be
registered. -/
structure Adds (p : Plan σ ω) (specs : List (Kind × DriverSpec)) (targets : Nat)
    (s s' : Site σ ω) : Prop where
  fills : Fills p specs s.pool s'.pool
  serial : s'.serial = s.serial + targets
  catalog : s'.catalog = s.catalog

/-- A driver is refused with this failure. -/
def Refuses (p : Plan σ ω) (spec : Kind × DriverSpec) (e : Failure) : Prop :=
  ∃ shared, (p.factory spec.1 spec.2 p.templates shared).1 = .error e

/-- The failure of an object in place whose kind none may have. -/
def notInline (location : Location) : Failure :=
  .config ("Inline object at " ++ location.text ++ " needs a kind other than pipe")

/-- One of the objects in place is refused with this failure. -/
def RefusesInline (p : Plan σ ω) (entries : List InlineEntry) (e : Failure) : Prop :=
  ∃ entry ∈ entries,
    entry.1.value = .pipe ∧ e = notInline (p.locate entry.1) ∨
      entry.1.value ≠ .pipe ∧ ∃ spec ∈ entry.2, Refuses p (entry.1.value, spec) e

/-- One of the objects is refused with this failure. -/
def RefusesObject (p : Plan σ ω) (entries : List (Kind × ObjectEntry)) (e : Failure) : Prop :=
  ∃ entry ∈ entries, ∃ spec ∈ entry.2.drivers, ∃ inner, Refuses p (entry.1, spec) inner ∧
    e = .within ("In " ++ entry.1.name ++ " '" ++ entry.2.name.value ++ "' at " ++
      (p.locate entry.2.name).text) inner

end Building

end Routing
