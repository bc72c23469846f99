import Routing.Driver
/-!
# Route documents

A route document lists settings, templates, objects and rules. Names and kinds are kept with the
bytes that they take in the text, from which the locations of statements come.
-/

namespace Routing

/-- A value and the bytes that it takes. -/
structure Spanned (α : Type) where
  value : α
  span : Toml.Span
  deriving DecidableEq, Repr

/-- A template of a document. -/
structure TemplateEntry where
  name : String
  body : String
  deriving DecidableEq, Repr

/-- An object of a document. -/
structure ObjectEntry where
  name : Spanned String
  drivers : List DriverSpec := []

mutual

/-- A rule, or a branch of a junction. -/
inductive RuleEntry where
  | mk (flags : List String) (elements : List Element)

/-- An element of a rule. -/
inductive Element where
  /-- An object that is defined elsewhere. -/
  | named (kind : Kind) (name : Spanned String)
  /-- An object in place. -/
  | inline (kind : Spanned Kind) (drivers : List DriverSpec)
  /-- Branches side by side. -/
  | junction (branches : List RuleEntry)

end

def RuleEntry.flags : RuleEntry → List String
  | .mk flags _ => flags

def RuleEntry.elements : RuleEntry → List Element
  | .mk _ elements => elements

/-- A route document. -/
structure Document where
  settings : Settings := {}
  templates : List TemplateEntry := []
  sources : List ObjectEntry := []
  destinations : List ObjectEntry := []
  filters : List ObjectEntry := []
  parsers : List ObjectEntry := []
  rewrites : List ObjectEntry := []
  rules : List RuleEntry := []

end Routing
