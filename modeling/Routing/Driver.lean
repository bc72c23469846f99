import Routing.Stage.Builtin
import Routing.Toml.Value
/-!
# Drivers

A driver entry of a configuration names a driver and its options. `create` makes the stage of an
entry; the options are looked at in a fixed order, and the first wrong one is reported.
-/

namespace Routing

/-- The drivers of the library. -/
inductive Driver where
  | internal
  | filter
  | keyValue
  | assign
  | collect
  deriving DecidableEq, Repr

namespace Driver

def all : List Driver := [internal, filter, keyValue, assign, collect]

def name : Driver → String
  | internal => "internal"
  | filter => "match"
  | keyValue => "kv"
  | assign => "set"
  | collect => "collect"

/-- The kind of statement that a driver may stand in. -/
def kind : Driver → Kind
  | internal => .source
  | filter => .filter
  | keyValue => .parser
  | assign => .rewrite
  | collect => .destination

def description : Driver → String
  | internal => "Messages generated by the daemon itself."
  | filter =>
    "Passes messages whose field contains a value.\n" ++
      "Options: field (default MESSAGE), value, invert."
  | keyValue =>
    "Extracts key=value pairs from a field.\n" ++
      "Options: field (default MESSAGE), separator, prefix."
  | assign =>
    "Assigns a template to a field.\n" ++
      "Options: field, value (template name or inline body)."
  | collect =>
    "Stores messages in a named in-memory buffer.\n" ++
      "Options: buffer (default: default), capacity."

/-- The driver with this name in statements of a kind. -/
def find? (kind : Kind) (name : String) : Option Driver :=
  all.find? fun d => d.name == name && d.kind == kind

end Driver

/-- A driver entry: the name of a driver and its options. -/
structure DriverSpec where
  driver : String
  options : List (String × Toml.Value) := []

namespace DriverSpec

def invalid (spec : DriverSpec) (option reason : String) : Failure :=
  .invalidOption spec.driver option reason

/-- The value of an option that may be left out; `read` says which values are allowed. -/
def option? {α : Type} (spec : DriverSpec) (expected : String) (read : Toml.Value → Option α)
    (option : String) : Except Failure (Option α) :=
  match spec.options.lookup option with
  | none => .ok none
  | some v =>
    match read v with
    | some a => .ok (some a)
    | none => .error (spec.invalid option ("expected a " ++ expected))

def string? (spec : DriverSpec) : String → Except Failure (Option String) :=
  spec.option? "string" fun
    | .string s => some s
    | _ => none

def bool? (spec : DriverSpec) : String → Except Failure (Option Bool) :=
  spec.option? "boolean" fun
    | .bool b => some b
    | _ => none

def integer? (spec : DriverSpec) : String → Except Failure (Option Int) :=
  spec.option? "integer" fun
    | .integer n => some n
    | _ => none

/-- An option that is a text and may not be left out. -/
def string (spec : DriverSpec) (option : String) : Except Failure String := do
  match ← spec.string? option with
  | some s => return s
  | none => throw (spec.invalid option "missing")

/-- The one character of an option, or an equals sign. -/
def separator (spec : DriverSpec) : Except Failure Char := do
  match (← spec.string? "separator").map String.toList with
  | none => return '='
  | some [c] => return c
  | some _ => throw (spec.invalid "separator" "expected a single character")

/-- The greatest number of messages, or zero for any number. -/
def capacity (spec : DriverSpec) : Except Failure Nat := do
  match ← spec.integer? "capacity" with
  | none => return 0
  | some n => if n < 0 then throw (spec.invalid "capacity" "must not be negative") else return n.toNat

end DriverSpec

/-- Makes the stage of a driver entry in a statement of a kind. -/
abbrev Factory (σ ω : Type) :=
  Kind → DriverSpec → Templates → ω → Except Failure σ × ω

namespace Builtin

/-- The name of the buffer that is filled if none is given. -/
def defaultBuffer : String := "default"

/-- The stage of a driver entry, but for its buffer; the name of the buffer stands beside it. -/
def ofSpec (kind : Kind) (spec : DriverSpec) (templates : Templates) :
    Except Failure (Builtin ⊕ (String × Nat)) := do
  match Driver.find? kind spec.driver with
  | none => throw (.unknownDriver kind spec.driver)
  | some .internal => return .inl (internal {})
  | some .filter =>
    let field := (← spec.string? "field").getD Message.textField
    let value ← spec.string "value"
    let invert := (← spec.bool? "invert").getD false
    return .inl (filter { field, value, invert })
  | some .keyValue =>
    let field := (← spec.string? "field").getD Message.textField
    let separator ← spec.separator
    let lead := (← spec.string? "prefix").getD ""
    return .inl (keyValue { field, separator, lead })
  | some .assign =>
    let field ← spec.string "field"
    let template := templates.resolve (← spec.string "value")
    return .inl (assign { field, template })
  | some .collect =>
    let name := (← spec.string? "buffer").getD defaultBuffer
    return .inr (name, ← spec.capacity)

/-- Makes the stage of a driver entry. Destinations with the same buffer name share a buffer. -/
def create : Factory Builtin Shared := fun kind spec templates shared =>
  match ofSpec kind spec templates with
  | .error e => (.error e, shared)
  | .ok (.inl s) => (.ok s, shared)
  | .ok (.inr (name, capacity)) =>
    let (buffer, buffers) := shared.buffers.named name
    (.ok (collect { buffer, capacity }), { shared with buffers })

end Builtin

end Routing
