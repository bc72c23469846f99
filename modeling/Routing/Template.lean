import Routing.Message
import Routing.Text.Offset
/-!
# Templates

The body of a template is literal text with fields in `${…}`. To expand it, the next `${` and the next
closing brace are looked for, and the body is cut there; the value of the field is put out and not
read again. A `${` without a brace after it is literal.
-/

namespace Routing

/-- A text with fields. -/
structure Template where
  name : String
  body : String
  /-- Made from an option and never registered. -/
  isInline : Bool := false
  deriving DecidableEq, Repr

namespace Template

def inline (body : String) : Template :=
  ⟨body, body, true⟩

/-- The value that a field is replaced by; a field without a value is left out. -/
def value (lookup : String → Option String) (name : List Char) : List Char :=
  ((lookup (String.ofList name)).getD "").toList

/-- What is put out for a body up to the end of the field that begins at `start`, and what is left of
the body then. There is nothing if a cut cannot be made. -/
def field? (lookup : String → Option String) (start : Nat) (body : List Char) :
    Option (List Char × List Char) := do
  let before ← Text.upTo? start body
  let after ← Text.from? (start + 2) body
  match Text.placeOf ['}'] after with
  | some stop =>
    let name ← Text.upTo? stop after
    let rest ← Text.from? (stop + 1) after
    return (before ++ value lookup name, rest)
  | none =>
    let verbatim ← Text.from? start body
    return (before ++ verbatim, [])

theorem length_field? {lookup : String → Option String} {start : Nat} {body out rest : List Char}
    (h : field? lookup start body = some (out, rest)) : rest.length < body.length := by
  simp only [field?, Option.bind_eq_bind, Option.bind_eq_some_iff] at h
  obtain ⟨before, -, after, hafter, h⟩ := h
  have hlt := Text.length_from? hafter (Nat.succ_pos _)
  split at h
  · simp only [Option.bind_eq_some_iff, Option.pure_def, Option.some.injEq, Prod.mk.injEq] at h
    obtain ⟨name, -, rest', hrest, -, rfl⟩ := h
    exact Nat.lt_trans (Text.length_from? hrest (Nat.succ_pos _)) hlt
  · simp only [Option.bind_eq_some_iff, Option.pure_def, Option.some.injEq, Prod.mk.injEq] at h
    obtain ⟨verbatim, -, -, rfl⟩ := h
    exact Nat.lt_of_le_of_lt (Nat.zero_le _) hlt

/-- A body with the values of its fields, unless a cut cannot be made. -/
def expandFrom (lookup : String → Option String) (body : List Char) : Option (List Char) :=
  match Text.placeOf ['$', '{'] body with
  | none => some body
  | some start =>
    match h : field? lookup start body with
    | none => none
    | some (out, rest) =>
      have : rest.length < body.length := length_field? h
      (expandFrom lookup rest).map (out ++ ·)
  termination_by body.length

def expand? (t : Template) (lookup : String → Option String) : Option String :=
  (expandFrom lookup t.body.toList).map String.ofList

/-- The text of a template with the values of its fields. All cuts can be made, so there is one. -/
def expand (t : Template) (lookup : String → Option String) : String :=
  (t.expand? lookup).getD ""

end Template

/-- The templates of a configuration in the order of their definitions. -/
structure Templates where
  all : List Template := []
  deriving DecidableEq, Repr

namespace Templates

def find? (ts : Templates) (name : String) : Option Template :=
  ts.all.find? (·.name == name)

/-- Adds a template, unless there is one of its name; whether it was added. -/
def add (ts : Templates) (t : Template) : Bool × Templates :=
  if (ts.find? t.name).isSome then (false, ts) else (true, ⟨ts.all ++ [t]⟩)

/-- The template with this name, or else the text itself as a template. -/
def resolve (ts : Templates) (text : String) : Template :=
  (ts.find? text).getD (.inline text)

end Templates

end Routing
