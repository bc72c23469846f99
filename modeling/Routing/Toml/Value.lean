import Routing.Time.Calendar
/-!
# TOML values

`Value` is a value without positions. `Item` is a value as it stands in a document: with the bytes
that it takes and, for a table, how it came to be, which decides what may still be added to it.
-/

namespace Routing.Toml

/-- A time of day. -/
structure Clock where
  hour : Nat
  minute : Nat
  second : Nat
  nanos : Nat
  deriving DecidableEq, Repr

/-- A distance from universal time. -/
inductive Zone where
  | universal
  | minutes (n : Int)
  deriving DecidableEq, Repr

/-- A date, a time of day, or both, with or without a zone. -/
structure DateTime where
  date : Option Time.Date
  clock : Option Clock
  zone : Option Zone
  deriving DecidableEq, Repr

/-- A value without positions. -/
inductive Value where
  | string (s : String)
  | integer (n : Int)
  | float (x : Float)
  | bool (b : Bool)
  | datetime (t : DateTime)
  | array (items : List Value)
  | table (entries : List (String × Value))

/-- The bytes from `start` to before `stop`. -/
structure Span where
  start : Nat
  stop : Nat
  deriving DecidableEq, Repr

/-- How a table came to be. -/
inductive Origin where
  /-- An inline table, which is complete. -/
  | inline
  /-- A table with a header of its own. -/
  | header
  /-- A table that only a longer header mentions. -/
  | implied
  /-- A table that dotted keys fill. -/
  | dotted
  deriving DecidableEq, Repr

/-- A value in a document. -/
inductive Item where
  | scalar (span : Span) (value : Value)
  | array (span : Span) (items : List Item)
  | table (origin : Origin) (span : Option Span) (entries : List (String × Item))
  | tables (items : List Item)

/-- The entries of a table. -/
abbrev Entries := List (String × Item)

/-- The bytes of an item, if they are known. -/
def Item.span? : Item → Option Span
  | .scalar span _ => some span
  | .array span _ => some span
  | .table _ span _ => span
  | .tables _ => none

/-- A clock with its fraction of a second, which ends with a digit that is not zero. -/
def Clock.text (t : Clock) : String :=
  let digits := (Time.padded 9 t.nanos).toList
  let fraction := (digits.reverse.dropWhile (· == '0')).reverse
  Time.padded 2 t.hour ++ ":" ++ Time.padded 2 t.minute ++ ":" ++ Time.padded 2 t.second ++
    if fraction.isEmpty then "" else "." ++ String.ofList fraction

def dateText (d : Time.Date) : String :=
  Time.padded 4 d.year.toNat ++ "-" ++ Time.padded 2 d.month ++ "-" ++ Time.padded 2 d.day

def Zone.text : Zone → String
  | .universal => "Z"
  | .minutes n =>
    (if n < 0 then "-" else "+") ++ Time.padded 2 (n.natAbs / 60) ++ ":" ++
      Time.padded 2 (n.natAbs % 60)

def DateTime.text (t : DateTime) : String :=
  let date := (t.date.map dateText).getD ""
  let separator := if t.date.isSome && t.clock.isSome then "T" else ""
  date ++ separator ++ (t.clock.map Clock.text).getD "" ++ (t.zone.map Zone.text).getD ""

end Routing.Toml
