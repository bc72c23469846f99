/-!
# Locations

Where a statement is written: a file, or a text in memory, with a line and a column counted from
one. `LineTable` finds them for the bytes of a text.
-/

namespace Routing

/-- A place in a file, or in a text in memory if there is no file. -/
structure Location where
  file : Option String
  line : Nat
  column : Nat
  deriving DecidableEq, Repr

namespace Location

/-- Line and column zero mean that nothing is known. -/
def isKnown (l : Location) : Bool :=
  l.line != 0 || l.column != 0

def text (l : Location) : String :=
  l.file.getD "#buffer" ++ ":" ++ toString l.line ++ ":" ++ toString l.column

/-- Stands for a location that nobody recorded. -/
def unknown : String := "#unknown"

/-- The text of a location that may be missing. -/
def textOf : Option Location → String
  | some l => l.text
  | none => unknown

end Location

/-- The offsets in bytes at which the lines of a text start. -/
structure LineTable where
  file : Option String
  starts : List Nat
  size : Nat
  deriving DecidableEq, Repr

namespace LineTable

/-- The offsets after the line feeds of a text that starts at `offset`. -/
def startsAfter (offset : Nat) : List Char → List Nat
  | [] => []
  | c :: cs =>
    let next := offset + c.utf8Size
    if c = '\n' then next :: startsAfter next cs else startsAfter next cs

def ofText (file : Option String) (text : String) : LineTable :=
  ⟨file, 0 :: startsAfter 0 text.toList, text.utf8ByteSize⟩

/-- The line and column of a byte; bytes after the end count as the end. -/
def locate (t : LineTable) (offset : Nat) : Location :=
  let offset := min offset t.size
  let before := t.starts.takeWhile (· ≤ offset)
  ⟨t.file, before.length, offset - before.getLastD 0 + 1⟩

end LineTable

end Routing
