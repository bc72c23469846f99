/-!
# Reading with a cursor

A cursor is what is left of a document and the number of bytes read so far. A reader moves the
cursor or refuses; it never says why, as a document is only ever accepted or rejected.
-/

namespace Routing.Toml

/-- What is left of a document, and the number of bytes before it. -/
structure Cursor where
  rest : List Char
  offset : Nat := 0
  deriving DecidableEq, Repr

/-- Reads a part of a document. -/
abbrev Reader (α : Type) := StateT Cursor Option α

namespace Reader

def offset : Reader Nat := do
  return (← get).offset

def peek : Reader (Option Char) := do
  return (← get).rest.head?

def lookahead : Reader (List Char) := do
  return (← get).rest

def next : Reader Char := do
  match ← get with
  | ⟨c :: rest, offset⟩ => set (Cursor.mk rest (offset + c.utf8Size)); return c
  | ⟨[], _⟩ => failure

def one (p : Char → Bool) : Reader Char := do
  let c ← next
  if p c then return c else failure

def char (c : Char) : Reader Unit := do
  let _ ← one (· == c)

def chars : List Char → Reader Unit
  | [] => return
  | c :: cs => do char c; chars cs

/-- Reads all characters up to the first that does not satisfy `p`. -/
def takeWhile (p : Char → Bool) : Reader (List Char) := do
  let ⟨rest, offset⟩ ← get
  let taken := rest.takeWhile p
  set (Cursor.mk (rest.drop taken.length) (offset + (String.ofList taken).utf8ByteSize))
  return taken

/-- Reads at least one character that satisfies `p`, and all that follow. -/
def takeWhile1 (p : Char → Bool) : Reader (List Char) := do
  let taken ← takeWhile p
  if taken.isEmpty then failure else return taken

/-- Reads `r` as often as it accepts, at most once for each character of a budget. -/
def repeated {α : Type} (r : Reader α) : List Char → Reader (List α)
  | [] => return []
  | _ :: budget => do
    match ← optional r with
    | some a => return a :: (← repeated r budget)
    | none => return []

/-- Reads `r` as often as it accepts; each time it has to read a character. -/
def many {α : Type} (r : Reader α) : Reader (List α) := do
  repeated r (← get).rest

/-- Reads `r` and tells which bytes it took. -/
def located {α : Type} (r : Reader α) : Reader (α × Nat × Nat) := do
  let start ← offset
  let a ← r
  return (a, start, ← offset)

end Reader

end Routing.Toml
