import Routing.Text.Blank
import Routing.Time.Calendar
/-!
# Moments and their RFC 3339 text

A moment is a second in universal time and a fraction of it; in a leap second the fraction is one
second or more. The reader is lenient: numbers need no leading zeros, parts may be separated by
blanks, and years outside four digits carry a sign. The text has no fraction, or one of three, six
or nine digits, whichever is the shortest that is exact.
-/

namespace Routing.Time

open Text (isBlank trimStart)

/-- A point in universal time, by the seconds since 1970-01-01 and the nanoseconds after them. -/
structure Moment where
  seconds : Int
  nanos : Nat
  deriving DecidableEq, Repr

def digit? (c : Char) : Option Nat :=
  if c.isDigit then some (c.toNat - 48) else none

/-- Reads at least one and, if a limit is given, at most that many digits. -/
def number? (limit : Option Nat) (s : List Char) : Option (Nat × List Char) :=
  let digits := match limit with
    | none => s.takeWhile Char.isDigit
    | some n => (s.take n).takeWhile Char.isDigit
  if digits.isEmpty then none
  else some (digits.foldl (fun n c => 10 * n + (c.toNat - 48)) 0, s.drop digits.length)

def literal? (c : Char) : List Char → Option (List Char)
  | d :: rest => if d = c then some rest else none
  | [] => none

/-- Reads a year: up to four digits, or any number of digits after a sign. -/
def year? (s : List Char) : Option (Int × List Char) :=
  match trimStart s with
  | '-' :: rest => (number? none rest).map fun (n, rest) => (-(n : Int), rest)
  | '+' :: rest => (number? none rest).map fun (n, rest) => ((n : Int), rest)
  | rest => (number? (some 4) rest).map fun (n, rest) => ((n : Int), rest)

/-- Reads a part of one or two digits. -/
def part? (s : List Char) : Option (Nat × List Char) :=
  number? (some 2) (trimStart s)

/-- Reads the fraction of a second in nanoseconds; digits after the ninth are dropped. -/
def fraction? (s : List Char) : Option (Nat × List Char) :=
  match s with
  | '.' :: rest => do
    let (n, after) ← number? (some 9) rest
    let count := rest.length - after.length
    some (n * Nat.pow 10 (9 - count), after.dropWhile Char.isDigit)
  | _ => some (0, s)

/-- Reads the distance from universal time in seconds. -/
def offset? (s : List Char) : Option (Int × List Char) :=
  match s with
  | [] => none
  | c :: rest =>
    if c = 'Z' || c = 'z' then some (0, rest)
    else
      let sign? : Option Int :=
        if c = '+' then some 1 else if c = '-' || c.toNat = 0x2212 then some (-1) else none
      match sign?, rest with
      | some sign, h₁ :: h₂ :: rest =>
        match digit? h₁, digit? h₂, rest.dropWhile fun c => c = ':' || isBlank c with
        | some h₁, some h₂, m₁ :: m₂ :: rest =>
          match digit? m₁, digit? m₂ with
          | some m₁, some m₂ =>
            if m₁ ≤ 5 then
              some (sign * ((10 * h₁ + h₂) * 3600 + (10 * m₁ + m₂) * 60 : Nat), rest)
            else none
          | _, _ => none
        | _, _, _ => none
      | _, _ => none

/-- Reads the name of a zone: `UTC`, in letters of either case, or a distance. -/
def zone? (s : List Char) : Option (Int × List Char) :=
  if (s.take 3).map Char.toUpper = ['U', 'T', 'C'] then some (0, s.drop 3) else offset? s

/-- The years that a moment may lie in. -/
def inRange (year : Int) : Bool :=
  -262143 ≤ year && year ≤ 262142

def Moment.ofChars? (s : List Char) : Option Moment := do
  let (year, s) ← year? s
  let s ← literal? '-' (trimStart s)
  let (month, s) ← part? s
  let s ← literal? '-' (trimStart s)
  let (day, s) ← part? s
  let s ← match s with
    | c :: rest => if c = 'T' || c = 't' || c = ' ' then some rest else none
    | [] => none
  let (hour, s) ← part? s
  let s ← literal? ':' (trimStart s)
  let (minute, s) ← part? s
  let s ← literal? ':' (trimStart s)
  let (second, s) ← part? s
  let (nanos, s) ← fraction? s
  let (offset, s) ← zone? (trimStart s)
  let date : Date := ⟨year, month, day⟩
  if !(trimStart s).isEmpty || !inRange year || !date.isValid then none
  else if 23 < hour || 59 < minute || 60 < second || 86400 ≤ offset.natAbs then none
  else
    let (second, nanos) := if second = 60 then (59, nanos + 1000000000) else (second, nanos)
    let seconds := date.toDays * 86400 + (hour * 3600 + minute * 60 + second : Nat) - offset
    if inRange (Date.ofDays (seconds.fdiv 86400)).year then some ⟨seconds, nanos⟩ else none

def Moment.ofString? (s : String) : Option Moment :=
  Moment.ofChars? s.toList

/-- A year of at least four digits, with a sign outside of four digits. -/
def yearText (year : Int) : String :=
  if year < 0 then "-" ++ padded 4 year.natAbs
  else if year ≤ 9999 then padded 4 year.natAbs
  else "+" ++ toString year

/-- The fraction of a second, with as few groups of three digits as are exact. -/
def fractionText (nanos : Nat) : String :=
  if nanos = 0 then ""
  else if nanos % 1000000 = 0 then "." ++ padded 3 (nanos / 1000000)
  else if nanos % 1000 = 0 then "." ++ padded 6 (nanos / 1000)
  else "." ++ padded 9 nanos

/-- The text of a moment in universal time. -/
def Moment.text (t : Moment) : String :=
  let date := Date.ofDays (t.seconds.fdiv 86400)
  let rest := (t.seconds.fmod 86400).toNat
  let (extra, nanos) := if 1000000000 ≤ t.nanos then (1, t.nanos - 1000000000) else (0, t.nanos)
  yearText date.year ++ "-" ++ padded 2 date.month ++ "-" ++ padded 2 date.day ++ "T" ++
    padded 2 (rest / 3600) ++ ":" ++ padded 2 (rest / 60 % 60) ++ ":" ++
    padded 2 (rest % 60 + extra) ++ fractionText nanos ++ "Z"

end Routing.Time
