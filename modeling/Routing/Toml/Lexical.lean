import Routing.Toml.Cursor
import Routing.Toml.Value
/-!
# The small parts of a TOML document

Blanks, comments, line ends, keys and the values that hold no other values.
-/

namespace Routing.Toml

open Reader

def apostrophe : Char := Char.ofNat 39

def isBlank (c : Char) : Bool :=
  c = ' ' || c = '\t'

/-- A character that a comment may hold, and a string apart from quotes and backslashes. -/
def isPlain (c : Char) : Bool :=
  c = '\t' || (32 ≤ c.toNat && c.toNat ≠ 127)

def blanks : Reader Unit := do
  let _ ← takeWhile isBlank

def newline : Reader Unit :=
  char '\n' <|> chars ['\r', '\n']

/-- A comment up to the end of its line. -/
def comment : Reader Unit := do
  char '#'
  let _ ← takeWhile isPlain

def finish : Reader Unit := do
  if (← lookahead).isEmpty then return else failure

/-- What may follow a statement on its line. -/
def lineEnd : Reader Unit := do
  blanks
  let _ ← optional comment
  newline <|> finish

/-- Blanks, line ends and comments between the items of an array. -/
def gap : Reader Unit := do
  let _ ← many ((do let _ ← takeWhile1 isBlank) <|> newline <|> do comment; newline)

/-! ### Strings -/

def hexValue (c : Char) : Nat :=
  if c.isDigit then c.toNat - 48
  else if 'a' ≤ c && c ≤ 'f' then c.toNat - 87
  else c.toNat - 55

def isHex (c : Char) : Bool :=
  c.isDigit || ('a' ≤ c && c ≤ 'f') || ('A' ≤ c && c ≤ 'F')

/-- A character by its code of so many hexadecimal digits. -/
def codePoint (count : Nat) : Reader Char := do
  let digits ← (List.replicate count ()).mapM fun _ => one isHex
  let n := digits.foldl (fun n c => 16 * n + hexValue c) 0
  if n.isValidChar then return Char.ofNat n else failure

def escape : Reader Char := do
  char '\\'
  let c ← next
  if c = 'b' then return Char.ofNat 8
  else if c = 't' then return '\t'
  else if c = 'n' then return '\n'
  else if c = 'f' then return Char.ofNat 12
  else if c = 'r' then return '\r'
  else if c = '"' || c = '\\' then return c
  else if c = 'u' then codePoint 4
  else if c = 'U' then codePoint 8
  else failure

/-- A character of a string in double quotes that stands for itself. -/
def unescaped : Reader Char :=
  one fun c => isPlain c && c != '"' && c != '\\'

/-- A character of a string in single quotes. -/
def literalChar : Reader Char :=
  one fun c => isPlain c && c != apostrophe

/-- A string in double quotes on one line. -/
def basicString : Reader String := do
  char '"'
  let text ← many (unescaped <|> escape)
  char '"'
  return String.ofList text

/-- A string in single quotes on one line. -/
def literalString : Reader String := do
  char apostrophe
  let text ← many literalChar
  char apostrophe
  return String.ofList text

/-- One or two quotes inside a string that ends with three. -/
def innerQuotes (quote : Char) : Reader (List Char) := do
  let count := ((← lookahead).takeWhile (· == quote)).length
  if count = 1 || count = 2 then takeWhile (· == quote) else failure

/-- Up to two quotes of the string, and the three that end it. -/
def closingQuotes (quote : Char) : Reader (List Char) := do
  let count := ((← lookahead).takeWhile (· == quote)).length
  let extra := List.replicate (min (count - 3) 2) quote
  chars extra
  chars [quote, quote, quote]
  return extra

/-- A backslash at the end of a line, which joins the next text to this one. -/
def joinedLines : Reader (List Char) := do
  char '\\'
  blanks
  newline
  let _ ← many ((do let _ ← takeWhile1 isBlank) <|> newline)
  return []

/-- The string between three quotes, made of such parts; a line end right after the opening quotes
is left out. -/
def longString (quote : Char) (part : Reader (List Char)) : Reader String := do
  chars [quote, quote, quote]
  let _ ← optional newline
  let parts ← many (part <|> (do newline; return ['\n']) <|> innerQuotes quote)
  let extra ← closingQuotes quote
  return String.ofList (parts.flatten ++ extra)

def longBasicString : Reader String :=
  longString '"' ((do return [← unescaped]) <|> joinedLines <|> do return [← escape])

def longLiteralString : Reader String :=
  longString apostrophe (do return [← literalChar])

def startsLong (quote : Char) : Reader Bool := do
  return [quote, quote, quote].isPrefixOf (← lookahead)

def string : Reader String := do
  if ← startsLong '"' then longBasicString
  else if ← startsLong apostrophe then longLiteralString
  else basicString <|> literalString

/-! ### Keys -/

def isKeyChar (c : Char) : Bool :=
  c.isAlphanum || c = '-' || c = '_'

def keyPart : Reader String :=
  basicString <|> literalString <|> do return String.ofList (← takeWhile1 isKeyChar)

/-- The greatest depth of keys and of values, plus one. -/
def depthLimit : Nat := 80

/-- A key: its parts but the last, and the last. -/
def key : Reader (List String × String) := do
  let part : Reader String := do
    blanks
    let part ← keyPart
    blanks
    return part
  let first ← part
  let parts := first :: (← many (do char '.'; part))
  if depthLimit ≤ parts.length then failure
  else return (parts.dropLast, parts.getLastD first)

/-! ### Numbers and dates -/

/-- Digits of a base, with single underscores between them. -/
def digits (isDigit : Char → Bool) : Reader (List Char) := do
  let first ← one isDigit
  let others ← many (one isDigit <|> do char '_'; one isDigit)
  return first :: others

/-- The number that digits write in a base. -/
def numberIn (base : Nat) (digits : List Char) : Nat :=
  digits.foldl (fun n c => base * n + hexValue c) 0

def signed : Reader Bool := do
  match ← peek with
  | some '-' => do char '-'; return true
  | some '+' => do char '+'; return false
  | _ => return false

def wholeDigits : Reader (List Char) := do
  match ← peek with
  | some '0' => do char '0'; return ['0']
  | _ => digits Char.isDigit

/-- The numbers of 64 bits with a sign. -/
def inRange (n : Int) : Bool :=
  Int64.minValue.toInt ≤ n && n ≤ Int64.maxValue.toInt

/-- A whole number, if it is in range. -/
def ranged (n : Int) : Reader Value :=
  if inRange n then return .integer n else failure

/-- A whole number in base 16, 8 or 2 after its mark. -/
def basedInteger : Reader Value := do
  char '0'
  let mark ← next
  if mark = 'x' then ranged (numberIn 16 (← digits isHex))
  else if mark = 'o' then ranged (numberIn 8 (← digits fun c => '0' ≤ c && c ≤ '7'))
  else if mark = 'b' then ranged (numberIn 2 (← digits fun c => c = '0' || c = '1'))
  else failure

def decimalInteger : Reader Value := do
  let negative ← signed
  let n : Int := numberIn 10 (← wholeDigits)
  ranged (if negative then -n else n)

/-- The floating point number nearest to `m · 10 ^ e`. -/
def floatOf (m : Nat) (e : Int) : Float :=
  let size := ((Nat.toDigits 10 m).length : Int) + e
  if m = 0 || size < -400 then 0
  else if 400 < size then 1 / 0
  else Float.ofScientific m (e < 0) e.natAbs

def exponent : Reader Int := do
  let _ ← one fun c => c = 'e' || c = 'E'
  let negative ← signed
  let n : Int := numberIn 10 (← digits Char.isDigit)
  return if negative then -n else n

def fraction : Reader (List Char) := do
  char '.'
  digits Char.isDigit

/-- A number with a fraction, an exponent or both. Too great a number is refused, but not one too
far below zero. -/
def finiteFloat : Reader Value := do
  let negative ← signed
  let whole ← wholeDigits
  let places ← optional fraction
  let power ← optional exponent
  if places.isNone && power.isNone then failure
  else
    let places := places.getD []
    let x := floatOf (numberIn 10 (whole ++ places)) (power.getD 0 - places.length)
    if negative then return .float (-x)
    else if x.isInf then failure
    else return .float x

/-- An infinite number or what is no number. -/
def specialFloat : Reader Value := do
  let negative ← signed
  let x : Float ← (do chars ['i', 'n', 'f']; return 1 / 0) <|>
    (do chars ['n', 'a', 'n']; return 0 / 0)
  return .float (if negative then -x else x)

/-- So many decimal digits that write a number in this range. -/
def field (count low high : Nat) : Reader Nat := do
  let digits ← (List.replicate count ()).mapM fun _ => one Char.isDigit
  let n := numberIn 10 digits
  if low ≤ n && n ≤ high then return n else failure

def date : Reader Time.Date := do
  let year ← field 4 0 9999
  char '-'
  let month ← field 2 1 12
  char '-'
  let day ← field 2 1 31
  let d : Time.Date := ⟨year, month, day⟩
  if d.isValid then return d else failure

/-- A time of day; digits after the ninth of a fraction are dropped. -/
def clock : Reader Clock := do
  let hour ← field 2 0 23
  char ':'
  let minute ← field 2 0 59
  char ':'
  let second ← field 2 0 60
  let places ← optional (do char '.'; takeWhile1 Char.isDigit)
  let places := (places.getD []).take 9
  return ⟨hour, minute, second, numberIn 10 places * Nat.pow 10 (9 - places.length)⟩

def zone : Reader Zone :=
  (do let _ ← one fun c => c = 'Z' || c = 'z'; return .universal) <|> do
    let sign ← one fun c => c = '+' || c = '-'
    let hours ← field 2 0 23
    char ':'
    let minutes ← field 2 0 59
    let n : Int := (hours * 60 + minutes : Nat)
    return .minutes (if sign = '-' then -n else n)

def dateTime : Reader DateTime :=
  (do
    let d ← date
    let time ← optional do
      let _ ← one fun c => c = 'T' || c = 't' || c = ' '
      let t ← clock
      return (t, ← optional zone)
    return ⟨some d, time.map (·.1), time.bind (·.2)⟩) <|>
  do return ⟨none, some (← clock), none⟩

/-- Reads a text that is a date or time and nothing else. -/
def DateTime.ofString? (s : String) : Option DateTime := do
  let (t, _) ← (do let t ← dateTime; finish; return t : Reader DateTime).run ⟨s.toList, 0⟩
  return t

def number : Reader Value :=
  (do return .datetime (← dateTime)) <|> finiteFloat <|> specialFloat <|> basedInteger <|>
    decimalInteger

def scalar : Reader Value := do
  match ← peek with
  | none => failure
  | some c =>
    if c = '"' || c = apostrophe then return .string (← string)
    else if c = 't' then do chars ['t', 'r', 'u', 'e']; return .bool true
    else if c = 'f' then do chars ['f', 'a', 'l', 's', 'e']; return .bool false
    else number

end Routing.Toml
