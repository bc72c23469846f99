import Routing.Files.Access
/-!
# Files in memory

A `Disk` holds files and directories by their places below the root. `Disk.walk` follows a path name
by name: each name is looked up in a directory that is there, so that `a/..` needs an `a`.
-/

namespace Routing.Files

/-- Where something is: the names from the root. -/
abbrev Place := List String

/-- What a place holds. -/
inductive Stored where
  | directory
  /-- A file; `none` stands for bytes that are no text. -/
  | file (text : Option String)
  deriving DecidableEq, Repr

/-- Files and directories, and the directory that relative paths start from. -/
structure Disk where
  here : Place
  places : List (Place × Stored) := []
  deriving Repr

namespace Disk

/-- What a place holds, if it is there. -/
def at? (d : Disk) (place : Place) : Option Stored :=
  if place.isEmpty then some .directory else d.places.lookup place

def put (d : Disk) (place : Place) (s : Stored) : Disk :=
  { d with places := (place, s) :: d.places.filter (·.1 ≠ place) }

theorem at?_nil (d : Disk) : d.at? [] = some .directory := rfl

theorem at?_put_self (d : Disk) {place : Place} (s : Stored) (h : place ≠ []) :
    (d.put place s).at? place = some s := by
  simp [at?, put, h]

/-- Sets what a place holds and makes the directories above it. -/
def store (d : Disk) (place : Place) (s : Stored) : Disk :=
  let missing := (starts place.dropLast).filter fun above => (d.at? above).isNone
  (missing.foldr (fun above d => d.put above .directory) d).put place s

/-- The most bytes in a name. -/
def nameLimit : Nat := 255

/-- The most bytes in a path. -/
def pathLimit : Nat := 4095

/-- Whether a name may be looked up in a place. -/
def lookIn (d : Disk) (place : Place) (name : String) : Except FileError Unit :=
  match d.at? place with
  | none => .error .notFound
  | some (.file _) => .error .notDirectory
  | some .directory => if nameLimit < name.utf8ByteSize then .error .nameTooLong else .ok ()

/-- The place that a name leads to; one dot stays and two dots go up. -/
def step (d : Disk) (place : Place) (name : String) : Except FileError Place := do
  d.lookIn place name
  if name = "." then return place
  else if name = ".." then return place.dropLast
  else if (d.at? (place ++ [name])).isSome then return place ++ [name]
  else throw .notFound

/-- The name is one of those that stand for a place with another name. -/
def isDots (name : String) : Bool :=
  name = "." || name = ".."

/-- The text can be the path of something. -/
def checkPath (path : String) : Except FileError Unit :=
  if path.toList.any (·.toNat = 0) then .error .zeroByte
  else if path.isEmpty then .error .notFound
  else if pathLimit < path.utf8ByteSize then .error .nameTooLong
  else .ok ()

def origin (d : Disk) (path : String) : Place :=
  if isAbsolute path then [] else d.here

/-- The place that a path leads to. A slash at the end asks for a directory. -/
def walk (d : Disk) (path : String) : Except FileError Place := do
  checkPath path
  let last := if path.endsWith "/" then ["."] else []
  (names path ++ last).foldlM d.step (d.origin path)

/-- The directory and the name in it of something that may yet be made. -/
def target (d : Disk) (path : String) : Except FileError (Place × String) := do
  checkPath path
  match (names path).getLast? with
  | none => throw .exists
  | some name =>
    let place ← (names path).dropLast.foldlM d.step (d.origin path)
    d.lookIn place name
    return (place, name)

def read (d : Disk) (path : String) : Except FileError String := do
  match d.at? (← d.walk path) with
  | none => throw .notFound
  | some .directory => throw .isDirectory
  | some (.file none) => throw .notText
  | some (.file (some text)) => return text

def isDir (d : Disk) (path : String) : Bool :=
  match d.walk path with
  | .ok place => d.at? place = some .directory
  | .error _ => false

def makeDir (d : Disk) (path : String) : Except FileError Disk := do
  let (place, name) ← d.target path
  if isDots name || (d.at? (place ++ [name])).isSome then throw .exists
  else return d.put (place ++ [name]) .directory

/-- Puts text at the end of a file. -/
def append (d : Disk) (path : String) (more : String) : Except FileError Disk := do
  let (place, name) ← d.target path
  if isDots name then throw .isDirectory
  match d.at? (place ++ [name]) with
  | none => return d.put (place ++ [name]) (.file (some more))
  | some .directory => throw .isDirectory
  | some (.file text) => return d.put (place ++ [name]) (.file (text.map (· ++ more)))

/-- Keeps the disk that a change leads to. -/
def keep (change : Disk → Except FileError Disk) : StateM Disk (Except FileError Unit) := do
  match change (← get) with
  | .ok d => set d; return .ok ()
  | .error e => return .error e

/-- Access to the files of a disk in memory. -/
def access : Access (StateM Disk) where
  read path := return (← get).read path
  makeDir path := keep (·.makeDir path)
  isDir path := return (← get).isDir path
  append path more := keep (·.append path more)

end Disk

end Routing.Files
