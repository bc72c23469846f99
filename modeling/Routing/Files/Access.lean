import Routing.Failure
import Routing.Files.Path
/-!
# Access to files

What the program does with files, in any monad: the files of the system and those of a `Disk` in
memory are used in the same way.
-/

namespace Routing.Files

/-- The uses of files; a path that leads nowhere is an error of each. -/
structure Access (m : Type → Type) where
  /-- The text of a file. -/
  read : String → m (Except FileError String)
  /-- Makes a directory in one that is there. -/
  makeDir : String → m (Except FileError Unit)
  /-- There is a directory. -/
  isDir : String → m Bool
  /-- Puts text at the end of a file, which is made if it is not there. -/
  append : String → String → m (Except FileError Unit)

namespace Access

variable {m : Type → Type} [Monad m]

/-- Passes over the failure to make a directory that is there. -/
def unlessDir (files : Access m) (path : String) :
    Except FileError Unit → m (Except FileError Unit)
  | .ok _ => return .ok ()
  | .error e => return if ← files.isDir path then .ok () else .error e

/-- Makes the first of some directories, each of which lies in the next; those after it are made
only if they have to be. -/
def makeDirs (files : Access m) : List String → m (Except FileError Unit)
  | [] => return .ok ()
  | path :: above => do
    match ← files.makeDir path with
    | .error .notFound =>
      match ← files.makeDirs above with
      | .error e => return .error e
      | .ok _ => files.unlessDir path (← files.makeDir path)
    | made => files.unlessDir path made

def makeDirAll (files : Access m) (path : String) : m (Except FileError Unit) :=
  files.makeDirs (path :: above path)

end Access

end Routing.Files
