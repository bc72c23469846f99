import Routing.Text.Blank
/-!
# Paths

A path is a text of names with slashes between them. `above` gives the directories that have to be
there before the last one can be made.
-/

namespace Routing.Files

def isAbsolute (path : String) : Bool :=
  path.startsWith "/"

/-- The names of a path; slashes side by side hold none. -/
def names (path : String) : List String :=
  (Text.pieces (· == '/') path.toList).filter (!·.isEmpty) |>.map String.ofList

/-- The names without those that stay where they are, save one at the start. -/
def steps : List String → List String
  | [] => []
  | n :: ns => n :: ns.filter (· ≠ ".")

/-- The lists that a list starts with, the longest first and the empty one left out. -/
def starts {α : Type} : List α → List (List α)
  | [] => []
  | a :: as => (starts as).map (a :: ·) ++ [[a]]

def join (absolute : Bool) (names : List String) : String :=
  (if absolute then "/" else "") ++ "/".intercalate names

/-- The paths above a path, the nearest first, as far as they have names; for a path from the root,
the root is the last. -/
def above (path : String) : List String :=
  let absolute := isAbsolute path
  let steps := if absolute then (names path).filter (· ≠ ".") else steps (names path)
  (starts steps.dropLast).map (join absolute) ++
    if absolute && !steps.isEmpty then ["/"] else []

end Routing.Files
