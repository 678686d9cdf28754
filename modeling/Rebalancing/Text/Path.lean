import Rebalancing.Text.Split

/-! # Paths

Paths are texts whose parts stand between slashes. A location is what a path means: the names that
lead to a place from the root or from the working directory. -/

namespace Rebalancing

/-- The names on the way to a place. An absolute way starts with a slash. -/
abbrev Location := List String

namespace Path

/-- Whether a path starts at the root. -/
def isAbsolute (path : String) : Bool := path.startsWith "/"

/-- A path inside another. An absolute one stands for itself. -/
def join (base path : String) : String :=
  if isAbsolute path || base = "" then path
  else if base.endsWith "/" then base ++ path
  else base ++ "/" ++ path

/-- Goes one part further. A dot stays where it is, two dots go back. -/
def enter (location : Location) (part : String) : Location :=
  if part = "" ∨ part = "." then location
  else if part = ".." then (if location = ["/"] then location else location.dropLast)
  else location ++ [part]

def location (path : String) : Location :=
  ((Text.splitOn '/' path.toList).map String.ofList).foldl enter (if isAbsolute path then ["/"] else [])

/-- A name without its extension, which is what follows the last dot unless the dot comes first. -/
def stem (name : List Char) : List Char :=
  match Text.splitOnce '.' name.reverse with
  | some (_, before) => if before = [] then name else before.reverse
  | none => name

/-- The name with another extension. -/
def withExtension (name extension : String) : String :=
  String.ofList (stem name.toList) ++ "." ++ extension

end Path

end Rebalancing
