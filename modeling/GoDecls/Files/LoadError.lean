/-
  Why the files of a tree cannot be loaded.

  `LoadError.causes` names what is behind an error, the nearest cause first.
-/
import GoDecls.Files.Lookup
import GoDecls.Model.Unit

namespace GoDecls.Files

/-- Why files cannot be loaded. -/
inductive LoadError where
  /-- a file cannot be read -/
  | unreadable (path : Path) (cause : FileError)
  /-- a directory cannot be gone through -/
  | unwalkable (path : Path) (cause : FileError)
  /-- a text has no model -/
  | badUnit (cause : Model.UnitError)
  /-- no `go.mod` belongs to the path -/
  | moduleNotFound (path : Path)
  /-- a `go.mod` does not name its module -/
  | moduleUnnamed (path : Path)
deriving DecidableEq

namespace LoadError

/-- The wording of why files cannot be loaded. -/
def message : LoadError → String
  | .unreadable path cause => "unable to read " ++ path.text ++ ": " ++ cause.message
  | .unwalkable path cause => "IO error for operation on " ++ path.text ++ ": " ++ cause.message
  | .badUnit cause => cause.message
  | .moduleNotFound path => "unable to locate go.mod file for " ++ path.text
  | .moduleUnnamed path => "go module name not found in " ++ path.text

/-- The wordings of what is behind an error. -/
def causes : LoadError → List String
  | .unreadable _ cause | .unwalkable _ cause => [cause.message]
  | .badUnit cause => cause.causes
  | .moduleNotFound _ | .moduleUnnamed _ => []

end LoadError

end GoDecls.Files
