/-
  Units of the source files in a tree.
-/
import GoDecls.Files.Discover
import GoDecls.Files.Module

namespace GoDecls.Files

/-- What is loaded besides the source files themselves. -/
structure LoadOptions where
  /-- find the module of each file -/
  modules : Bool
  /-- take the files of tests too -/
  tests : Bool
deriving DecidableEq, Repr

/-- The unit of a source file. -/
def loadFile (root : Node) (modules : Bool) (path : Path) : Except LoadError Model.SourceUnit :=
  let file := path.normalize
  match root.readText file with
  | .error cause => .error (.unreadable file cause)
  | .ok text =>
    (if modules then locate root file else .ok .none).bind fun module =>
      (Model.SourceUnit.ofText text file.text module).mapError .badUnit

/-- The units of the source files at and below a path, in order. -/
def loadDirectory (root : Node) (options : LoadOptions) (path : Path) :
    Except LoadError (List Model.SourceUnit) :=
  (discover root options.tests path.normalize).bind fun files =>
    files.mapM (loadFile root options.modules)

end GoDecls.Files
