/-
  The source files below a path.

  Directories named `vendor` or `testdata`, in any ASCII case, are passed over,
  the one that the search begins in apart.  Links to files count as files; links
  to directories are followed only where the search begins.  What is found comes
  in order, each directory by the names in it.

  The search asks for every file and every directory by its path.  A file that
  cannot be asked for is left out; the first directory that cannot be ends the
  search with an error.  A name that is no text is never that of a source file,
  nor is it passed over.
-/
import GoDecls.Files.LoadError

namespace GoDecls.Files

/-- The name of a directory that is passed over. -/
def isPassedOver : FileName → Bool
  | .text s => s.toLower == "vendor" || s.toLower == "testdata"
  | .raw _ _ => false

/-- The text ends so. -/
def endsWith (s ending : String) : Bool := ending.toList.isSuffixOf s.toList

/-- The name of a source file; those of tests count if `tests` says so. -/
def isSourceName (tests : Bool) : FileName → Bool
  | .text s => endsWith s ".go" && (tests || !endsWith s "_test.go")
  | .raw _ _ => false

/-- What is found in a search, or why it fails. -/
abbrev Found := Except LoadError (List Path)

/-- All that is found in one search after the other, up to the first that fails. -/
def joined : List (FileName × Found) → Found
  | [] => .ok []
  | (_, found) :: rest => found.bind fun files => (joined rest).map (files ++ ·)

/-- What is found under names, in the order of the names. -/
def inOrder (found : List (FileName × Found)) : Found :=
  joined (found.mergeSort fun a b => a.1.le b.1)

mutual

/-- The source files at and below a node that stands at `path` under `name`. -/
def filesAt (root : Node) (tests : Bool) (path : Path) (name : FileName) : Node → Found
  | .dir entries =>
    match root.lookup true path with
    | .error e => .error (.unwalkable path e)
    | .ok _ => inOrder (filesBelow root tests path entries)
  | .file _ | .link _ => .ok (if root.isFile path && isSourceName tests name then [path] else [])

/-- The source files at and below each entry of the directory at `path`. -/
def filesBelow (root : Node) (tests : Bool) (path : Path) : List Entry → List (FileName × Found)
  | [] => []
  | e :: es => filesUnder root tests path e :: filesBelow root tests path es

/-- The source files at and below an entry of the directory at `path`. -/
def filesUnder (root : Node) (tests : Bool) (path : Path) : Entry → FileName × Found
  | ⟨name, node⟩ =>
    (name, if node.isDir && isPassedOver name then .ok []
      else filesAt root tests (path.join name) name node)

end

/-- The name that a search begins with. -/
def startName (path : Path) : FileName := path.fileName?.getD (.text path.text)

/-- The source files at and below a path. -/
def discover (root : Node) (tests : Bool) (path : Path) : Found :=
  match root.lookup false path with
  | .error e => .error (.unwalkable path e)
  | .ok (.link _) =>
    match root.lookup true path with
    | .error e => .error (.unwalkable path e)
    | .ok node => filesAt root tests path (startName path) node
  | .ok node => filesAt root tests path (startName path) node

end GoDecls.Files
