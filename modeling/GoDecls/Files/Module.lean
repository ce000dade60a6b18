/-
  The module that a file belongs to: that of the nearest `go.mod` in the
  directories above the file, which are found by the writing of its path.  The
  search does not go beyond a directory named `vendor`, or one whose name is no
  text.
-/
import GoDecls.Files.LoadError
import GoDecls.Files.ModFile

namespace GoDecls.Files

/-- The module of `file`, looked for in `dir` and above; `below` are the names
    of the directories from there down to the file. -/
def locateFrom (root : Node) (file dir : Path) (below : List String) :
    Except LoadError Model.Module :=
  let modFile := dir.join (.text "go.mod")
  match root.readText modFile with
  | .ok text =>
    match ModFile.moduleName? text with
    | some name => .ok ⟨name, "/".intercalate below⟩
    | none => .error (.moduleUnnamed modFile)
  | .error .notFound =>
    match dir.fileName?.bind FileName.text? with
    | none => .error (.moduleNotFound file)
    | some name =>
      if name.toLower = "vendor" then .error (.moduleNotFound file)
      else
        match _h : dir.parent? with
        | none => .error (.moduleNotFound file)
        | some up => locateFrom root file up (name :: below)
  | .error cause => .error (.unreadable modFile cause)
termination_by dir.segments.length
decreasing_by exact Path.length_of_parent? _h

/-- The module that a file belongs to. -/
def locate (root : Node) (file : Path) : Except LoadError Model.Module :=
  match file.parent? with
  | none => .error (.moduleNotFound file)
  | some dir => locateFrom root file dir []

end GoDecls.Files
