/-
  Changes of a tree of files at the place a path leads to.  A change that is not
  possible leaves the tree as it is.
-/
import GoDecls.Files.Lookup

namespace GoDecls.Files.Node

/-- The tree with a node where the path leads, following a link at the end if
    `follow` says so. -/
def putAt (root : Node) (follow : Bool) (p : Path) (x : Node) : Node :=
  match root.place follow p with
  | .ok (.found place _) => put x place.reverse root
  | .ok (.missing here name) => put x (name :: here).reverse root
  | .error _ => root

/-- The tree with a directory where the path leads, if nothing is there. -/
def addDir (root : Node) (p : Path) : Node :=
  match root.place true p with
  | .ok (.missing here name) => put emptyDir (name :: here).reverse root
  | _ => root

/-- The tree with the directory a path leads to, and all on the way to it. -/
def makeDir (root : Node) (p : Path) : Node :=
  (List.range (p.segments.length + 1)).foldl (fun n k => n.addDir ⟨p.segments.take k⟩) root

/-- The tree with the directory that the path stands in. -/
def makeParent (root : Node) (p : Path) : Node :=
  match p.parent? with
  | some parent => root.makeDir parent
  | none => root

/-- The tree with a file of the bytes. -/
def write (root : Node) (p : Path) (content : ByteArray) : Node :=
  (root.makeParent p).putAt true p (.file content)

/-- The tree with a symbolic link. -/
def makeLink (root : Node) (p : Path) (target : String) : Node :=
  (root.makeParent p).putAt false p (.link target)

/-- The tree without what stands under the path; a link itself goes, not what it
    leads to. -/
def remove (root : Node) (p : Path) : Node :=
  match root.place false p with
  | .ok (.found place _) => erase place.reverse root
  | _ => root

end GoDecls.Files.Node
