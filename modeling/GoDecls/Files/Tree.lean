/-
  Trees of files: directories with named entries, files with their bytes, and
  symbolic links with the text of their target.  All that stands in a tree may be
  read.

  `Node.at?` is the view of a tree by lists of names from the root; links are
  not followed.
-/
import GoDecls.Files.Name

namespace GoDecls.Files

mutual

/-- What stands in a directory under a name. -/
inductive Node where
  | file (content : ByteArray)
  | dir (entries : List Entry)
  | link (target : String)

/-- A name in a directory and what stands there. -/
structure Entry where
  name : FileName
  node : Node

end

namespace Node

/-- The directory without entries. -/
def emptyDir : Node := .dir []

/-- The node is a directory. -/
def isDir : Node → Bool
  | .dir _ => true
  | _ => false

/-- What stands under a name in a list of entries. -/
def find? (entries : List Entry) (name : FileName) : Option Node :=
  (entries.find? (·.name = name)).map (·.node)

/-- The node that names lead to from here. -/
def at? : Node → List FileName → Option Node
  | n, [] => some n
  | .dir entries, name :: rest => (find? entries name).bind fun n => n.at? rest
  | _, _ :: _ => none

/-- The entries with the node under a name changed, or added. -/
def putEntry (name : FileName) (f : Option Node → Node) : List Entry → List Entry
  | [] => [⟨name, f none⟩]
  | e :: es => if e.name = name then ⟨name, f e.node⟩ :: es else e :: putEntry name f es

/-- The tree with `x` at the place that names lead to; missing directories on
    the way are made. -/
def put (x : Node) : List FileName → Node → Node
  | [], _ => x
  | name :: rest, .dir entries =>
    .dir (putEntry name (fun old => put x rest (old.getD emptyDir)) entries)
  | _ :: _, n => n

/-- The tree without what stands at the place that names lead to. -/
def erase : List FileName → Node → Node
  | [], n => n
  | [name], .dir entries => .dir (entries.filter (·.name ≠ name))
  | name :: rest, .dir entries =>
    .dir (entries.map fun e => if e.name = name then ⟨name, erase rest e.node⟩ else e)
  | _ :: _, n => n

end Node

end GoDecls.Files
