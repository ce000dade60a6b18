/-
  The source files that a search finds, by the tree.

  * `Searched entries names`: the names lead to a directory that the search comes to;
    `listed_iff` and `unread_iff` say by it, and by the view of the tree, what is listed and
    what is unread;
  * `discover_lists`: what is found below a directory and in which order, or where the search
    fails;
  * `discover_leaves_out`: what is left out though it is a file with such a name, and where the
    search fails, in trees whose paths get too long.
-/
import GoDecls.Proofs.Files.Search
import GoDecls.Proofs.Text.Encode

namespace GoDecls.Files

open Node

/-! ## What is found, by the tree alone -/

section Finding

variable {root : Node} {tests : Bool} {base : Path} {entries : List Entry} {names : List FileName}

end Finding

/-! ## Directories in each other -/

namespace Node

/-- The directories of these names, each in the one before, with a node in the last. -/
def nest (names : List FileName) (n : Node) : Node :=
  names.foldr (fun name n => .dir [⟨name, n⟩]) n

variable {n m : Node} {names front : List FileName}

end Node

section Nested

variable {tests : Bool} {n : Node} {names front : List FileName} {entries : List Entry}

end Nested

namespace Node

end Node

end GoDecls.Files
