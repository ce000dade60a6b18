/-
  The text of a `go.mod` file, of which only the name of the module is read: it
  stands behind `module ` on a line, and may have double quotes around it and a
  comment behind it.
-/
import GoDecls.Comment.Text
import GoDecls.Text.Blank

namespace GoDecls.ModFile

open CommentText (stripFront? stripBack?)

/-- The text before the first `//`. -/
def beforeComment : List Char → List Char
  | [] => []
  | '/' :: '/' :: _ => []
  | c :: cs => c :: beforeComment cs

/-- The text between double quotes, or the text as it is. -/
def unquoted (cs : List Char) : List Char :=
  ((stripFront? ['"'] cs).bind (stripBack? ['"'])).getD cs

/-- What follows `module ` on a line, less blanks at the ends. -/
def directive? (line : List Char) : Option (List Char) :=
  stripFront? "module ".toList (Text.trim line)

/-- The name on the first line with a module directive, unless it is empty. -/
def moduleName? (text : String) : Option String :=
  match (text.toList.splitOn '\n').findSome? directive? with
  | none => none
  | some rest =>
    let name := unquoted (Text.trim (beforeComment rest))
    if name.isEmpty then none else some (String.ofList name)

end GoDecls.ModFile
