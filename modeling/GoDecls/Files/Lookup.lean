/-
  What a path leads to in a tree of files.

  Names go down, `..` goes up, and the root is above itself.  Links on the way
  are followed, and at the end if asked for; a link leads on from the directory
  it stands in, or from the root.
-/
import GoDecls.Files.Path
import GoDecls.Files.Tree

namespace GoDecls.Files

/-- Why a file cannot be read. -/
inductive FileError where
  | notFound | notDirectory | isDirectory | nameTooLong | tooManyLinks | nulInName | notText
deriving DecidableEq, Repr

/-- The wording of why a file cannot be read. -/
def FileError.message : FileError → String
  | .notFound => "No such file or directory (os error 2)"
  | .notDirectory => "Not a directory (os error 20)"
  | .isDirectory => "Is a directory (os error 21)"
  | .nameTooLong => "File name too long (os error 36)"
  | .tooManyLinks => "Too many levels of symbolic links (os error 40)"
  | .nulInName => "file name contained an unexpected NUL byte"
  | .notText => "stream did not contain valid UTF-8"

/-- Where a path leads: to a node at a place, or to a name that is missing in a
    directory.  Places are lists of names, the last one first. -/
inductive Place where
  | found (place : List FileName) (node : Node)
  | missing (dir : List FileName) (name : FileName)

/-- The largest number of bytes of a name. -/
def maxName : Nat := 255

/-- The number of bytes that a path must stay below. -/
def maxPath : Nat := 4096

/-- The largest number of links followed on one way. -/
def maxLinks : Nat := 40

/-- Where segments lead from the directory at the place `here`, following
    `links` links at most, and one at the end only if `follow` says so. -/
def walk (root : Node) (follow : Bool) (links : Nat) (here : List FileName) :
    List FileName → Except FileError Place
  | [] =>
    match root.at? here.reverse with
    | some n => .ok (.found here n)
    | none => .error .notFound
  | s :: rest =>
    match root.at? here.reverse with
    | some (.dir entries) =>
      if isStay s then walk root follow links here rest
      else if s = .text ".." then walk root follow links here.tail rest
      else if maxName < s.size then .error .nameTooLong
      else
        match Node.find? entries s with
        | none => if rest.isEmpty then .ok (.missing here s) else .error .notFound
        | some (.link target) =>
          if rest.isEmpty && !follow then .ok (.found (s :: here) (.link target))
          else
            match links with
            | 0 => .error .tooManyLinks
            | n + 1 =>
              match target.toList with
              | '/' :: cs => walk root follow n [] (splitSlash (String.ofList cs) ++ rest)
              | _ => walk root follow n here (splitSlash target ++ rest)
        | some _ => walk root follow links (s :: here) rest
    | _ => .error .notDirectory
termination_by segments => (links, segments.length)

namespace Node

/-- Where a path leads in the tree. -/
def place (root : Node) (follow : Bool) (p : Path) : Except FileError Place :=
  if p.hasNul then .error .nulInName
  else if maxPath ≤ p.size then .error .nameTooLong
  else walk root follow maxLinks [] p.segments

/-- The node a path leads to. -/
def lookup (root : Node) (follow : Bool) (p : Path) : Except FileError Node :=
  match root.place follow p with
  | .ok (.found _ n) => .ok n
  | .ok (.missing _ _) => .error .notFound
  | .error e => .error e

/-- The path leads to a file. -/
def isFile (root : Node) (p : Path) : Bool :=
  match root.lookup true p with
  | .ok (.file _) => true
  | _ => false

/-- The text of the file a path leads to. -/
def readText (root : Node) (p : Path) : Except FileError String :=
  match root.lookup true p with
  | .ok (.file content) =>
    match String.fromUTF8? content with
    | some text => .ok text
    | none => .error .notText
  | .ok (.dir _) => .error .isDirectory
  | .ok (.link _) => .error .notFound
  | .error e => .error e

end Node

end GoDecls.Files
