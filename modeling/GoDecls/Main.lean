/-
  The program: the command line on the files of the machine.

  What the request can see of them is copied into a tree first: the directory
  that is named, and the `go.mod` files above it.  Links to files are copied as
  files, and names are taken as texts.
-/
import GoDecls.CommandLine
import GoDecls.Files.Update

namespace GoDecls

open Files

/-- The path of an absolute text. -/
def absolutePath (text : String) : Path := Path.root.resolve text

/-- A file with this name is read; of others only the name matters. -/
def isRead (name : FileName) : Bool := name = .text "go.mod" || isSourceName true name

/-- The bytes of the file with this path and name, if it is one that is read. -/
def readContent (path : String) (name : FileName) : IO ByteArray :=
  if isRead name then IO.FS.readBinFile path else pure .empty

/-- A copy of the directory with this path. -/
partial def copyDir (path : String) : IO Node := do
  let mut entries : List Entry := []
  for e in (← (← IO.FS.realPath path).readDir) do
    let text := e.path.toString
    let node ← match (← e.path.symlinkMetadata).type with
      | .dir => copyDir text
      | .symlink =>
        try
          match (← e.path.metadata).type with
          | .file => .file <$> readContent text (.text e.fileName)
          | _ => pure (.link (← IO.FS.realPath text).toString)
        catch _ => pure (.link text)
      | _ => .file <$> readContent text (.text e.fileName)
    entries := ⟨.text e.fileName, node⟩ :: entries
  return .dir entries

/-- The real path of what stands at a path; links are followed. -/
def realPath (path : Path) : IO Path :=
  return absolutePath (← IO.FS.realPath path.text).toString

/-- The tree with `name` of the directory `dir`, which is a directory or a file at
    `real`: a link if it stands elsewhere, and the `go.mod` file if it is a
    directory. -/
def copyStep (tree : Node) (dir : Path) (name : FileName) (real : Path) : IO Node := do
  let place := dir.join name
  let tree := if place = real || isStay name || name = .text ".." then tree
    else tree.makeLink place real.text
  if (← (← IO.FS.realPath real.text).isDir) then
    let modFile := real.join (.text "go.mod")
    let tree := tree.makeDir real
    try
      if (← (← IO.FS.realPath modFile.text).isDir) then return tree.makeDir modFile
      else return tree.write modFile (← IO.FS.readBinFile modFile.text)
    catch _ => return tree
  else
    return tree.write real (← readContent real.text (real.fileName?.getD (.text "")))

/-- The part of the files of the machine that a request for a directory sees. -/
def copyFiles (cwd : Path) (dir : String) : IO Node := do
  let path := (cwd.resolve dir).normalize
  let mut tree := Node.emptyDir
  let mut dir := Path.root
  for k in List.range path.segments.length do
    try
      let real ← realPath ⟨path.segments.take (k + 1)⟩
      tree ← copyStep tree dir (path.segments[k]?.getD (.text "")) real
      dir := real
    catch _ => return tree
  if (← (← IO.FS.realPath dir.text).isDir) then
    tree := tree.putAt true dir (← copyDir dir.text)
  return tree

end GoDecls

open GoDecls in
/-- Answers the command line. -/
def main (args : List String) : IO UInt32 := do
  let cwd := absolutePath (← IO.currentDir).toString
  let tree ← match CommandLine.Request.ofArgs args with
    | .ok (.list dir _) => copyFiles cwd dir
    | _ => pure .emptyDir
  let reply := CommandLine.run tree cwd args
  (← IO.getStdout).putStr reply.out
  (← IO.getStderr).putStr reply.err
  return UInt32.ofNat reply.code
