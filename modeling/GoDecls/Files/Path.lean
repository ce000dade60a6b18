/-
  Absolute paths, as they are written: the segments behind the first slash.  An
  empty segment stands between two slashes that follow each other, and at the
  end behind a trailing slash.

  * `Path.parent?` and `Path.fileName?` go by the writing alone;
  * `Path.normalize` leaves out what does not change the meaning of a path.
-/
import GoDecls.Files.Name

namespace GoDecls.Files

/-- An absolute path, by the segments behind its first slash. -/
structure Path where
  segments : List FileName
deriving DecidableEq

/-- A segment that stays in the directory: an empty one, or a dot. -/
def isStay (s : FileName) : Bool := s = .text "" || s = .text "."

/-- The segments of a text between slashes. -/
def splitSlash (s : String) : List FileName :=
  (s.toList.splitOn '/').map fun cs => .text (String.ofList cs)

namespace Path

/-- The root directory. -/
def root : Path := ⟨[]⟩

/-- The text that the path is shown as. -/
def text (p : Path) : String := "/" ++ "/".intercalate (p.segments.map FileName.shown)

/-- The number of bytes of segments, each with a slash before it. -/
def bytesOf : List FileName → Nat
  | [] => 0
  | s :: ss => s.size + 1 + bytesOf ss

/-- The number of bytes of the path.  The root is one slash. -/
def size (p : Path) : Nat := max 1 (bytesOf p.segments)

/-- A byte of the path is zero. -/
def hasNul (p : Path) : Bool := p.segments.any FileName.hasNul

/-- The path that ends in more segments.  A trailing slash serves as the slash
    between. -/
def append (p : Path) (more : List FileName) : Path :=
  ⟨(if p.segments.getLast? = some (.text "") then p.segments.dropLast else p.segments) ++ more⟩

/-- The path of a name in the directory. -/
def join (p : Path) (name : FileName) : Path := p.append [name]

/-- The path of a text, which is taken from `p` on unless it begins with a
    slash. -/
def resolve (p : Path) (text : String) : Path :=
  match text.toList with
  | '/' :: cs => ⟨splitSlash (String.ofList cs)⟩
  | _ => p.append (splitSlash text)

/-- The segments with the last one first, from the last one that does not stay. -/
def upwards (segments : List FileName) : List FileName := segments.reverse.dropWhile isStay

/-- The path without its last segment; the root has none. -/
def parent? (p : Path) : Option Path :=
  match upwards p.segments with
  | [] => none
  | _ :: before => some ⟨(before.dropWhile isStay).reverse⟩

/-- The last segment, unless it leads upwards. -/
def fileName? (p : Path) : Option FileName :=
  match upwards p.segments with
  | [] => none
  | s :: _ => if s = .text ".." then none else some s

theorem length_upwards_le (ss : List FileName) : (upwards ss).length ≤ ss.length := by
  have h := (List.dropWhile_suffix (l := ss.reverse) isStay).length_le
  simpa [upwards] using h

/-- A parent has fewer segments. -/
theorem length_of_parent? {p q : Path} (h : p.parent? = some q) :
    q.segments.length < p.segments.length := by
  have hu := length_upwards_le p.segments
  unfold parent? at h
  split at h
  · simp at h
  · next before e =>
    have hb := (List.dropWhile_suffix (l := before) isStay).length_le
    simp only [Option.some.injEq] at h
    simp only [e, List.length_cons] at hu
    simp only [← h, List.length_reverse]
    omega

/-- Exactly two slashes stand at the front, which some systems tell from one. -/
def hasDoubleSlash (p : Path) : Bool :=
  match p.segments with
  | [.text "", .text ""] => true
  | .text "" :: s :: _ => s != .text ""
  | _ => false

/-- The path without segments that stay; a trailing slash is kept. -/
def normalize (p : Path) : Path :=
  let names := p.segments.filter (!isStay ·)
  let front := if p.hasDoubleSlash then [.text ""] else []
  let back := if p.segments.getLast? = some (.text "") then [.text ""] else []
  if names.isEmpty then ⟨front ++ front⟩ else ⟨front ++ names ++ back⟩

end Path

end GoDecls.Files
