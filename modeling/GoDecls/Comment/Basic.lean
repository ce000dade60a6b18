/-
  Comments: each is of one of two kinds and covers a stretch of the text, its
  markers included.
-/
import GoDecls.Span

namespace GoDecls

/-- A comment to the end of the line, or one with an end marker. -/
inductive CommentKind where
  | line | block
deriving DecidableEq, Repr

/-- A comment and where it stands. -/
structure Comment where
  kind : CommentKind
  span : Span
deriving DecidableEq, Repr

end GoDecls
