/-
  The text of comments, without markers.

  A comment gives lines: a line comment its body, less one space at the front, a
  block comment what stands between its markers.  A line comment that is a
  directive to a tool gives none.  Lines lose the blanks at their end; blank
  lines at the front and at the end of all go, and a run of blank lines becomes
  one.
-/
import GoDecls.Comment.Basic

namespace GoDecls.CommentText

/-- The text behind a given beginning, if it begins so. -/
def stripFront? (front cs : List Char) : Option (List Char) :=
  if front.isPrefixOf cs then some (cs.drop front.length) else none

/-- The text before a given end, if it ends so. -/
def stripBack? (back cs : List Char) : Option (List Char) :=
  (stripFront? back.reverse cs.reverse).map List.reverse

/-- A lower-case letter or digit. -/
def isWordChar (c : Char) : Bool := c.isLower || c.isDigit

/-- A body of the form `tool:order`: lower-case letters and digits, a colon, and
    one of them again. -/
def isToolOrder (cs : List Char) : Bool :=
  let tool := cs.takeWhile (· ≠ ':')
  !tool.isEmpty && tool.all isWordChar && ((cs.drop tool.length).tail.head?.any isWordChar)

/-- The bodies of line comments that are directives. -/
def isDirective (cs : List Char) : Bool :=
  ["line ", "extern ", "export "].any (·.toList.isPrefixOf cs) || isToolOrder cs

/-- The body of a comment, if it is not a directive. -/
def body? (kind : CommentKind) (raw : List Char) : Option (List Char) :=
  match kind with
  | .line =>
    match (stripFront? ['/', '/'] raw).getD raw with
    | ' ' :: cs => some cs
    | cs => if isDirective cs then none else some cs
  | .block =>
    let cs := (stripFront? ['/', '*'] raw).getD raw
    some ((stripBack? ['*', '/'] cs).getD cs)

/-- A blank at the end of a line. -/
def isTrailing (c : Char) : Bool := c == ' ' || c == '\t' || c == '\n' || c == '\r'

/-- The line without the blanks at its end. -/
def trimEnd (cs : List Char) : List Char := (cs.reverse.dropWhile isTrailing).reverse

/-- The lines that a comment of the text gives; none if it does not lie in the
    text. -/
def lines (text : List Char) (c : Comment) : List (List Char) :=
  match (c.span.text? text).bind (body? c.kind) with
  | some body => (body.splitOn '\n').map trimEnd
  | none => []

/-- The lines without a blank one behind a blank one, nor at the front unless
    `gap` allows it. -/
def squeeze (gap : Bool) : List (List Char) → List (List Char)
  | [] => []
  | [] :: ls => if gap then [] :: squeeze false ls else squeeze false ls
  | l :: ls => l :: squeeze true ls

/-- The lines without blank ones at the end. -/
def dropBlankEnd (ls : List (List Char)) : List (List Char) :=
  (ls.reverse.dropWhile List.isEmpty).reverse

/-- The text of comments, each line closed by a line feed. -/
def ofComments (text : List Char) (cs : List Comment) : List Char :=
  (dropBlankEnd (squeeze false (cs.flatMap (lines text)))).flatMap (· ++ ['\n'])

end GoDecls.CommentText
