/-
  Where the lines, tokens and comments of a text lie, and which comments belong
  together and to what.

  Comments form groups: a comment joins the group before it if no token stands
  between and it begins on the line below the group's end at the latest; in a
  group that trails a token it must begin on the same line.

  * `docFor?` is the group that documents what begins at a position: it ends on
    the line above and trails no token;
  * `lineCommentAfter?` is the group that trails what ends at a position.
-/
import GoDecls.Comment.Basic
import GoDecls.Token.Basic

namespace GoDecls

/-- Comments that belong together, and the stretch from the first to the last. -/
structure CommentGroup where
  comments : List Comment
  span : Span
  /-- the group begins on the line where the token before it ends -/
  trailing : Bool
deriving DecidableEq, Repr

/-- The layout of a text: the offsets of its line feeds, the stretches of its
    tokens, inserted semicolons apart, and its comment groups. -/
structure Layout where
  lineFeeds : List Nat
  tokens : List Span
  groups : List CommentGroup
deriving Repr

namespace Layout

/-- The offsets of the line feeds of a text that begins at `pos`. -/
def lineFeedsFrom (pos : Nat) : List Char → List Nat
  | [] => []
  | c :: cs =>
    if c = '\n' then pos :: lineFeedsFrom (pos + c.utf8Size) cs
    else lineFeedsFrom (pos + c.utf8Size) cs

/-- The line of a position, counted from zero. -/
def line (l : Layout) (pos : Nat) : Nat := l.lineFeeds.countP (· < pos)

/-- A token begins at `start` or behind, and before `stop`. -/
def tokenBetween (l : Layout) (start stop : Nat) : Bool :=
  l.tokens.any fun t => start ≤ t.start && t.start < stop

/-- Where the last token ends that begins before the position. -/
def tokenEndBefore? (l : Layout) (pos : Nat) : Option Nat :=
  ((l.tokens.filter (·.start < pos)).getLast?).map Span.stop

/-- The position is on the line where the token before it ends. -/
def trails (l : Layout) (pos : Nat) : Bool :=
  (l.tokenEndBefore? pos).any fun stop => l.line stop == l.line pos

/-! ## Groups -/

/-- A comment as a group of its own. -/
def single (l : Layout) (c : Comment) : CommentGroup :=
  ⟨[c], .ofOffsets c.span.start c.span.stop, l.trails c.span.start⟩

/-- The comment belongs to the group before it. -/
def joins (l : Layout) (g : CommentGroup) (c : Comment) : Bool :=
  !l.tokenBetween g.span.stop c.span.start &&
    l.line c.span.start ≤ l.line g.span.stop + (if g.trailing then 0 else 1)

/-- The group with one more comment. -/
def extend (g : CommentGroup) (c : Comment) : CommentGroup :=
  { g with comments := g.comments ++ [c], span := .ofOffsets g.span.start c.span.stop }

/-- The groups of the comments behind an open group. -/
def groupFrom (l : Layout) (g : CommentGroup) : List Comment → List CommentGroup
  | [] => [g]
  | c :: cs =>
    if l.joins g c then l.groupFrom (extend g c) cs else g :: l.groupFrom (l.single c) cs

/-- The groups of comments in the order of the text. -/
def group (l : Layout) : List Comment → List CommentGroup
  | [] => []
  | c :: cs => l.groupFrom (l.single c) cs

/-- The layout of a text, its tokens and its comments. -/
def of (text : List Char) (tokens : List Lexeme) (comments : List Comment) : Layout :=
  let bare : Layout :=
    { lineFeeds := lineFeedsFrom 0 text,
      tokens := (tokens.filter (!·.isInserted)).map fun t => ⟨t.start, t.stop⟩,
      groups := [] }
  { bare with groups := bare.group comments }

/-! ## What a group belongs to -/

/-- The number of the group that documents what begins at the position. -/
def docFor? (l : Layout) (pos : Nat) : Option Nat :=
  match (l.groups.zipIdx.filter (·.1.span.start < pos)).getLast? with
  | none => none
  | some (g, i) =>
    if !g.trailing && g.span.stop ≤ pos && l.line g.span.stop + 1 == l.line pos &&
        !l.tokenBetween g.span.stop pos then some i
    else none

/-- The number of the group that trails what ends at the position. -/
def lineCommentAfter? (l : Layout) (pos : Nat) : Option Nat :=
  match l.groups.zipIdx.find? (pos ≤ ·.1.span.start) with
  | none => none
  | some (g, i) =>
    if g.trailing && l.line g.span.start == l.line pos && !l.tokenBetween pos g.span.start then
      some i
    else none

end Layout

end GoDecls
