/-
  Reading of tokens by their index, in loops.

  The tokens of a text stay where they are, and a position among them is moved on.
  Unlike that of a cursor, the type of such a reader says nothing about where it ends:
  it may move back, or beyond the tokens, or not at all, or not come to an end; and
  where it takes the token at an index, there may be none.

  * `Read` is what such readers are: none comes of one that does not end;
  * `Round` is one round of a loop, which goes on or leaves the loop; `memberRound` and
    `listRound` are those of members between semicolons and of items between commas.
-/
import GoDecls.Tree.Types

namespace GoDecls.Indexed

open Tree

/-- The tokens of a text, and its size. -/
structure Tokens where
  list : List Lexeme
  size : Nat

/-- The index of the token to be read next, and the end of the last one read that has
    extent. -/
structure Position where
  index : Nat
  last : Nat

/-- Why there is no value: there is a diagnostic, or there is no token at an index. -/
inductive Stop where
  | refused (fault : Diagnostic)
  | outOfRange

/-- A reader that may not end. -/
abbrev Read := ExceptT Stop (StateT Position Option)

/-- What comes of a reader at a position, and the position then. -/
def Read.run {α : Type} (m : Read α) (p : Position) : Option (Except Stop α × Position) :=
  (ExceptT.run m).run p

/-- A value or a diagnostic; there is no value in a missing token. -/
def attempt {α : Type} (m : Read α) : Read (Except Diagnostic α) :=
  tryCatch (Except.ok <$> m) fun
    | .refused fault => return .error fault
    | .outOfRange => throw .outOfRange

/-! ## Tokens and their places -/

/-- The index of the token to be read next. -/
def index : Read Nat :=
  return (← get).index

/-- The end of the last token read that has extent. -/
def lastEnd : Read Nat :=
  return (← get).last

/-- The stretch from `start` to the end of the last token read. -/
def spanFrom (start : Nat) : Read Span :=
  return .ofOffsets start (max (← lastEnd) start)

/-- The token `n` places on. -/
def Tokens.nth (toks : Tokens) (n : Nat) : Read (Option Token) :=
  return (toks.list[(← index) + n]?).map (·.token)

/-- The token to be read next. -/
def Tokens.tok (toks : Tokens) : Read (Option Token) := toks.nth 0

/-- This token is to be read next. -/
def Tokens.isAt (toks : Tokens) (t : Token) : Read Bool :=
  return (← toks.tok) = some t

/-- The stretch of the token to be read next, or the end of the text. -/
def Tokens.span (toks : Tokens) : Read Span := do
  match toks.list[← index]? with
  | some l => return l.span
  | none => return .ofOffsets toks.size toks.size

/-- Where the token to be read next begins. -/
def Tokens.start (toks : Tokens) : Read Nat :=
  return (← toks.span).start

/-- Moves on behind the token, if there is one. -/
def Tokens.bump (toks : Tokens) : Read Span := do
  let span ← toks.span
  modify fun p =>
    ⟨if p.index < toks.list.length then p.index + 1 else p.index,
      if span.isEmpty then p.last else span.stop⟩
  return span

/-- Moves on behind this token, if it is to be read next. -/
def Tokens.eat (toks : Tokens) (t : Token) : Read (Option Span) := do
  if ← toks.isAt t then return some (← toks.bump) else return none

/-- What a message says of the token with this stretch. -/
def found (span : Span) : Option Token → Found
  | none => .endOfFile
  | some t => if t = .punct .semi ∧ span.isEmpty then .newline else .token t

/-- Something else should stand here. -/
def Tokens.unexpected {α : Type} (toks : Tokens) (what : String) : Read α := do
  let span ← toks.span
  let t ← toks.tok
  throw (.refused ⟨span, .parse (.expected what (found span t))⟩)

/-- Reads the token that must stand here. -/
def Tokens.expect (toks : Tokens) (t : Token) (what : String) : Read Span := do
  match ← toks.eat t with
  | some span => return span
  | none => toks.unexpected what

/-- Reads a name. -/
def Tokens.ident (toks : Tokens) (what : String) : Read Ident := do
  match ← toks.tok with
  | some (.ident s) => return ⟨s, ← toks.bump⟩
  | _ => toks.unexpected what

/-- Reads names for as long as a comma comes before them. -/
def Tokens.moreNames (toks : Tokens) (what : String) : Read (List Ident) := do
  match ← toks.eat (.punct .comma) with
  | none => return []
  | some _ =>
    let name ← toks.ident what
    return name :: (← toks |>.moreNames what)
partial_fixpoint

/-- Reads names with commas between. -/
def Tokens.names (toks : Tokens) (what : String) : Read (List Ident) := do
  let name ← toks.ident what
  return name :: (← toks.moreNames what)

/-! ## Indices -/

/-- The token at an index that must have one. -/
def Tokens.tokenAt (toks : Tokens) (i : Nat) : Read Lexeme :=
  match toks.list[i]? with
  | some l => return l
  | none => throw .outOfRange

/-- The token before an index. -/
def Tokens.tokenBefore (toks : Tokens) (i : Nat) : Read Lexeme :=
  if i = 0 then throw .outOfRange else toks.tokenAt (i - 1)

/-- The tokens from one index up to another. -/
def Tokens.between (toks : Tokens) (first stop : Nat) : Read (List Lexeme) :=
  if first ≤ stop ∧ stop ≤ toks.list.length then
    return (toks.list.take stop).drop first
  else throw .outOfRange

/-- The index of the bracket that brings the depth back to zero; the first of the tokens
    has index `i`. -/
def closeFrom (depth i : Nat) : List Lexeme → Option Nat
  | [] => none
  | l :: ls =>
    if l.token.opens then closeFrom (depth + 1) (i + 1) ls
    else if l.token.closes then
      if depth - 1 = 0 then some i else closeFrom (depth - 1) (i + 1) ls
    else closeFrom depth (i + 1) ls

/-- The index of the bracket that closes the one `n` places on. -/
def Tokens.matchingClose (toks : Tokens) (n : Nat) : Read (Option Nat) := do
  let i := (← index) + n
  return closeFrom 0 i (toks.list.drop i)

/-- A type begins behind the brackets that open `n` places on. -/
def Tokens.bracketThenType (toks : Tokens) (n : Nat) : Read Bool := do
  match ← toks.matchingClose n with
  | none => return false
  | some close => return (toks.list[close + 1]?).any (·.token.startsType)

/-- Goes on to the square bracket that closes an array length. -/
def Tokens.lengthEnd (toks : Tokens) (depth : Nat) : Read Unit := do
  match ← toks.tok with
  | none => toks.unexpected "']'"
  | some t =>
    if t = .punct .rbrack ∧ depth = 0 then return ()
    else
      let _ ← toks.bump
      toks |>.lengthEnd (nest depth t)
partial_fixpoint

/-- The array length that the tokens from one index up to another form. -/
def Tokens.lengthBetween (toks : Tokens) (first stop : Nat) : Read ArrayLength := do
  let l ← toks.tokenAt first
  let last ← toks.tokenBefore stop
  let ls ← toks.between first stop
  return .expr (.ofOffsets l.start last.stop) (lengthExpr (ls.map (·.token)))

/-- Reads the length of an array type up to the closing bracket. -/
def Tokens.arrayLength (toks : Tokens) : Read ArrayLength := do
  let first ← index
  toks.lengthEnd 0
  let stop ← index
  if stop = first then toks.unexpected "array length" else toks.lengthBetween first stop

/-! ## Rounds of loops -/

/-- What comes of a round of a loop: another is to follow, or none.  There may be a value
    in either. -/
inductive Round (α : Type) where
  | again (a : Option α)
  | done (a : Option α)

/-- Another round is to follow. -/
def Round.goesOn {α : Type} : Round α → Prop
  | .again _ => True
  | .done _ => False

/-- Goes through rounds for as long as another is to follow. -/
def Read.rounds {α : Type} (round : Read (Round α)) : Read (List α) := do
  match ← round with
  | .done a => return a.toList
  | .again a => return a.toList ++ (← round |>.rounds)
partial_fixpoint

/-- A round over members that semicolons follow, the last one perhaps not, up to `close`. -/
abbrev Tokens.memberRound {α : Type} (toks : Tokens) (close : Token)
    (atEnd behind : String) (member : Read α) : Read (Round α) := do
  match ← toks.tok with
  | none => toks.unexpected atEnd
  | some t =>
    if t = close then return .done none
    else if t = .punct .semi then
      let _ ← toks.bump
      return .again none
    else
      let a ← member
      if ← toks.isAt close then return .again (some a)
      else
        let _ ← toks.expect (.punct .semi) behind
        return .again (some a)

/-- A round over items with commas between, up to `close` or one that no comma follows. -/
abbrev Tokens.listRound {α : Type} (toks : Tokens) (close : Token) (item : Read α) :
    Read (Round α) := do
  if ← toks.isAt close then return .done none
  else
    let a ← item
    match ← toks.eat (.punct .comma) with
    | some _ => return .again (some a)
    | none => return .done (some a)

end GoDecls.Indexed
