/-
  Pieces of a text.  At every character a text has one longest piece that is a
  token, a comment, a line end or a run of blanks; `scan` says of which kind it
  is and how many characters it has beyond the first.

  * `numberExtent` takes letters, digits, underscores, points and the signs of
    exponents; whether they form a good literal is not asked;
  * `quotedExtent`, `rawExtent` and `closeExtent` look for the end of a literal
    or comment and find none if the text, or the line, ends before;
  * where nothing else fits, a single character is a `stray` piece.
-/
import GoDecls.Diagnostic
import GoDecls.Text.Letter
import GoDecls.Text.Digit

namespace GoDecls

/-- The kinds of pieces. -/
inductive Piece where
  /-- spaces, tabs and form feeds -/
  | blank
  /-- a line feed, a carriage return, or both -/
  | lineEnd
  /-- a byte order mark -/
  | orderMark
  | lineComment
  /-- a comment with or without its end marker -/
  | blockComment (closed : Bool)
  | word
  | number
  | rune
  | string
  | rawString
  | punct (p : Punct)
  /-- a character that begins no piece -/
  | stray
deriving DecidableEq, Repr

namespace Scan

/-- The quote of raw strings. -/
def backquote : Char := '\x60'

/-- The byte order mark. -/
def orderMark : Char := '\ufeff'

/-- A blank within a line. -/
def isSpace (c : Char) : Bool := c == ' ' || c == '\t' || c == '\x0c'

/-- A character that ends a line. -/
def isLineEnd (c : Char) : Bool := c == '\n' || c == '\r'

/-- A character that begins a name. -/
def isWordStart (c : Char) : Bool := c == '_' || Text.isLetter c

/-- A character that continues a name. -/
def isWordPart (c : Char) : Bool := c == '_' || Text.isLetter c || Text.isDigit c

/-! ## Numbers -/

/-- A character that is always part of the number before it. -/
def isNumberPart (c : Char) : Bool := c == '_' || c.isAlphanum

/-- A literal with the hexadecimal marker. -/
def isHex : List Char → Bool
  | '0' :: x :: _ => x == 'x' || x == 'X'
  | _ => false

/-- After `prev` a sign belongs to the number: `p` marks every exponent, `e` one
    that is not hexadecimal. -/
def isExponentMark (hex : Bool) (prev : Char) : Bool :=
  prev == 'p' || prev == 'P' || ((prev == 'e' || prev == 'E') && !hex)

/-- The number of characters that continue a number after `prev`.  A point is
    taken unless another follows. -/
def numberExtent (hex : Bool) (prev : Char) : List Char → Nat
  | [] => 0
  | c :: cs =>
    if isNumberPart c || (c == '.' && cs.head? != some '.') ||
        ((c == '+' || c == '-') && isExponentMark hex prev) then
      numberExtent hex c cs + 1
    else 0

/-- A number begins here: with a digit, or with a point before one. -/
def startsNumber (c : Char) (cs : List Char) : Bool :=
  c.isDigit || (c == '.' && (cs.head?.any Char.isDigit))

/-- The kind of a number literal: `i` ends an imaginary one; a point or an
    exponent makes a fraction. -/
def numberKind (cs : List Char) : NumberKind :=
  if cs.getLast? = some 'i' then .imag
  else if isHex cs then
    if cs.any (fun c => c == 'p' || c == 'P') then .float else .int
  else
    if cs.any (fun c => c == '.' || c == 'e' || c == 'E') then .float else .int

/-! ## Literals and comments with an end -/

/-- The number of characters up to and with the closing quote, which must be on
    the same line; a backslash takes the next character with it. -/
def quotedExtent (quote : Char) : List Char → Option Nat
  | [] => none
  | c :: cs =>
    if c = quote then some 1
    else if c = '\\' then
      match cs with
      | [] => none
      | d :: ds => if d = '\n' then none else (quotedExtent quote ds).map (· + 2)
    else if isLineEnd c then none
    else (quotedExtent quote cs).map (· + 1)

/-- The number of characters up to and with the closing quote of a raw string. -/
def rawExtent (cs : List Char) : Option Nat :=
  (cs.findIdx? (· == backquote)).map (· + 1)

/-- The number of characters up to and with the end marker of a comment. -/
def closeExtent : List Char → Option Nat
  | [] => none
  | c :: cs => if c = '*' ∧ cs.head? = some '/' then some 2 else (closeExtent cs).map (· + 1)

/-! ## The piece at a character -/

/-- The piece that begins with a slash, if it is a comment. -/
def scanComment : List Char → Option (Piece × Nat)
  | '/' :: cs => some (.lineComment, (cs.takeWhile (!isLineEnd ·)).length + 1)
  | '*' :: cs => match closeExtent cs with
    | some n => some (.blockComment true, n + 1)
    | none => some (.blockComment false, cs.length + 1)
  | _ => none

/-- The literal that a quote begins, if it is closed; a rune is not empty. -/
def scanQuoted (c : Char) (cs : List Char) : Option (Piece × Nat) :=
  if c = '"' then (quotedExtent '"' cs).map (Piece.string, ·)
  else if c = '\'' then
    (quotedExtent '\'' cs).bind fun n => if n = 1 then none else some (.rune, n)
  else if c = backquote then (rawExtent cs).map (Piece.rawString, ·)
  else none

/-- The operator or delimiter here. -/
def scanPunct (cs : List Char) : Option (Piece × Nat) :=
  (Punct.longest? cs).map fun p => (.punct p, p.text.length - 1)

/-- The piece at a character, and its number of characters beyond this one. -/
def scan (c : Char) (cs : List Char) : Piece × Nat :=
  if isSpace c then (.blank, (cs.takeWhile isSpace).length)
  else if c = '\n' then (.lineEnd, 0)
  else if c = '\r' then (.lineEnd, if cs.head? = some '\n' then 1 else 0)
  else if c = orderMark then (.orderMark, 0)
  else if isWordStart c then (.word, (cs.takeWhile isWordPart).length)
  else if startsNumber c cs then (.number, numberExtent (isHex (c :: cs)) c cs)
  else
    let comment := if c = '/' then scanComment cs else none
    (comment.or (scanQuoted c cs)).or (scanPunct (c :: cs)) |>.getD (.stray, 0)

/-- The fault of a stray character: a quote is the start of a literal without
    end. -/
def strayFault (c : Char) : LexFault :=
  if c = '"' ∨ c = '\'' ∨ c = backquote then .unterminatedString else .invalidToken

end Scan

end GoDecls
