/-
  Looking ahead over brackets.  Brackets of all three shapes count alike, and a
  closing one at depth zero leaves the depth at zero.

  * `bracketThenType` tells the field `buf [N]byte` from the type `List[T]`;
  * `lengthExtent` finds the end of an array length, `declExtent` that of a
    declaration whose content is not read, `recoverExtent` the place where
    reading goes on after a diagnostic.
-/
import GoDecls.Tree.Cursor

namespace GoDecls.Tree

/-- The depth behind a token. -/
def nest (depth : Nat) (t : Token) : Nat :=
  if t.opens then depth + 1 else if t.closes then depth - 1 else depth

/-- The tokens behind the bracket that brings the depth back to zero. -/
def afterClose? (depth : Nat) : List Lexeme → Option (List Lexeme)
  | [] => none
  | l :: ls =>
    if l.token.closes && depth ≤ 1 then some ls else afterClose? (nest depth l.token) ls

/-- A type begins behind the brackets that open here. -/
def bracketThenType (ls : List Lexeme) : Bool :=
  ((afterClose? 0 ls).bind List.head?).any (·.token.startsType)

/-- The number of tokens before the square bracket that closes an array
    length. -/
def lengthExtent? (depth : Nat) : List Lexeme → Option Nat
  | [] => none
  | l :: ls =>
    if l.token = .punct .rbrack ∧ depth = 0 then some 0
    else (lengthExtent? (nest depth l.token) ls).map (· + 1)

/-- The number of tokens up to and with the semicolon outside all brackets, or
    of all tokens. -/
def declExtent (depth : Nat) : List Lexeme → Nat
  | [] => 0
  | l :: ls =>
    if l.token = .punct .semi ∧ depth = 0 then 1
    else declExtent (nest depth l.token) ls + 1

/-- The keywords that begin a declaration. -/
def declares : Token → Bool
  | .keyword .type | .keyword .func | .keyword .import_ | .keyword .var | .keyword .const => true
  | _ => false

/-- The number of tokens up to and with a semicolon before a declaration or the
    end, or of all tokens. -/
def recoverExtent : List Lexeme → Nat
  | [] => 0
  | l :: ls =>
    if l.token = .punct .semi ∧ ls.head?.all (declares ·.token) then 1
    else recoverExtent ls + 1

/-! ## Array lengths -/

/-- The kind of a literal token. -/
def literalKind? : Token → Option LiteralKind
  | .number .int _ => some .int
  | .number .float _ => some .float
  | .number .imag _ => some .imag
  | .rune _ => some .rune
  | .string _ | .rawString _ => some .string
  | _ => none

/-- The expression that the tokens of an array length form. -/
def lengthExpr : List Token → LengthExpr
  | [.ident name] => .ident name
  | [.ident pkg, .punct .dot, .ident name] => .selector pkg name
  | [t] => match literalKind? t with
    | some kind => .literal kind
    | none => .other
  | _ => .other

/-- The stretch from the first of the tokens to the last. -/
def stretch : List Lexeme → Span
  | [] => .zero
  | l :: ls => .ofOffsets l.start ((l :: ls).getLast (List.cons_ne_nil l ls)).stop

/-- Reads the length of an array type up to the closing bracket. -/
def Cursor.arrayLength (c : Cursor) : Outcome ArrayLength c :=
  match lengthExtent? 0 c.rest with
  | none =>
    let stop := c.skip c.left
    .error (stop.unexpected "']'") stop (c.skip_le _)
  | some n =>
    if h : n = 0 ∨ c.left = 0 then c.fails "array length"
    else
      let ls := c.rest.take n
      .ok (.expr (stretch ls) (lengthExpr (ls.map (·.token)))) (c.skip n)
        (by rw [Cursor.left_skip]; omega)

end GoDecls.Tree
