/-
  String and rune literals, and the text they stand for.

  * `escape` reads one escape: it gives a character or, in the forms with two
    hexadecimal or three octal digits, a single byte;
  * `unquote` reads a string literal, `unquoteRune` the first character of a
    rune literal.  The bytes of a string need not be UTF-8: what is not becomes
    U+FFFD.
-/
import GoDecls.Literal.Digits
import GoDecls.Text.Decode

namespace GoDecls.Literal

/-- What can be wrong with a literal. -/
inductive LiteralError where
  | notQuoted | invalidEscape | invalidChar
deriving DecidableEq, Repr

/-- The wording of what is wrong with a literal. -/
def LiteralError.message : LiteralError → String
  | .notQuoted => "literal is not quoted"
  | .invalidEscape => "invalid escape sequence"
  | .invalidChar => "unescaped newline or quote inside literal"

/-- What a literal is made of. -/
inductive Part where
  | char (c : Char)
  | byte (b : UInt8)
deriving DecidableEq, Repr

/-- The bytes of a part: those of a character are its UTF-8 form. -/
def Part.bytes : Part → List UInt8
  | .char c => String.utf8EncodeChar c
  | .byte b => [b]

/-- The number of a part: the code point of a character, the value of a byte. -/
def Part.code : Part → Nat
  | .char c => c.toNat
  | .byte b => b.toNat

/-! ## Escapes -/

/-- The characters with an escape of one letter; of the quotes, only the one
    around the literal has an escape. -/
def simpleEscape? (quote sel : Char) : Option Char :=
  match sel with
  | 'a' => some '\x07'
  | 'b' => some '\x08'
  | 'f' => some '\x0c'
  | 'n' => some '\n'
  | 'r' => some '\r'
  | 't' => some '\t'
  | 'v' => some '\x0b'
  | '\\' => some '\\'
  | c => if (c = '\'' ∨ c = '"') ∧ c = quote then some c else none

/-- A byte, if the number is one. -/
def bytePart? (n : Nat) : Option Part :=
  if n ≤ 0xFF then some (.byte (UInt8.ofNat n)) else none

/-- A character, if the number is a code point that is no surrogate. -/
def charPart? (n : Nat) : Option Part :=
  if n.isValidChar then some (.char (Char.ofNat n)) else none

/-- The escape of selector `sel`, behind which `rest` follows: its part and its
    number of characters beyond the selector. -/
def escape? (quote sel : Char) (rest : List Char) : Option (Part × Nat) :=
  match simpleEscape? quote sel with
  | some c => some (.char c, 0)
  | none =>
    match sel with
    | 'x' => ((fixedNumeral? 16 2 rest).bind bytePart?).map (·, 2)
    | 'u' => ((fixedNumeral? 16 4 rest).bind charPart?).map (·, 4)
    | 'U' => ((fixedNumeral? 16 8 rest).bind charPart?).map (·, 8)
    | sel =>
      if '0' ≤ sel ∧ sel ≤ '7' then
        ((fixedNumeral? 8 3 (sel :: rest)).bind bytePart?).map (·, 2)
      else none

/-- The parts of the body of a literal: no line feed and no quote may stand in
    it unescaped. -/
def unescape (quote : Char) : List Char → Except LiteralError (List Part)
  | [] => .ok []
  | '\\' :: [] => .error .invalidEscape
  | '\\' :: sel :: rest =>
    match escape? quote sel rest with
    | none => .error .invalidEscape
    | some (part, n) => (unescape quote (rest.drop n)).map (part :: ·)
  | c :: cs =>
    if c = '\n' ∨ c = quote then .error .invalidChar
    else (unescape quote cs).map (.char c :: ·)
termination_by cs => cs.length

/-! ## Literals -/

/-- The quote around a text and what it encloses, if the first and the last
    character agree. -/
def enclosed? : List Char → Option (Char × List Char)
  | [] => none
  | q :: cs => if cs.getLast? = some q then some (q, cs.dropLast) else none

/-- The text of a string literal: between double quotes with escapes, or as it
    stands between backquotes but for its carriage returns. -/
def unquote (s : String) : Except LiteralError String :=
  match enclosed? s.toList with
  | some ('\x60', body) =>
    if '\x60' ∈ body then .error .invalidChar
    else .ok (String.ofList (body.filter (· ≠ '\r')))
  | some ('"', body) =>
    (unescape '"' body).map fun parts =>
      String.ofList (Text.decodeLossy (parts.flatMap Part.bytes))
  | _ => .error .notQuoted

/-- The code of the first character of a rune literal; what follows it is not
    read. -/
def unquoteRune (s : String) : Except LiteralError Nat :=
  match enclosed? s.toList with
  | some ('\'', body) =>
    match body with
    | [] => .error .invalidChar
    | '\\' :: [] => .error .invalidEscape
    | '\\' :: sel :: rest =>
      match escape? '\'' sel rest with
      | none => .error .invalidEscape
      | some (part, _) => .ok part.code
    | c :: _ => if c = '\'' ∨ c = '\n' then .error .invalidChar else .ok c.toNat
  | _ => .error .notQuoted

end GoDecls.Literal
