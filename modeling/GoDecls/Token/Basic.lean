/-
  The tokens of the language: keywords, operators and delimiters, identifiers
  and literals.

  * `Keyword.text` and `Punct.text` are the spellings, which differ from each
    other, and `Keyword.ofText?` reads a keyword back;
  * `Token.name` is the name of a token's kind and `Token.display` its form in a
    message: the quoted text of a token that carries one, the name of any other.
-/
import GoDecls.Span
import GoDecls.Text.Escaped

namespace GoDecls

/-! ## Keywords -/

/-- The keywords. -/
inductive Keyword where
  | break_ | case | chan | const | continue_ | default_ | defer | else_ | fallthrough
  | for_ | func | go | goto | if_ | import_ | interface | map | package | range
  | return_ | select | struct | switch | type | var
deriving DecidableEq, Repr

namespace Keyword

/-- Every keyword. -/
def all : List Keyword := [
  .break_, .case, .chan, .const, .continue_, .default_, .defer, .else_, .fallthrough,
  .for_, .func, .go, .goto, .if_, .import_, .interface, .map, .package, .range,
  .return_, .select, .struct, .switch, .type, .var]

/-- The spelling of a keyword. -/
def text : Keyword → String
  | .break_ => "break"
  | .case => "case"
  | .chan => "chan"
  | .const => "const"
  | .continue_ => "continue"
  | .default_ => "default"
  | .defer => "defer"
  | .else_ => "else"
  | .fallthrough => "fallthrough"
  | .for_ => "for"
  | .func => "func"
  | .go => "go"
  | .goto => "goto"
  | .if_ => "if"
  | .import_ => "import"
  | .interface => "interface"
  | .map => "map"
  | .package => "package"
  | .range => "range"
  | .return_ => "return"
  | .select => "select"
  | .struct => "struct"
  | .switch => "switch"
  | .type => "type"
  | .var => "var"

/-- The keyword spelled so, if there is one. -/
def ofText? (s : String) : Option Keyword :=
  all.find? fun k => k.text == s

/-- The name of a keyword's kind. -/
def name (k : Keyword) : String := "Kw" ++ k.text.capitalize

theorem ofText?_text (k : Keyword) : ofText? k.text = some k := by
  cases k <;> rfl

end Keyword

/-! ## Operators and delimiters -/

/-- The operators and delimiters. -/
inductive Punct where
  | ellipsis | shlAssign | shrAssign | andNotAssign | addAssign | subAssign | mulAssign
  | divAssign | modAssign | andAssign | orAssign | xorAssign | shl | shr | andNot
  | logicalAnd | logicalOr | equal | notEqual | lessEqual | greaterEqual | increment
  | decrement | define | arrow | assign | plus | minus | star | slash | percent | amp
  | pipe | caret | tilde | bang | less | greater | lparen | rparen | lbrack | rbrack
  | lbrace | rbrace | comma | semi | colon | dot
deriving DecidableEq, Repr

namespace Punct

/-- Every operator and delimiter, the longer spellings first. -/
def byLength : List Punct := [
  .ellipsis, .shlAssign, .shrAssign, .andNotAssign, .addAssign, .subAssign, .mulAssign,
  .divAssign, .modAssign, .andAssign, .orAssign, .xorAssign, .shl, .shr, .andNot,
  .logicalAnd, .logicalOr, .equal, .notEqual, .lessEqual, .greaterEqual, .increment,
  .decrement, .define, .arrow, .assign, .plus, .minus, .star, .slash, .percent, .amp,
  .pipe, .caret, .tilde, .bang, .less, .greater, .lparen, .rparen, .lbrack, .rbrack,
  .lbrace, .rbrace, .comma, .semi, .colon, .dot]

/-- The spelling of an operator or delimiter. -/
def text : Punct → String
  | .ellipsis => "..."
  | .shlAssign => "<<="
  | .shrAssign => ">>="
  | .andNotAssign => "&^="
  | .addAssign => "+="
  | .subAssign => "-="
  | .mulAssign => "*="
  | .divAssign => "/="
  | .modAssign => "%="
  | .andAssign => "&="
  | .orAssign => "|="
  | .xorAssign => "^="
  | .shl => "<<"
  | .shr => ">>"
  | .andNot => "&^"
  | .logicalAnd => "&&"
  | .logicalOr => "||"
  | .equal => "=="
  | .notEqual => "!="
  | .lessEqual => "<="
  | .greaterEqual => ">="
  | .increment => "++"
  | .decrement => "--"
  | .define => ":="
  | .arrow => "<-"
  | .assign => "="
  | .plus => "+"
  | .minus => "-"
  | .star => "*"
  | .slash => "/"
  | .percent => "%"
  | .amp => "&"
  | .pipe => "|"
  | .caret => "^"
  | .tilde => "~"
  | .bang => "!"
  | .less => "<"
  | .greater => ">"
  | .lparen => "("
  | .rparen => ")"
  | .lbrack => "["
  | .rbrack => "]"
  | .lbrace => "\x7b"
  | .rbrace => "\x7d"
  | .comma => ","
  | .semi => ";"
  | .colon => ":"
  | .dot => "."

/-- The name of an operator's or delimiter's kind. -/
def name : Punct → String
  | .ellipsis => "Ellipsis"
  | .shlAssign => "ShlAssign"
  | .shrAssign => "ShrAssign"
  | .andNotAssign => "AndNotAssign"
  | .addAssign => "AddAssign"
  | .subAssign => "SubAssign"
  | .mulAssign => "MulAssign"
  | .divAssign => "DivAssign"
  | .modAssign => "ModAssign"
  | .andAssign => "AndAssign"
  | .orAssign => "OrAssign"
  | .xorAssign => "XorAssign"
  | .shl => "Shl"
  | .shr => "Shr"
  | .andNot => "AndNot"
  | .logicalAnd => "LAnd"
  | .logicalOr => "LOr"
  | .equal => "EqEq"
  | .notEqual => "NotEq"
  | .lessEqual => "Le"
  | .greaterEqual => "Ge"
  | .increment => "Inc"
  | .decrement => "Dec"
  | .define => "Define"
  | .arrow => "Arrow"
  | .assign => "Assign"
  | .plus => "Plus"
  | .minus => "Minus"
  | .star => "Star"
  | .slash => "Slash"
  | .percent => "Percent"
  | .amp => "Amp"
  | .pipe => "Pipe"
  | .caret => "Caret"
  | .tilde => "Tilde"
  | .bang => "Bang"
  | .less => "Lt"
  | .greater => "Gt"
  | .lparen => "LParen"
  | .rparen => "RParen"
  | .lbrack => "LBrack"
  | .rbrack => "RBrack"
  | .lbrace => "LBrace"
  | .rbrace => "RBrace"
  | .comma => "Comma"
  | .semi => "Semi"
  | .colon => "Colon"
  | .dot => "Dot"

/-- The longest operator or delimiter at the front of the text. -/
def longest? (cs : List Char) : Option Punct :=
  byLength.find? fun p => p.text.toList.isPrefixOf cs

theorem mem_byLength (p : Punct) : p ∈ byLength := by
  cases p <;> decide

/-- An opening bracket of any shape. -/
def opens : Punct → Bool
  | .lparen | .lbrack | .lbrace => true
  | _ => false

/-- A closing bracket of any shape. -/
def closes : Punct → Bool
  | .rparen | .rbrack | .rbrace => true
  | _ => false

end Punct

/-! ## Tokens -/

/-- The three kinds of number literals. -/
inductive NumberKind where
  | int | float | imag
deriving DecidableEq, Repr

/-- A token.  Those that have many spellings carry theirs; `error` stands for
    what is no token. -/
inductive Token where
  | ident (text : String)
  | number (kind : NumberKind) (text : String)
  | rune (text : String)
  | string (text : String)
  | rawString (text : String)
  | keyword (k : Keyword)
  | punct (p : Punct)
  | error
deriving DecidableEq, Repr

namespace Token

/-- The name of a token's kind. -/
def name : Token → String
  | .ident _ => "Ident"
  | .number .int _ => "IntLit"
  | .number .float _ => "FloatLit"
  | .number .imag _ => "ImagLit"
  | .rune _ => "RuneLit"
  | .string _ => "StringLit"
  | .rawString _ => "RawStringLit"
  | .keyword k => k.name
  | .punct p => p.name
  | .error => "Error"

/-- The spelling that a token carries. -/
def text? : Token → Option String
  | .ident s | .number _ s | .rune s | .string s | .rawString s => some s
  | .keyword _ | .punct _ | .error => none

/-- The form of a token in a message. -/
def display (t : Token) : String :=
  match t.text? with
  | some s => Text.escaped s
  | none => t.name

/-- A statement may end after this token, so that a line end after it stands for
    a semicolon. -/
def endsStatement : Token → Bool
  | .ident _ | .number _ _ | .rune _ | .string _ | .rawString _ => true
  | .keyword .break_ | .keyword .continue_ | .keyword .fallthrough | .keyword .return_ => true
  | .punct .increment | .punct .decrement => true
  | .punct .rparen | .punct .rbrack | .punct .rbrace => true
  | _ => false

/-- A type can begin with this token. -/
def startsType : Token → Bool
  | .ident _ => true
  | .punct .star | .punct .lbrack | .punct .lparen | .punct .arrow => true
  | .keyword .map | .keyword .chan | .keyword .func => true
  | .keyword .struct | .keyword .interface => true
  | _ => false

/-- A string literal of either form. -/
def isString : Token → Bool
  | .string _ | .rawString _ => true
  | _ => false

/-- An opening bracket of any shape. -/
def opens : Token → Bool
  | .punct p => p.opens
  | _ => false

/-- A closing bracket of any shape. -/
def closes : Token → Bool
  | .punct p => p.closes
  | _ => false

end Token

/-- A token and where it stands. -/
structure Lexeme where
  start : Nat
  token : Token
  stop : Nat
deriving DecidableEq, Repr

namespace Lexeme

/-- The semicolon that a line end at `pos` stands for. -/
def inserted (pos : Nat) : Lexeme := ⟨pos, .punct .semi, pos⟩

/-- A semicolon that no character of the text spells. -/
def isInserted (l : Lexeme) : Bool :=
  l.token == .punct .semi && l.start == l.stop

/-- The stretch of the text that a token covers. -/
def span (l : Lexeme) : Span := .ofOffsets l.start l.stop

end Lexeme

end GoDecls
