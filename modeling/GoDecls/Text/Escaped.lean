/-
  Quoted texts for messages: a text between double quotes in which the quote,
  the backslash and everything that is not shown are written as escapes.
-/
import GoDecls.Text.Shown

namespace GoDecls.Text

/-- A code point in hexadecimal, as in `\u{301}`. -/
def escapeCode (c : Char) : List Char :=
  ['\\', 'u', '\x7b'] ++ Nat.toDigits 16 c.toNat ++ ['\x7d']

/-- How a character is written between double quotes. -/
def escapeChar (c : Char) : List Char :=
  match c with
  | '\x00' => ['\\', '0']
  | '\t' => ['\\', 't']
  | '\r' => ['\\', 'r']
  | '\n' => ['\\', 'n']
  | '\\' => ['\\', '\\']
  | '"' => ['\\', '"']
  | c => if isShown c then [c] else escapeCode c

/-- The text between double quotes, with escapes. -/
def escaped (s : String) : String :=
  String.ofList (['"'] ++ s.toList.flatMap escapeChar ++ ['"'])

end GoDecls.Text
