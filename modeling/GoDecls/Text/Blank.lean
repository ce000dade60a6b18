/-
  Blank characters: the property White_Space.  It holds of tab, line feed,
  vertical tab, form feed, carriage return and space in ASCII, and of a few
  spaces and line separators outside.
-/
import GoDecls.Text.Ranges

namespace GoDecls.Text

/-- The blank characters outside ASCII. -/
def blankRanges : Array (Nat × Nat) := #[
  (0x85, 0x85), (0xA0, 0xA0), (0x1680, 0x1680), (0x2000, 0x200A), (0x2028, 0x2029),
  (0x202F, 0x202F), (0x205F, 0x205F), (0x3000, 0x3000)]

/-- A blank of any script. -/
def isBlank (c : Char) : Bool :=
  classOf (fun c => c == ' ' || (0x09 ≤ c.toNat && c.toNat ≤ 0x0D)) blankRanges c

/-- The text without the blanks at its two ends. -/
def trim (cs : List Char) : List Char :=
  ((cs.dropWhile isBlank).reverse.dropWhile isBlank).reverse

end GoDecls.Text
