/-
  Names in directories.  A name is a text, or bytes that are the UTF-8 form of
  none; names are told apart, measured and ordered by their bytes.
-/
import GoDecls.Text.Lossy

namespace GoDecls.Files

/-- A name in a directory, or a segment of a path. -/
inductive FileName where
  /-- a text -/
  | text (s : String)
  /-- bytes that are not the UTF-8 form of a text -/
  | raw (bytes : List UInt8) (h : String.fromUTF8? ⟨bytes.toArray⟩ = none)
deriving DecidableEq

namespace FileName

/-- The name as a text. -/
def text? : FileName → Option String
  | .text s => some s
  | .raw _ _ => none

/-- The bytes of the name. -/
def bytes : FileName → ByteArray
  | .text s => s.toByteArray
  | .raw b _ => ⟨b.toArray⟩

/-- The number of bytes of the name. -/
def size (n : FileName) : Nat := n.bytes.size

/-- A byte of the name is zero. -/
def hasNul : FileName → Bool
  | .text s => '\x00' ∈ s.toList
  | .raw b _ => 0 ∈ b

/-- The text that the name is shown as. -/
def shown : FileName → String
  | .text s => s
  | .raw b _ => Text.lossy b

/-- The bytes of the name as numbers, by which names are ordered. -/
def key (n : FileName) : List Nat := n.bytes.data.toList.map UInt8.toNat

/-- The first name does not come after the second. -/
def le (a b : FileName) : Bool := !b.key.lex a.key fun x y => decide (x < y)

end FileName

end GoDecls.Files
