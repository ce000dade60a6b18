/-
  Decoding of bytes that may not be well-formed UTF-8.  Each longest piece that
  begins a character and is not completed, and each byte that begins none,
  becomes one U+FFFD.
-/
namespace GoDecls.Text

/-- The bytes of a text in UTF-8. -/
def encode (cs : List Char) : List UInt8 :=
  cs.flatMap String.utf8EncodeChar

/-- The character that stands for what cannot be decoded. -/
def replacement : Char := '\ufffd'

/-- A character of several bytes that has begun: the bits read so far, the
    number of bytes owed, and the range of the next one. -/
structure Begun where
  bits : Nat
  owed : Nat
  low : Nat
  high : Nat
deriving DecidableEq, Repr

/-- What a byte begins, if it is the first of several.  The ranges leave out
    overlong forms, surrogates and what lies above U+10FFFF. -/
def Begun.of? (b : Nat) : Option Begun :=
  if 0xC2 ≤ b ∧ b ≤ 0xDF then some ⟨b - 0xC0, 1, 0x80, 0xBF⟩
  else if b = 0xE0 then some ⟨0, 2, 0xA0, 0xBF⟩
  else if b = 0xED then some ⟨0xD, 2, 0x80, 0x9F⟩
  else if 0xE1 ≤ b ∧ b ≤ 0xEF then some ⟨b - 0xE0, 2, 0x80, 0xBF⟩
  else if b = 0xF0 then some ⟨0, 3, 0x90, 0xBF⟩
  else if 0xF1 ≤ b ∧ b ≤ 0xF3 then some ⟨b - 0xF0, 3, 0x80, 0xBF⟩
  else if b = 0xF4 then some ⟨4, 3, 0x80, 0x8F⟩
  else none

/-- A byte between characters: what it completes and what it begins. -/
def decodeFirst (b : Nat) : List Char × Option Begun :=
  if b < 0x80 then ([Char.ofNat b], none)
  else match Begun.of? b with
    | some g => ([], some g)
    | none => ([replacement], none)

/-- A byte after what has begun: what it completes and what is begun then. -/
def decodeNext : Option Begun → Nat → List Char × Option Begun
  | none, b => decodeFirst b
  | some g, b =>
    if g.low ≤ b ∧ b ≤ g.high then
      let bits := g.bits * 64 + (b - 0x80)
      if g.owed ≤ 1 then ([Char.ofNat bits], none)
      else ([], some ⟨bits, g.owed - 1, 0x80, 0xBF⟩)
    else
      let (cs, g') := decodeFirst b
      (replacement :: cs, g')

/-- The characters of the bytes after what has begun. -/
def decodeFrom : Option Begun → List UInt8 → List Char
  | none, [] => []
  | some _, [] => [replacement]
  | g, b :: bs =>
    let (cs, g') := decodeNext g b.toNat
    cs ++ decodeFrom g' bs

/-- The text of the bytes, with U+FFFD for what is not UTF-8. -/
def decodeLossy (bs : List UInt8) : List Char :=
  decodeFrom none bs

end GoDecls.Text
