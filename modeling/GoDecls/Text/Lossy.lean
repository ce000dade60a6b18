/-
  Texts of bytes that need not be the UTF-8 form of a text.  Bytes that belong to
  no character are shown as U+FFFD, one for each stretch that begins a character
  and breaks off, and one for each byte that begins none.
-/
namespace GoDecls.Text

/-- The bounds of the bytes that follow a first byte, unless no character begins
    with it. -/
def boundsAfter (b : UInt8) : Option (List (UInt8 × UInt8)) :=
  let inner := (0x80, 0xBF)
  if b < 0x80 then some []
  else if b < 0xC2 then none
  else if b < 0xE0 then some [inner]
  else if b = 0xE0 then some [(0xA0, 0xBF), inner]
  else if b = 0xED then some [(0x80, 0x9F), inner]
  else if b < 0xF0 then some [inner, inner]
  else if b = 0xF0 then some [(0x90, 0xBF), inner, inner]
  else if b < 0xF4 then some [inner, inner, inner]
  else if b = 0xF4 then some [(0x80, 0x8F), inner, inner]
  else none

/-- The bytes at the front that lie within bounds, each within its own. -/
def frontWithin : List (UInt8 × UInt8) → List UInt8 → List UInt8
  | (low, high) :: bounds, b :: bs =>
    if low ≤ b && b ≤ high then b :: frontWithin bounds bs else []
  | _, _ => []

/-- The text of bytes; what belongs to no character is replaced. -/
def lossy : List UInt8 → String
  | [] => ""
  | b :: bs =>
    let more := ((boundsAfter b).map (frontWithin · bs)).getD []
    (String.fromUTF8? (b :: more).toByteArray).getD "\uFFFD" ++ lossy (bs.drop more.length)
termination_by bs => bs.length
decreasing_by
  simp only [List.length_drop, List.length_cons]
  omega

end GoDecls.Text
