/-
  Reading the entries of properties one at a time, at byte places of the text.

  A reader looks at one byte after the other and asks for stretches of the text.  A
  stretch whose ends do not lie between characters cannot be given: one asked for
  with `take` makes reading fail, and one asked for with `ask` is missing.  The
  reader keeps what it has asked for.
-/
import GoDecls.Tag.Basic
import GoDecls.Text.Bytes
import GoDecls.Text.Decode

namespace GoDecls.Property

/-- The bytes of a text from the first place up to the second. -/
abbrev Stretch := Nat × Nat

/-- A place among the entries of a text: the byte the reader is at, whether nothing
    more is read, and the stretches asked for so far, the last one first. -/
structure Reader where
  text : List Char
  pos : Nat
  ended : Bool
  asked : List Stretch
deriving Repr

/-! ## Bytes -/

/-- A blank between the parts of an entry. -/
def isSpaceByte (b : UInt8) : Bool := b == ' '.toUInt8 || b == '\t'.toUInt8

/-- A byte of a key. -/
def isKeyByte (b : UInt8) : Bool := !(isSpaceByte b || b == '='.toUInt8 || b == ','.toUInt8)

/-- A byte of a bare value. -/
def isBareByte (b : UInt8) : Bool := ' '.toUInt8 < b && b != ','.toUInt8

/-- A byte that opens a quoted value, and closes it. -/
def isQuoteByte (b : UInt8) : Bool :=
  b == '"'.toUInt8 || b == '\''.toUInt8 || b == '\x60'.toUInt8

namespace Reader

/-- The reader at the front of a text. -/
def ofText (text : List Char) : Reader := ⟨text, 0, false, []⟩

/-- The bytes from the reader on. -/
def left (r : Reader) : List UInt8 := (Text.encode r.text).drop r.pos

/-- The byte the reader is at. -/
def peek (r : Reader) : Option UInt8 := r.left.head?

/-- The reader `n` bytes further on. -/
def advance (n : Nat) (r : Reader) : Reader := { r with pos := r.pos + n }

/-- The reader behind the bytes with `p` that come next. -/
def skipWhile (p : UInt8 → Bool) (r : Reader) : Reader := r.advance (r.left.takeWhile p).length

/-- Nothing more is read. -/
def finish (r : Reader) : Reader := { r with ended := true }

/-- Asks for the stretch of the text from `start` up to the reader. -/
def ask (start : Nat) (r : Reader) : Option (List Char) × Reader :=
  (Text.slice? r.text start r.pos, { r with asked := (start, r.pos) :: r.asked })

/-- Takes the stretch of the text from `start` up to the reader. -/
def take (start : Nat) (r : Reader) : Except Stretch (List Char × Reader) :=
  match r.ask start with
  | (some cs, r) => .ok (cs, r)
  | (none, r) => .error (start, r.pos)

/-! ## Values -/

/-- Reads a value up to its closing quote `q`, if there is one.  The bytes are those
    from the reader on; what stands before `start` has been taken.  Between
    backquotes a carriage return is left out; between other quotes a backslash is,
    and the byte behind it is not looked at. -/
def quoted (q : UInt8) (start : Nat) (taken : List Char) :
    List UInt8 → Reader → Except Stretch (Option (List Char) × Reader)
  | [], r => .ok (none, r)
  | b :: bs, r =>
    if b = q then
      match r.ask start with
      | (some piece, r) => .ok (some (taken ++ piece), r.advance 1)
      | (none, r) => .ok (none, r)
    else if b = '\r'.toUInt8 ∧ q = '\x60'.toUInt8 then
      match r.take start with
      | .error stretch => .error stretch
      | .ok (piece, r) => quoted q (r.pos + 1) (taken ++ piece) bs (r.advance 1)
    else if b = '\\'.toUInt8 ∧ q ≠ '\x60'.toUInt8 then
      match r.take start, bs with
      | .error stretch, _ => .error stretch
      | .ok (_, r), [] => .ok (none, r.advance 1)
      | .ok (piece, r), _ :: bs => quoted q (r.pos + 1) (taken ++ piece) bs (r.advance 2)
    else quoted q start taken bs (r.advance 1)

/-- Reads a value. -/
def value (r : Reader) : Except Stretch (Option (List Char) × Reader) :=
  match r.peek with
  | none => .ok (some [], r)
  | some b =>
    if isQuoteByte b then quoted b (r.pos + 1) [] (r.advance 1).left (r.advance 1)
    else ((r.skipWhile isBareByte).take r.pos).map fun p => (some p.1, p.2)

/-- The reader behind what ends an entry with a value: a comma goes with the entry,
    and behind anything else nothing more is read. -/
def behindValue (r : Reader) : Reader :=
  let r := r.skipWhile isSpaceByte
  match r.peek with
  | none => r
  | some b => if b = ','.toUInt8 then r.advance 1 else r.finish

/-- Reads what stands behind a key: a value, or nothing. -/
def behindKey (r : Reader) : Except Stretch (Option (List Char) × Reader) :=
  let r := r.skipWhile isSpaceByte
  match r.peek with
  | none => .ok (some [], r)
  | some b =>
    if b = ','.toUInt8 then .ok (some [], r.advance 1)
    else if b = '='.toUInt8 then
      (((r.advance 1).skipWhile isSpaceByte).value).map fun p =>
        (p.1, if p.1.isSome then p.2.behindValue else p.2)
    else .ok (none, r)

/-! ## Entries -/

/-- Reads an entry, if there is a well-formed one. -/
def entry (r : Reader) : Except Stretch (Option (String × String) × Reader) :=
  let front := r.skipWhile isSpaceByte
  let behind := front.skipWhile isKeyByte
  if behind.pos = front.pos then .ok (none, behind)
  else do
    let (key, r) ← behind.take front.pos
    let (value, r) ← r.behindKey
    .ok (value.map fun value => (String.ofList key, String.ofList value), r)

/-- The next entry; from the first that is malformed on there are none. -/
def next (r : Reader) : Except Stretch (Option (String × String) × Reader) :=
  if r.ended then .ok (none, r)
  else r.entry.map fun p => (p.1, if p.1.isSome then p.2 else p.2.finish)

/-- The answers to a number of calls for the next entry. -/
def calls : Nat → Reader → Except Stretch (List (Option (String × String)) × Reader)
  | 0, r => .ok ([], r)
  | n + 1, r => do
    let (answer, r) ← r.next
    let (answers, r) ← r.calls n
    .ok (answer :: answers, r)

end Reader

end GoDecls.Property
