/-
  Spans: the stretch of a text from byte `start` up to, not including, byte
  `stop`.  Positions fit in 32 bits; larger ones are taken as the largest.
-/
import GoDecls.Text.Bytes

namespace GoDecls

/-- A stretch of the text, in bytes. -/
structure Span where
  start : Nat
  stop : Nat
deriving DecidableEq, Repr, Inhabited

namespace Span

/-- The largest position a span can hold. -/
def limit : Nat := 0xFFFFFFFF

/-- The span of two positions, each cut to the largest possible one. -/
def ofOffsets (start stop : Nat) : Span := ⟨min start limit, min stop limit⟩

/-- The empty span at the front of a text. -/
def zero : Span := ⟨0, 0⟩

/-- The smallest span that covers both. -/
def cover (a b : Span) : Span := ⟨min a.start b.start, max a.stop b.stop⟩

/-- The number of bytes covered, none if the ends are the wrong way round. -/
def length (s : Span) : Nat := s.stop - s.start

/-- The span covers nothing. -/
def isEmpty (s : Span) : Bool := s.length == 0

/-- The text under the span, if both ends are character boundaries of `text`. -/
def text? (s : Span) (text : List Char) : Option (List Char) :=
  Text.slice? text s.start s.stop

theorem ofOffsets_of_le {start stop : Nat} (h : start ≤ limit) (h' : stop ≤ limit) :
    ofOffsets start stop = ⟨start, stop⟩ := by
  simp [ofOffsets, Nat.min_eq_left h, Nat.min_eq_left h']

end Span

end GoDecls
