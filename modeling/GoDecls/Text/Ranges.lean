/-
  Classes of characters given by tables of code point ranges.

  The tables below ASCII are never consulted: each class says on its own which
  ASCII characters it holds, and a table lists the others.
-/
namespace GoDecls.Text

/-- The character lies in one of the ranges, both ends included. -/
def inRanges (ranges : Array (Nat × Nat)) (c : Char) : Bool :=
  ranges.any fun r => r.1 ≤ c.toNat && c.toNat ≤ r.2

/-- `ascii` decides for ASCII, the table for all other characters. -/
def classOf (ascii : Char → Bool) (ranges : Array (Nat × Nat)) (c : Char) : Bool :=
  if c.toNat < 0x80 then ascii c else inRanges ranges c

theorem classOf_of_lt {ascii : Char → Bool} {ranges : Array (Nat × Nat)} {c : Char}
    (h : c.toNat < 0x80) : classOf ascii ranges c = ascii c := by
  simp [classOf, h]

end GoDecls.Text
