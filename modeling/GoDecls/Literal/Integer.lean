/-
  Integer literals: an optional sign, a base mark (`0x`, `0o`, `0b`, or a
  leading `0` for octal), digits, and underscores that each stand between two
  digits or behind the base mark.  `parseInt` gives their value if it fits in 64
  bits with sign.
-/
import GoDecls.Literal.Digits

namespace GoDecls.Literal

/-- The sign of a literal, negative or not, and what follows it. -/
def splitSign : List Char → Bool × List Char
  | '-' :: cs => (true, cs)
  | '+' :: cs => (false, cs)
  | cs => (false, cs)

/-- The base that a letter behind a leading zero marks. -/
def markedBase? (c : Char) : Option Nat :=
  if c = 'x' ∨ c = 'X' then some 16
  else if c = 'o' ∨ c = 'O' then some 8
  else if c = 'b' ∨ c = 'B' then some 2
  else none

/-- The base of a literal without sign, its digits, and whether a base mark
    stands before them. -/
def splitBase : List Char → Nat × List Char × Bool
  | '0' :: c :: cs =>
    match markedBase? c with
    | some base => (base, cs, true)
    | none => (8, c :: cs, true)
  | cs => (10, cs, false)

/-- Every underscore stands behind a digit or the base mark (`prev`), and before
    a letter or digit. -/
def underscoresOK (prev : Bool) : List Char → Bool
  | [] => true
  | c :: cs =>
    if c = '_' then prev && cs.head?.any Char.isAlphanum && underscoresOK false cs
    else underscoresOK true cs

/-- The number with a sign, if it lies from -2^63 up to 2^63 - 1. -/
def toInt64? (negative : Bool) (n : Nat) : Option Int :=
  if negative then (if n ≤ 0x8000000000000000 then some (-n) else none)
  else if n < 0x8000000000000000 then some n
  else none

/-- The value of an integer literal. -/
def parseInt (s : String) : Option Int :=
  let (negative, unsigned) := splitSign s.toList
  let (base, digits, marked) := splitBase unsigned
  if underscoresOK marked digits then
    (numeral? base (digits.filter (· ≠ '_'))).bind (toInt64? negative)
  else none

end GoDecls.Literal
