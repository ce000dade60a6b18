/-
  Digits in a base, and numerals without a base mark.
-/
namespace GoDecls.Literal

/-- The value of a digit in a base of up to 36; both cases of a letter count. -/
def digitValue? (base : Nat) (c : Char) : Option Nat :=
  let v :=
    if c.isDigit then some (c.toNat - '0'.toNat)
    else if 'a' ≤ c ∧ c ≤ 'z' then some (c.toNat - 'a'.toNat + 10)
    else if 'A' ≤ c ∧ c ≤ 'Z' then some (c.toNat - 'A'.toNat + 10)
    else none
  v.filter (· < base)

/-- The value of digits written behind a number of value `n`. -/
def digitsFrom? (base : Nat) (n : Nat) : List Char → Option Nat
  | [] => some n
  | c :: cs => (digitValue? base c).bind fun d => digitsFrom? base (n * base + d) cs

/-- The value of one or more digits. -/
def digits? (base : Nat) : List Char → Option Nat
  | [] => none
  | cs => digitsFrom? base 0 cs

/-- The value of a numeral: digits, before which a plus sign may stand. -/
def numeral? (base : Nat) : List Char → Option Nat
  | '+' :: cs => digits? base cs
  | cs => digits? base cs

/-- The value of the numeral that the first `n` characters form. -/
def fixedNumeral? (base n : Nat) (cs : List Char) : Option Nat :=
  if n ≤ cs.length then numeral? base (cs.take n) else none

end GoDecls.Literal
