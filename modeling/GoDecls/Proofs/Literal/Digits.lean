/-
  Digits and the numbers they stand for.

  * `Numeral base ds n`: the digits `ds` of the base stand for `n`, the digit of the
    highest place first;
  * `SignedNumeral base cs n`: the same with a plus sign that may stand before them;
  * `digits?_eq_some_iff` and `numeral?_eq_some_iff`: reading digits finds the one,
    reading a numeral the other.
-/
import Mathlib.Data.Nat.Digits.Defs
import GoDecls.Literal.Digits
import GoDecls.Proofs.Token.Numbers

namespace GoDecls.Literal

open Scan

variable {base n : Nat} {c : Char} {cs ds : List Char}

/-! ## Digits -/

/-- The bases that literals are written in. -/
def bases : List Nat := [2, 8, 10, 16]

/-- The digits of each of the bases. -/
def digitsOf : Nat → List Char
  | 2 => binaryDigits
  | 8 => octalDigits
  | 10 => decimalDigits
  | 16 => hexDigits
  | _ => []

/-- The number of a digit is its place among all digits; the case of a letter does
    not matter. -/
def digitNumber (c : Char) : Nat := "0123456789abcdef".toList.idxOf c.toLower

/-- The number that digits stand for, the digit of the highest place first. -/
def numberOf (base : Nat) (ds : List Char) : Nat := Nat.ofDigits base (ds.map digitNumber).reverse

/-- One or more digits of the base, and the number they stand for. -/
structure Numeral (base : Nat) (ds : List Char) (n : Nat) : Prop where
  ne_nil : ds ≠ []
  digits : ∀ d ∈ ds, d ∈ digitsOf base
  number : numberOf base ds = n

/-- A numeral, or one with a plus sign before it. -/
inductive SignedNumeral (base : Nat) : List Char → Nat → Prop
  | bare {ds : List Char} {n : Nat} (h : Numeral base ds n) : SignedNumeral base ds n
  | plus {ds : List Char} {n : Nat} (h : Numeral base ds n) : SignedNumeral base ('+' :: ds) n

/-- What the characters of ASCII are worth in each base, found by going through them. -/
theorem digitValue?_ascii : ∀ base ∈ bases, ∀ k < 128, digitValue? base (Char.ofNat k) =
    if Char.ofNat k ∈ digitsOf base then some (digitNumber (Char.ofNat k)) else none := by
  decide +kernel

theorem digitsOf_ascii : ∀ base ∈ bases, ∀ d ∈ digitsOf base, d.toNat < 128 := by
  decide

theorem ascii_of_digitValue? (h : digitValue? base c = some n) : c.toNat < 128 := by
  simp only [digitValue?, Option.filter_eq_some_iff] at h
  obtain ⟨hn, -⟩ := h
  split_ifs at hn with hdigit hlower hupper
  · simp only [Char.isDigit, Bool.and_eq_true, decide_eq_true_eq, UInt32.le_iff_toNat_le] at hdigit
    exact lt_of_le_of_lt hdigit.2 (by decide)
  · exact lt_of_le_of_lt hlower.2 (by decide)
  · exact lt_of_le_of_lt hupper.2 (by decide)

/-- **A digit has its number in exactly the bases that it belongs to.** -/
theorem digitValue?_eq_some_iff (hbase : base ∈ bases) :
    digitValue? base c = some n ↔ c ∈ digitsOf base ∧ digitNumber c = n := by
  have hvalue : c.toNat < 128 → digitValue? base c =
      if c ∈ digitsOf base then some (digitNumber c) else none := by
    intro hc
    have h := digitValue?_ascii base hbase c.toNat hc
    rwa [Char.ofNat_toNat] at h
  constructor
  · intro h
    rw [hvalue (ascii_of_digitValue? h)] at h
    simpa using h
  · rintro ⟨hc, hn⟩
    rw [hvalue (digitsOf_ascii base hbase c hc), if_pos hc, hn]

/-! ## Numerals -/

theorem numberOf_cons (base : Nat) (c : Char) (ds : List Char) :
    numberOf base (c :: ds) = digitNumber c * base ^ ds.length + numberOf base ds := by
  rw [numberOf, List.map_cons, List.reverse_cons, Nat.ofDigits_append, Nat.ofDigits_singleton,
    List.length_reverse, List.length_map, numberOf]
  ring

/-- Digits behind a number put it as many places up. -/
theorem digitsFrom?_eq_some_iff (hbase : base ∈ bases) (m : Nat) :
    digitsFrom? base m ds = some n ↔
      (∀ d ∈ ds, d ∈ digitsOf base) ∧ m * base ^ ds.length + numberOf base ds = n := by
  induction ds generalizing m with
  | nil => simp [digitsFrom?, numberOf]
  | cons c ds ih =>
    rw [digitsFrom?, Option.bind_eq_some_iff, List.forall_mem_cons, numberOf_cons, List.length_cons]
    simp only [digitValue?_eq_some_iff hbase, ih]
    have hplaces : m * base ^ (ds.length + 1) +
        (digitNumber c * base ^ ds.length + numberOf base ds) =
          (m * base + digitNumber c) * base ^ ds.length + numberOf base ds := by ring
    rw [hplaces]
    constructor
    · rintro ⟨_, ⟨hc, rfl⟩, hds, hn⟩
      exact ⟨⟨hc, hds⟩, hn⟩
    · rintro ⟨⟨hc, hds⟩, hn⟩
      exact ⟨_, ⟨hc, rfl⟩, hds, hn⟩

theorem digits?_eq_some_iff (hbase : base ∈ bases) :
    digits? base ds = some n ↔ Numeral base ds n := by
  cases ds with
  | nil =>
    constructor
    · rintro ⟨⟩
    · exact fun h => absurd rfl h.ne_nil
  | cons c ds =>
    change digitsFrom? base 0 (c :: ds) = some n ↔ _
    rw [digitsFrom?_eq_some_iff hbase, Nat.zero_mul, Nat.zero_add]
    constructor
    · rintro ⟨hds, hn⟩
      exact ⟨List.cons_ne_nil c ds, hds, hn⟩
    · exact fun h => ⟨h.digits, h.number⟩

theorem plus_not_mem_digitsOf (base : Nat) : '+' ∉ digitsOf base := by
  unfold digitsOf
  split <;> decide

theorem Numeral.plus_not_mem (h : Numeral base ds n) : '+' ∉ ds :=
  fun hmem => plus_not_mem_digitsOf base (h.digits _ hmem)

/-- **Reading a numeral takes digits, and a plus sign before them.** -/
theorem numeral?_eq_some_iff (hbase : base ∈ bases) :
    numeral? base cs = some n ↔ SignedNumeral base cs n := by
  constructor
  · intro h
    unfold numeral? at h
    split at h
    · exact .plus ((digits?_eq_some_iff hbase).1 h)
    · exact .bare ((digits?_eq_some_iff hbase).1 h)
  · rintro (h | h)
    · unfold numeral?
      split
      · exact absurd List.mem_cons_self h.plus_not_mem
      · exact (digits?_eq_some_iff hbase).2 h
    · exact (digits?_eq_some_iff hbase).2 h

theorem numeral?_eq_some_iff_of_not_mem (hbase : base ∈ bases) (hplus : '+' ∉ cs) :
    numeral? base cs = some n ↔ Numeral base cs n := by
  rw [numeral?_eq_some_iff hbase]
  refine ⟨?_, .bare⟩
  rintro (h | h)
  · exact h
  · exact absurd List.mem_cons_self hplus

theorem fixedNumeral?_eq_some_iff {k : Nat} (hbase : base ∈ bases) :
    fixedNumeral? base k cs = some n ↔ k ≤ cs.length ∧ SignedNumeral base (cs.take k) n := by
  rw [fixedNumeral?]
  split
  · next h => simp [h, numeral?_eq_some_iff hbase]
  · next h => simp [h]

end GoDecls.Literal
