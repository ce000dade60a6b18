/-
  Integer literals and the numbers they denote.

  * `Denotes cs n`: the integer literal `cs` without a sign stands for `n`; these are
    the integers among the number literals (`intLiteral_iff_denotes`);
  * `SignedInt cs v`: the same with at most one sign before it;
  * `magnitude?_eq_some_iff`: on texts without a plus sign `parseInt` reads the
    literals, each as its number;
  * `parseInt_of_signedInt`: every literal is read as its number if that fits in 64
    bits;
  * `signedInt_iff_of_parseInt`: what is read is a literal, unless a plus sign stands
    in it behind the first character.
-/
import GoDecls.Literal.Integer
import GoDecls.Proofs.Literal.Digits

namespace GoDecls.Literal

open Scan

variable {base n : Nat} {c m : Char} {cs ds L : List Char} {prev : Bool} {v : Int} {s : String}

/-! ## What literals denote -/

/-- The number of digits among which underscores stand, which count nothing. -/
def valueOf (base : Nat) (cs : List Char) : Nat := numberOf base (cs.filter (· ≠ '_'))

/-- The number that an integer literal stands for: by its mark in base 2, 8 or 16, by a
    zero in front in base 8, else in base 10. -/
inductive Denotes : List Char → Nat → Prop
  | decimal {d : Char} {cs : List Char} (hd : d ≠ '0') (h : Digits decimalDigits (d :: cs)) :
    Denotes (d :: cs) (valueOf 10 (d :: cs))
  | octal {cs : List Char} (h : Digits octalDigits ('0' :: cs)) :
    Denotes ('0' :: cs) (valueOf 8 ('0' :: cs))
  | marked {m : Char} {base : Nat} {cs : List Char} (hm : (m, digitsOf base) ∈ baseMarks)
    (h : MarkedDigits (digitsOf base) cs) : Denotes ('0' :: m :: cs) (valueOf base cs)

/-- An integer literal with at most one sign, and the integer it stands for. -/
inductive SignedInt : List Char → Int → Prop
  | bare {cs : List Char} {n : Nat} (h : Denotes cs n) : SignedInt cs n
  | plus {cs : List Char} {n : Nat} (h : Denotes cs n) : SignedInt ('+' :: cs) n
  | minus {cs : List Char} {n : Nat} (h : Denotes cs n) : SignedInt ('-' :: cs) (-n)

theorem baseMarks_digits : ∀ p ∈ baseMarks, ∃ base ∈ bases, digitsOf base = p.2 := by
  decide

/-- The literals that denote a number are the integers among the number literals. -/
theorem intLiteral_iff_denotes : IntLiteral cs ↔ ∃ n, Denotes cs n := by
  constructor
  · intro h
    cases h with
    | decimal hd h => exact ⟨_, .decimal hd h⟩
    | octal h => exact ⟨_, .octal h⟩
    | marked hm h =>
      obtain ⟨base, -, rfl⟩ := baseMarks_digits _ hm
      exact ⟨_, .marked hm h⟩
  · rintro ⟨n, h⟩
    cases h with
    | decimal hd h => exact .decimal hd h
    | octal h => exact .octal h
    | marked hm h => exact .marked hm h

theorem mem_bases_of_marked (hm : (m, digitsOf base) ∈ baseMarks) : base ∈ bases := by
  have hne : ∀ p ∈ baseMarks, p.2 ≠ [] := by decide
  have h := hne _ hm
  unfold digitsOf at h
  split at h
  · decide
  · decide
  · decide
  · decide
  · exact absurd rfl h

theorem alphanum_of_mem_digitsOf (hbase : base ∈ bases) :
    ∀ d ∈ digitsOf base, d.isAlphanum = true := by
  have hall : ∀ b ∈ bases, ∀ d ∈ digitsOf b, d.isAlphanum = true := by decide
  exact hall base hbase

theorem Denotes.head (h : Denotes cs n) : ∃ d t, cs = d :: t ∧ d ∈ decimalDigits := by
  cases h with
  | decimal _ h =>
    obtain ⟨d, t, ht, hd⟩ := h.head
    cases ht
    exact ⟨_, _, rfl, hd⟩
  | octal _ => exact ⟨_, _, rfl, by decide⟩
  | marked _ _ => exact ⟨_, _, rfl, by decide⟩

theorem plus_not_mem_of_digits (hcs : ∀ d ∈ cs, d ∈ digitsOf base ∨ d = '_') : '+' ∉ cs := by
  intro hmem
  rcases hcs _ hmem with hd | hd
  · exact plus_not_mem_digitsOf base hd
  · cases hd

/-- No plus sign stands in a literal. -/
theorem Denotes.plus_not_mem (h : Denotes cs n) : '+' ∉ cs := by
  have hdecimal : digitsOf 10 = decimalDigits := rfl
  have hoctal : digitsOf 8 = octalDigits := rfl
  cases h with
  | decimal _ h => exact plus_not_mem_of_digits (hdecimal ▸ h.mem)
  | octal h => exact plus_not_mem_of_digits (hoctal ▸ h.mem)
  | @marked m base cs hm h =>
    have hmark : ∀ p ∈ baseMarks, p.1 ≠ '+' := by decide
    have hcs := plus_not_mem_of_digits h.mem
    simpa [hcs] using (hmark _ hm).symm

/-! ## Underscores -/

theorem underscoresOK_cons (hc : c ≠ '_') :
    underscoresOK prev (c :: cs) = underscoresOK true cs := by
  rw [underscoresOK, if_neg hc]

theorem underscoresOK_underscore : underscoresOK prev ('_' :: cs) =
    (prev && cs.head?.any Char.isAlphanum && underscoresOK false cs) := by
  rw [underscoresOK, if_pos rfl]

section Underscores

variable (hL : ∀ d ∈ L, d.isAlphanum = true)
include hL

theorem ne_underscore_of_mem (hd : c ∈ L) : c ≠ '_' := by
  rintro rfl
  exact absurd (hL _ hd) (by decide)

/-- An underscore before digits is right if a digit or a mark stands before it. -/
theorem underscoresOK_separated (h : Digits L cs) (hok : underscoresOK false cs = true) :
    underscoresOK true ('_' :: cs) = true := by
  obtain ⟨d, t, rfl, hd⟩ := h.head
  rw [underscoresOK_underscore, hok, List.head?_cons, Option.any_some, hL d hd]
  rfl

theorem underscoresOK_of_digits (h : Digits L cs) : ∀ prev, underscoresOK prev cs = true := by
  induction h with
  | single hd => exact fun _ => underscoresOK_cons (ne_underscore_of_mem hL hd)
  | cons hd _ ih =>
    exact fun _ => (underscoresOK_cons (ne_underscore_of_mem hL hd)).trans (ih true)
  | separated hd h ih =>
    intro _
    rw [underscoresOK_cons (ne_underscore_of_mem hL hd)]
    exact underscoresOK_separated hL h (ih false)

theorem underscoresOK_of_markedDigits (h : MarkedDigits L cs) : underscoresOK true cs = true := by
  cases h with
  | plain h => exact underscoresOK_of_digits hL h true
  | separated h => exact underscoresOK_separated hL h (underscoresOK_of_digits hL h false)

end Underscores

theorem eq_nil_of_underscoresOK (hok : underscoresOK prev cs = true)
    (hnone : cs.filter (· ≠ '_') = []) : cs = [] := by
  cases cs with
  | nil => rfl
  | cons c cs =>
    obtain rfl : c = '_' := by simpa using List.filter_eq_nil_iff.1 hnone c List.mem_cons_self
    -- A letter or digit has to follow, but there is none.
    rw [underscoresOK_underscore, Bool.and_eq_true, Bool.and_eq_true] at hok
    obtain ⟨e, he, halnum⟩ := (Option.any_eq_true _ _).1 hok.1.2
    have hmem : e ∈ '_' :: cs := List.mem_cons_of_mem _ (List.mem_of_mem_head? he)
    obtain rfl : e = '_' := by simpa using List.filter_eq_nil_iff.1 hnone e hmem
    exact absurd halnum (by decide)

/-- Where the underscores stand right and all else is a digit, there are digits with
    underscores between them, and before them only if a mark stands there. -/
theorem digits_of_underscoresOK (hok : underscoresOK prev cs = true)
    (hsome : cs.filter (· ≠ '_') ≠ []) (hall : ∀ d ∈ cs.filter (· ≠ '_'), d ∈ L) :
    MarkedDigits L cs ∧ (prev = false → Digits L cs) := by
  -- What stands before `cs` decides whether it may begin with an underscore.
  induction cs generalizing prev with
  | nil => exact absurd rfl hsome
  | cons c cs ih =>
    by_cases hc : c = '_'
    · subst hc
      rw [underscoresOK_underscore, Bool.and_eq_true, Bool.and_eq_true] at hok
      obtain ⟨⟨hprev, -⟩, hrest⟩ := hok
      have hcs := (ih hrest (by simpa using hsome) (by simpa using hall)).2 rfl
      exact ⟨.separated hcs, fun hfalse => absurd (hprev.symm.trans hfalse) (by decide)⟩
    · have hrest : underscoresOK true cs = true := underscoresOK_cons hc ▸ hok
      obtain ⟨hmem, hall⟩ : c ∈ L ∧ ∀ d ∈ cs.filter (· ≠ '_'), d ∈ L := by
        rw [List.filter_cons_of_pos (by simpa using hc)] at hall
        exact List.forall_mem_cons.1 hall
      have hdigits : Digits L (c :: cs) := by
        by_cases hnone : cs.filter (· ≠ '_') = []
        · rw [eq_nil_of_underscoresOK hrest hnone]
          exact .single hmem
        · cases (ih hrest hnone hall).1 with
          | plain h => exact .cons hmem h
          | separated h => exact .separated hmem h
      exact ⟨.plain hdigits, fun _ => hdigits⟩

theorem filter_ne_nil_of_digits (hL : ∀ d ∈ L, d.isAlphanum = true) (h : Digits L cs) :
    cs.filter (· ≠ '_') ≠ [] := by
  obtain ⟨d, t, rfl, hd⟩ := h.head
  rw [List.filter_cons_of_pos (by simpa using ne_underscore_of_mem hL hd)]
  exact List.cons_ne_nil _ _

/-- Digits and underscores without the underscores are a numeral. -/
theorem numeral_of_markedDigits (hbase : base ∈ bases) (h : MarkedDigits (digitsOf base) cs) :
    Numeral base (cs.filter (· ≠ '_')) (valueOf base cs) where
  ne_nil := by
    have hL := alphanum_of_mem_digitsOf hbase
    cases h with
    | plain h => exact filter_ne_nil_of_digits hL h
    | separated h => simpa using filter_ne_nil_of_digits hL h
  digits d hd := by
    obtain ⟨hmem, hne⟩ := List.mem_filter.1 hd
    exact (h.mem d hmem).resolve_right (by simpa using hne)
  number := rfl

/-! ## Reading without a sign -/

/-- The number that is read of a literal behind its sign. -/
def magnitude? (cs : List Char) : Option Nat :=
  let (base, digits, marked) := splitBase cs
  if underscoresOK marked digits then numeral? base (digits.filter (· ≠ '_')) else none

theorem parseInt_eq (s : String) : parseInt s =
    (magnitude? (splitSign s.toList).2).bind (toInt64? (splitSign s.toList).1) := by
  simp only [parseInt, magnitude?]
  split <;> rfl

theorem markedBase?_eq_some_iff : markedBase? m = some base ↔ (m, digitsOf base) ∈ baseMarks := by
  constructor
  · intro h
    unfold markedBase? at h
    split_ifs at h with hx ho hb <;> cases h
    · rcases hx with rfl | rfl <;> decide
    · rcases ho with rfl | rfl <;> decide
    · rcases hb with rfl | rfl <;> decide
  · intro hm
    have hall : ∀ p ∈ baseMarks, ∀ b ∈ bases, digitsOf b = p.2 → markedBase? p.1 = some b := by
      decide
    exact hall _ hm base (mem_bases_of_marked hm) rfl

theorem splitBase_of_ne (hc : c ≠ '0') : splitBase (c :: cs) = (10, c :: cs, false) := by
  unfold splitBase
  split
  · next h =>
    cases h
    exact absurd rfl hc
  · rfl

theorem splitBase_zero (c : Char) (cs : List Char) : splitBase ('0' :: c :: cs) =
    match markedBase? c with
    | some base => (base, cs, true)
    | none => (8, c :: cs, true) := rfl

/-- Digits behind a mark are read as their number. -/
theorem numeral?_filter (hbase : base ∈ bases) (h : MarkedDigits (digitsOf base) cs) :
    numeral? base (cs.filter (· ≠ '_')) = some (valueOf base cs) :=
  (numeral?_eq_some_iff hbase).2 (.bare (numeral_of_markedDigits hbase h))

/-- A zero in front counts nothing. -/
theorem valueOf_zero (base : Nat) (cs : List Char) :
    valueOf base ('0' :: cs) = valueOf base cs := by
  rw [valueOf, List.filter_cons_of_pos (by decide), numberOf_cons]
  simp [digitNumber, valueOf]

theorem markedDigits_of_zero (h : Digits octalDigits ('0' :: c :: cs)) :
    MarkedDigits (digitsOf 8) (c :: cs) := by
  cases h with
  | cons _ h => exact .plain h
  | separated _ h => exact .separated h

theorem markedBase?_of_octal (h : MarkedDigits (digitsOf 8) (c :: cs)) : markedBase? c = none := by
  have hall : ∀ d ∈ digitsOf 8, markedBase? d = none := by decide
  rcases h.mem c List.mem_cons_self with hc | rfl
  · exact hall c hc
  · rfl

theorem magnitude?_of_denotes (h : Denotes cs n) : magnitude? cs = some n := by
  cases h with
  | decimal hd h =>
    have hbase10 : 10 ∈ bases := by decide
    have hok := underscoresOK_of_digits (alphanum_of_mem_digitsOf hbase10) h false
    rw [magnitude?, splitBase_of_ne hd]
    simp only [hok, if_true]
    exact numeral?_filter hbase10 (.plain h)
  | @octal cs h =>
    cases cs with
    | nil => decide
    | cons c cs =>
      have hmarked := markedDigits_of_zero h
      have hbase8 : 8 ∈ bases := by decide
      have hok := underscoresOK_of_markedDigits (alphanum_of_mem_digitsOf hbase8) hmarked
      rw [magnitude?, splitBase_zero, markedBase?_of_octal hmarked, valueOf_zero]
      simp only [hok, if_true]
      exact numeral?_filter hbase8 hmarked
  | marked hm h =>
    have hbase := mem_bases_of_marked hm
    have hok := underscoresOK_of_markedDigits (alphanum_of_mem_digitsOf hbase) h
    rw [magnitude?, splitBase_zero, markedBase?_eq_some_iff.2 hm]
    simp only [hok, if_true]
    exact numeral?_filter hbase h

/-- What is read of digits without a plus sign. -/
theorem digits_of_numeral? (hbase : base ∈ bases) (hplus : '+' ∉ cs)
    (h : (if underscoresOK prev cs then numeral? base (cs.filter (· ≠ '_')) else none) = some n) :
    MarkedDigits (digitsOf base) cs ∧ (prev = false → Digits (digitsOf base) cs) ∧
      valueOf base cs = n := by
  obtain ⟨hok, hnumeral⟩ := Option.ite_none_right_eq_some.1 h
  have hfilter : '+' ∉ cs.filter (· ≠ '_') := fun hmem => hplus (List.mem_filter.1 hmem).1
  obtain ⟨hne, hall, hnumber⟩ := (numeral?_eq_some_iff_of_not_mem hbase hfilter).1 hnumeral
  obtain ⟨hmarked, hdigits⟩ := digits_of_underscoresOK hok hne hall
  exact ⟨hmarked, hdigits, hnumber⟩

theorem denotes_of_magnitude? (hplus : '+' ∉ cs) (h : magnitude? cs = some n) : Denotes cs n := by
  cases cs with
  | nil => cases h
  | cons c cs =>
    by_cases hc : c = '0'
    · subst hc
      cases cs with
      | nil =>
        have hzero : magnitude? ['0'] = some 0 := by decide
        cases hzero.symm.trans h
        exact .octal (.single (by decide))
      | cons m cs =>
        rw [magnitude?, splitBase_zero] at h
        have hrest : '+' ∉ m :: cs := fun hmem => hplus (List.mem_cons_of_mem _ hmem)
        cases hm : markedBase? m with
        | some base =>
          rw [hm] at h
          have hmarked := markedBase?_eq_some_iff.1 hm
          obtain ⟨hdigits, -, rfl⟩ := digits_of_numeral? (mem_bases_of_marked hmarked)
            (fun hmem => hrest (List.mem_cons_of_mem _ hmem)) h
          exact .marked hmarked hdigits
        | none =>
          rw [hm] at h
          obtain ⟨hdigits, -, rfl⟩ := digits_of_numeral? (by decide) hrest h
          rw [← valueOf_zero]
          cases hdigits with
          | plain h => exact .octal (.cons (by decide) h)
          | separated h => exact .octal (.separated (by decide) h)
    · rw [magnitude?, splitBase_of_ne hc] at h
      obtain ⟨-, hdigits, rfl⟩ := digits_of_numeral? (by decide) hplus h
      exact .decimal hc (hdigits rfl)

/-- **Without a plus sign the literals are read, each as its number.** -/
theorem magnitude?_eq_some_iff (hplus : '+' ∉ cs) : magnitude? cs = some n ↔ Denotes cs n :=
  ⟨denotes_of_magnitude? hplus, magnitude?_of_denotes⟩

/-! ## Signs -/

/-- The integer of a sign and a number. -/
def signed (negative : Bool) (n : Nat) : Int := if negative then -n else n

theorem toInt64?_eq (negative : Bool) (n : Nat) : toInt64? negative n =
    if -2 ^ 63 ≤ signed negative n ∧ signed negative n < 2 ^ 63 then some (signed negative n)
    else none := by
  cases negative <;> simp only [toInt64?, signed] <;> split_ifs <;> first | rfl | omega

theorem parseInt_of_split (negative : Bool) (hsplit : splitSign s.toList = (negative, cs))
    (h : Denotes cs n) : parseInt s =
      if -2 ^ 63 ≤ signed negative n ∧ signed negative n < 2 ^ 63 then some (signed negative n)
      else none := by
  rw [parseInt_eq, hsplit, (magnitude?_eq_some_iff h.plus_not_mem).2 h, Option.bind_some,
    toInt64?_eq]

theorem splitSign_of_denotes (h : Denotes cs n) : splitSign cs = (false, cs) := by
  have hall : ∀ d ∈ decimalDigits, d ≠ '-' ∧ d ≠ '+' := by decide
  obtain ⟨d, t, rfl, hd⟩ := h.head
  obtain ⟨hminus, hplus⟩ := hall d hd
  unfold splitSign
  split
  · next h =>
    cases h
    exact absurd rfl hminus
  · next h =>
    cases h
    exact absurd rfl hplus
  · rfl

/-- **Every integer literal is read as its number if that fits in 64 bits with sign.** -/
theorem parseInt_of_signedInt (h : SignedInt s.toList v) :
    parseInt s = if -2 ^ 63 ≤ v ∧ v < 2 ^ 63 then some v else none := by
  generalize hs : s.toList = cs at h
  cases h with
  | bare h => exact parseInt_of_split false (by rw [hs, splitSign_of_denotes h]) h
  | plus h => exact parseInt_of_split false (hs ▸ rfl) h
  | minus h => exact parseInt_of_split true (hs ▸ rfl) h

/-- The least integer of 64 bits, in base 16 and with underscores. -/
theorem parseInt_of_signedInt_least :
    SignedInt "-0x_8000_0000_0000_0000".toList (-9223372036854775808) ∧
      parseInt "-0x_8000_0000_0000_0000" = some (-9223372036854775808) := by
  have hdigits : MarkedDigits (digitsOf 16) "_8000_0000_0000_0000".toList :=
    (digits_of_underscoresOK (show underscoresOK true _ = true by decide) (by decide)
      (by decide)).1
  have hvalue : valueOf 16 "_8000_0000_0000_0000".toList = 9223372036854775808 := by decide
  have h : SignedInt "-0x_8000_0000_0000_0000".toList (-9223372036854775808) := by
    have hx : ('x', digitsOf 16) ∈ baseMarks := by decide
    have h := SignedInt.minus (.marked hx hdigits)
    rwa [hvalue] at h
  exact ⟨h, (parseInt_of_signedInt h).trans (by decide)⟩

theorem SignedInt.plus_not_mem (h : SignedInt cs v) : '+' ∉ cs.tail := by
  cases h with
  | bare h => exact fun hmem => h.plus_not_mem (List.mem_of_mem_tail hmem)
  | plus h => exact h.plus_not_mem
  | minus h => exact h.plus_not_mem

theorem signed_of_toInt64? {negative : Bool} (h : toInt64? negative n = some v) :
    signed negative n = v := by
  rw [toInt64?_eq, Option.ite_none_right_eq_some] at h
  exact Option.some.inj h.2

/-- **What is read is an integer literal unless a plus sign stands in it behind the
    first character.** -/
theorem signedInt_iff_of_parseInt (h : parseInt s = some v) :
    SignedInt s.toList v ↔ '+' ∉ s.toList.tail := by
  refine ⟨SignedInt.plus_not_mem, fun hplus => ?_⟩
  rw [parseInt_eq] at h
  generalize s.toList = cs at h hplus
  obtain ⟨n, hn, hv⟩ := Option.bind_eq_some_iff.1 h
  obtain rfl := signed_of_toInt64? hv
  unfold splitSign at hn ⊢
  split at hn
  · exact .minus ((magnitude?_eq_some_iff hplus).1 hn)
  · exact .plus ((magnitude?_eq_some_iff hplus).1 hn)
  · next hsign =>
    refine .bare ((magnitude?_eq_some_iff fun hmem => ?_).1 hn)
    cases cs with
    | nil => cases hmem
    | cons c cs =>
      rcases List.mem_cons.1 hmem with rfl | hmem
      · exact hsign cs rfl
      · exact hplus hmem

/-- A sign, a mark and an underscore behind it. -/
theorem signedInt_iff_of_parseInt_hex :
    parseInt "-0x_Ff" = some (-255) ∧ SignedInt "-0x_Ff".toList (-255) :=
  ⟨by decide, (signedInt_iff_of_parseInt (by decide)).2 (by decide)⟩

/-- Of two plus signs the second is taken for a part of the digits, but is none. -/
theorem parseInt_two_signs :
    parseInt "++5" = some 5 ∧ ¬ ∃ v, SignedInt "++5".toList v := by
  refine ⟨by decide, ?_⟩
  rintro ⟨v, h⟩
  exact h.plus_not_mem (by decide)

end GoDecls.Literal
