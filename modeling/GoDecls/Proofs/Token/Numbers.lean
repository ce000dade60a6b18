/-
  Number literals.

  * `NumberLiteral kind cs`: the grammar of the language for the three kinds;
  * `Joins hex a b`: within a number `b` may follow `a`; a chain of such characters
    is taken as a whole (`numberExtent_of_chain`), and a literal is one
    (`NumberLiteral.shape`);
  * `NumberLiteral.scan` and `NumberLiteral.numberKind`: a literal is one piece, of
    its own kind, before anything that cannot go on with it;
  * `run_numberLiteral`: the lexer makes one token of it.
-/
import Mathlib.Data.List.Chain
import GoDecls.Proofs.Token.Account
import GoDecls.Proofs.Token.Plain
import GoDecls.Proofs.Token.Spacing

namespace GoDecls.Scan

variable {c : Char} {cs ds fs es r t : List Char} {hex : Bool}

/-! ## The grammar -/

/-- The digits of each base. -/
def binaryDigits : List Char := ['0', '1']

@[inherit_doc binaryDigits]
def octalDigits : List Char := ['0', '1', '2', '3', '4', '5', '6', '7']

@[inherit_doc binaryDigits]
def decimalDigits : List Char := ['0', '1', '2', '3', '4', '5', '6', '7', '8', '9']

@[inherit_doc binaryDigits]
def hexDigits : List Char := decimalDigits ++
  ['a', 'b', 'c', 'd', 'e', 'f', 'A', 'B', 'C', 'D', 'E', 'F']

/-- The letters that mark a base behind a zero, with its digits. -/
def baseMarks : List (Char × List Char) := [
  ('b', binaryDigits), ('B', binaryDigits), ('o', octalDigits), ('O', octalDigits),
  ('x', hexDigits), ('X', hexDigits)]

/-- One or more of the digits `ds`; an underscore may stand between two. -/
inductive Digits (ds : List Char) : List Char → Prop where
  | single {d : Char} (hd : d ∈ ds) : Digits ds [d]
  | cons {d : Char} {cs : List Char} (hd : d ∈ ds) (h : Digits ds cs) : Digits ds (d :: cs)
  | separated {d : Char} {cs : List Char} (hd : d ∈ ds) (h : Digits ds cs) :
    Digits ds (d :: '_' :: cs)

/-- Digits behind a base mark; an underscore may stand between. -/
inductive MarkedDigits (ds : List Char) : List Char → Prop where
  | plain {cs : List Char} (h : Digits ds cs) : MarkedDigits ds cs
  | separated {cs : List Char} (h : Digits ds cs) : MarkedDigits ds ('_' :: cs)

/-- An integer: without a mark, with a zero in front if it is octal, or with a mark. -/
inductive IntLiteral : List Char → Prop where
  | decimal {d : Char} {cs : List Char} (hd : d ≠ '0') (h : Digits decimalDigits (d :: cs)) :
    IntLiteral (d :: cs)
  | octal {cs : List Char} (h : Digits octalDigits ('0' :: cs)) : IntLiteral ('0' :: cs)
  | marked {m : Char} {ds cs : List Char} (hm : (m, ds) ∈ baseMarks) (h : MarkedDigits ds cs) :
    IntLiteral ('0' :: m :: cs)

/-- The digits of a fraction before its exponent, whose whole part is as `Whole` says;
    `point` if they have one. -/
inductive Mantissa (Whole : List Char → Prop) (ds : List Char) : (point : Bool) → List Char → Prop where
  | whole {cs : List Char} (h : Whole cs) : Mantissa Whole ds false cs
  | point {cs fs : List Char} (h : Whole cs) (hf : fs = [] ∨ Digits ds fs) :
    Mantissa Whole ds true (cs ++ '.' :: fs)
  | fraction {fs : List Char} (hf : Digits ds fs) : Mantissa Whole ds true ('.' :: fs)

/-- An exponent with one of these marks. -/
inductive Exponent (marks : List Char) : List Char → Prop where
  | plain {m : Char} {cs : List Char} (hm : m ∈ marks) (h : Digits decimalDigits cs) :
    Exponent marks (m :: cs)
  | signed {m s : Char} {cs : List Char} (hm : m ∈ marks) (hs : s = '+' ∨ s = '-')
    (h : Digits decimalDigits cs) : Exponent marks (m :: s :: cs)

/-- A fraction: with a point, with an exponent or both, and always with an exponent
    if it is hexadecimal. -/
inductive FloatLiteral : List Char → Prop where
  | point {ms : List Char} (h : Mantissa (Digits decimalDigits) decimalDigits true ms) :
    FloatLiteral ms
  | exponent {ms es : List Char} {point : Bool}
    (h : Mantissa (Digits decimalDigits) decimalDigits point ms) (he : Exponent ['e', 'E'] es) :
    FloatLiteral (ms ++ es)
  | hex {m : Char} {ms es : List Char} {point : Bool} (hm : m = 'x' ∨ m = 'X')
    (h : Mantissa (MarkedDigits hexDigits) hexDigits point ms) (he : Exponent ['p', 'P'] es) :
    FloatLiteral ('0' :: m :: (ms ++ es))

/-- A number literal of each kind; an imaginary one may have a zero in front that
    means nothing. -/
inductive NumberLiteral : NumberKind → List Char → Prop where
  | int {cs : List Char} (h : IntLiteral cs) : NumberLiteral .int cs
  | float {cs : List Char} (h : FloatLiteral cs) : NumberLiteral .float cs
  | imagDigits {cs : List Char} (h : Digits decimalDigits cs) : NumberLiteral .imag (cs ++ ['i'])
  | imagInt {cs : List Char} (h : IntLiteral cs) : NumberLiteral .imag (cs ++ ['i'])
  | imagFloat {cs : List Char} (h : FloatLiteral cs) : NumberLiteral .imag (cs ++ ['i'])

/-! ## Chains -/

/-- Within a number `b` may stand behind `a`. -/
def Joins (hex : Bool) (a b : Char) : Prop :=
  isNumberPart b = true ∨ (b = '.' ∧ a ≠ '.') ∨
    ((b = '+' ∨ b = '-') ∧ isExponentMark hex a = true)

theorem not_joins_points : ¬ Joins hex '.' '.' := by
  rintro (h | ⟨-, h⟩ | ⟨h | h, -⟩)
  · revert h
    decide
  · exact h rfl
  all_goals cases h

/-- What follows cannot go on with a number, unless by a sign. -/
def Stops (r : List Char) : Prop := ∀ d ∈ r.head?, isNumberPart d = false ∧ d ≠ '.'

theorem Stops.of_blankHead (hr : BlankHead r) : Stops r := by
  intro d hd
  refine ⟨isNumberPart_blanks d (hr d hd), ?_⟩
  rintro rfl
  exact absurd (hr '.' hd) (by decide)

theorem numberExtent_of_chain (h : (c :: t).IsChain (Joins hex)) (hr : Stops r)
    (hlast : ∀ d ∈ (c :: t).getLast?, isExponentMark hex d = false) :
    numberExtent hex c (t ++ r) = t.length := by
  induction t generalizing c with
  | nil =>
    cases r with
    | nil => rfl
    | cons d r =>
      obtain ⟨hpart, hdot⟩ := hr d rfl
      refine numberExtent_cons_of_not ?_
      rintro (h | ⟨h, -⟩ | ⟨-, h⟩)
      · rw [hpart] at h
        cases h
      · exact hdot h
      · rw [hlast c rfl] at h
        cases h
  | cons d t ih =>
    rw [List.isChain_cons_cons] at h
    have hcontinues : Continues hex c d (t ++ r) := by
      refine h.1.imp_right (Or.imp_left ?_)
      rintro ⟨rfl, -⟩
      refine ⟨rfl, fun hhead => ?_⟩
      cases t with
      | nil => exact (hr '.' hhead).2 rfl
      | cons e t =>
        cases hhead
        exact not_joins_points (List.isChain_cons_cons.1 h.2).1
    rw [List.cons_append, numberExtent_cons_of_continues hcontinues, ih h.2 ?_, List.length_cons]
    simpa using hlast

theorem isChain_of_parts (h : ∀ d ∈ cs, isNumberPart d = true) : cs.IsChain (Joins hex) := by
  induction cs with
  | nil => exact .nil
  | cons c cs ih =>
    refine (ih fun d hd => h d (List.mem_cons_of_mem _ hd)).cons fun d hd => .inl ?_
    exact h d (List.mem_cons_of_mem _ (List.mem_of_mem_head? hd))

/-- A chain before a chain that begins with a part that is always taken. -/
theorem isChain_append_part (h : cs.IsChain (Joins hex)) (h' : ds.IsChain (Joins hex))
    (hd : ∀ d ∈ ds.head?, isNumberPart d = true) : (cs ++ ds).IsChain (Joins hex) :=
  h.append h' fun _ _ d hmem => .inl (hd d hmem)

/-! ## What literals consist of -/

namespace Digits

theorem mem (h : Digits ds cs) : ∀ d ∈ cs, d ∈ ds ∨ d = '_' := by
  induction h with
  | single hd =>
    intro d hmem
    rw [List.mem_singleton.1 hmem]
    exact .inl hd
  | cons hd _ ih =>
    intro d hmem
    rcases List.mem_cons.1 hmem with rfl | hmem
    · exact .inl hd
    · exact ih d hmem
  | separated hd _ ih =>
    intro d hmem
    rcases List.mem_cons.1 hmem with rfl | hmem
    · exact .inl hd
    rcases List.mem_cons.1 hmem with rfl | hmem
    · exact .inr rfl
    · exact ih d hmem

theorem head (h : Digits ds cs) : ∃ d rest, cs = d :: rest ∧ d ∈ ds := by
  cases h with
  | single hd => exact ⟨_, _, rfl, hd⟩
  | cons hd _ => exact ⟨_, _, rfl, hd⟩
  | separated hd _ => exact ⟨_, _, rfl, hd⟩

theorem ne_nil (h : Digits ds cs) : cs ≠ [] := by
  obtain ⟨d, rest, rfl, -⟩ := h.head
  exact List.cons_ne_nil _ _

theorem getLast? (h : Digits ds cs) : ∃ d, cs.getLast? = some d ∧ d ∈ ds := by
  induction h with
  | single hd => exact ⟨_, rfl, hd⟩
  | cons _ h ih =>
    rw [List.getLast?_cons_of_ne_nil h.ne_nil]
    exact ih
  | separated _ h ih =>
    rw [List.getLast?_cons_cons, List.getLast?_cons_of_ne_nil h.ne_nil]
    exact ih

end Digits

theorem MarkedDigits.mem (h : MarkedDigits ds cs) : ∀ d ∈ cs, d ∈ ds ∨ d = '_' := by
  cases h with
  | plain h => exact h.mem
  | separated h =>
    intro d hd
    rcases List.mem_cons.1 hd with rfl | hd
    · exact .inr rfl
    · exact h.mem d hd

theorem MarkedDigits.getLast? (h : MarkedDigits ds cs) : ∃ d, cs.getLast? = some d ∧ d ∈ ds := by
  cases h with
  | plain h => exact h.getLast?
  | separated h =>
    rw [List.getLast?_cons_of_ne_nil h.ne_nil]
    exact h.getLast?

/-- Digits and underscores are always taken. -/
theorem isNumberPart_of_mem (hds : ∀ d ∈ ds, d ∈ hexDigits) (h : ∀ d ∈ cs, d ∈ ds ∨ d = '_') :
    ∀ d ∈ cs, isNumberPart d = true := by
  have hpart : ∀ d ∈ hexDigits, isNumberPart d = true := by decide
  intro d hd
  rcases h d hd with hmem | rfl
  · exact hpart d (hds d hmem)
  · rfl

namespace Mantissa

variable {Whole : List Char → Prop} {point : Bool} {ms : List Char}

theorem mem (hW : ∀ cs, Whole cs → ∀ d ∈ cs, d ∈ ds ∨ d = '_') (h : Mantissa Whole ds point ms) :
    ∀ d ∈ ms, d ∈ ds ∨ d = '_' ∨ d = '.' := by
  have hdigits : ∀ fs, fs = [] ∨ Digits ds fs → ∀ d ∈ fs, d ∈ ds ∨ d = '_' := by
    rintro fs (rfl | hf)
    · exact nofun
    · exact hf.mem
  have hpoint : ∀ fs, fs = [] ∨ Digits ds fs → ∀ d ∈ '.' :: fs, d ∈ ds ∨ d = '_' ∨ d = '.' := by
    intro fs hf d hd
    rcases List.mem_cons.1 hd with rfl | hd
    · exact .inr (.inr rfl)
    · exact (hdigits fs hf d hd).imp_right .inl
  intro d hd
  cases h with
  | whole h => exact (hW _ h d hd).imp_right .inl
  | point h hf =>
    rcases List.mem_append.1 hd with hd | hd
    · exact (hW _ h d hd).imp_right .inl
    · exact hpoint _ hf d hd
  | fraction hf => exact hpoint _ (.inr hf) d hd

/-- A point with digits on both its sides is taken. -/
theorem chain (hds : ∀ d ∈ ds, d ∈ hexDigits) (hW : ∀ cs, Whole cs → ∀ d ∈ cs, d ∈ ds ∨ d = '_')
    (h : Mantissa Whole ds point ms) : ms.IsChain (Joins hex) := by
  have hdigits : ∀ fs, fs = [] ∨ Digits ds fs → ∀ d ∈ fs, isNumberPart d = true := by
    rintro fs (rfl | hf)
    · exact nofun
    · exact isNumberPart_of_mem hds hf.mem
  have hpoint : ∀ fs, fs = [] ∨ Digits ds fs → ('.' :: fs).IsChain (Joins hex) := fun fs hf =>
    (isChain_of_parts (hdigits fs hf)).cons fun d hd =>
      .inl (hdigits fs hf d (List.mem_of_mem_head? hd))
  cases h with
  | whole h => exact isChain_of_parts (isNumberPart_of_mem hds (hW _ h))
  | point h hf =>
    have hparts := isNumberPart_of_mem hds (hW _ h)
    refine (isChain_of_parts hparts).append (hpoint _ hf) ?_
    rintro c hc _ ⟨⟩
    refine .inr (.inl ⟨rfl, ?_⟩)
    rintro rfl
    cases hparts '.' (List.mem_of_mem_getLast? hc)
  | fraction hf => exact hpoint _ (.inr hf)

/-- The last character is a digit or the point. -/
theorem getLast? (hW : ∀ cs, Whole cs → ∃ d, cs.getLast? = some d ∧ d ∈ ds)
    (h : Mantissa Whole ds point ms) : ∃ d, ms.getLast? = some d ∧ (d ∈ ds ∨ d = '.') := by
  have hpoint : ∀ fs, fs = [] ∨ Digits ds fs →
      ∃ d, ('.' :: fs).getLast? = some d ∧ (d ∈ ds ∨ d = '.') := by
    rintro fs (rfl | hf)
    · exact ⟨'.', rfl, .inr rfl⟩
    · obtain ⟨d, hd, hmem⟩ := hf.getLast?
      exact ⟨d, by rw [List.getLast?_cons_of_ne_nil hf.ne_nil, hd], .inl hmem⟩
  cases h with
  | whole h =>
    obtain ⟨d, hd, hmem⟩ := hW _ h
    exact ⟨d, hd, .inl hmem⟩
  | point _ hf =>
    rw [List.getLast?_append_of_ne_nil _ (List.cons_ne_nil _ _)]
    exact hpoint _ hf
  | fraction hf => exact hpoint _ (.inr hf)

/-- A decimal number begins with a digit, or with the point before one. -/
theorem starts (h : Mantissa (Digits decimalDigits) decimalDigits point ms) :
    ∃ c t, ms = c :: t ∧ ∀ es, startsNumber c (t ++ es) = true := by
  have hdigit : ∀ cs, Digits decimalDigits cs →
      ∃ c t, cs = c :: t ∧ c.isDigit = true := by
    have hall : ∀ c ∈ decimalDigits, c.isDigit = true := by decide
    intro cs h
    obtain ⟨c, t, rfl, hc⟩ := h.head
    exact ⟨c, t, rfl, hall c hc⟩
  cases h with
  | whole h =>
    obtain ⟨c, t, rfl, hc⟩ := hdigit _ h
    exact ⟨c, t, rfl, fun es => by simp [startsNumber, hc]⟩
  | point h _ =>
    obtain ⟨c, t, rfl, hc⟩ := hdigit _ h
    exact ⟨c, _, rfl, fun es => by simp [startsNumber, hc]⟩
  | fraction hf =>
    obtain ⟨c, t, rfl, hc⟩ := hdigit _ hf
    exact ⟨'.', _, rfl, fun es => by simp [startsNumber, hc]⟩

theorem point_mem (h : Mantissa Whole ds true ms) : '.' ∈ ms := by
  cases h <;> simp

end Mantissa

namespace Exponent

variable {marks : List Char}

/-- The sign of an exponent is taken, and it ends in a digit. -/
theorem chain (hmarks : ∀ m ∈ marks, isNumberPart m = true ∧ isExponentMark hex m = true)
    (h : Exponent marks es) : es.IsChain (Joins hex) ∧ (∀ d ∈ es.head?, isNumberPart d = true) ∧
      ∃ d, es.getLast? = some d ∧ d ∈ decimalDigits := by
  have hparts : ∀ cs, Digits decimalDigits cs → ∀ d ∈ cs, isNumberPart d = true := fun cs h =>
    isNumberPart_of_mem (by decide) h.mem
  have hcons : ∀ c cs, Digits decimalDigits cs → (c :: cs).IsChain (Joins hex) := fun c cs h =>
    (isChain_of_parts (hparts cs h)).cons fun d hd =>
      .inl (hparts cs h d (List.mem_of_mem_head? hd))
  cases h with
  | plain hm h =>
    refine ⟨hcons _ _ h, ?_, ?_⟩
    · rintro _ ⟨⟩
      exact (hmarks _ hm).1
    · rw [List.getLast?_cons_of_ne_nil h.ne_nil]
      exact h.getLast?
  | signed hm hs h =>
    refine ⟨(hcons _ _ h).cons ?_, ?_, ?_⟩
    · rintro _ ⟨⟩
      exact .inr (.inr ⟨hs, (hmarks _ hm).2⟩)
    · rintro _ ⟨⟩
      exact (hmarks _ hm).1
    · rw [List.getLast?_cons_cons, List.getLast?_cons_of_ne_nil h.ne_nil]
      exact h.getLast?

theorem head (h : Exponent marks es) : ∃ m rest, es = m :: rest ∧ m ∈ marks := by
  cases h with
  | plain hm _ => exact ⟨_, _, rfl, hm⟩
  | signed hm _ _ => exact ⟨_, _, rfl, hm⟩

theorem mem (h : Exponent marks es) :
    ∀ d ∈ es, d ∈ marks ∨ d ∈ decimalDigits ∨ d ∈ ['_', '+', '-'] := by
  have hdigits : ∀ cs, Digits decimalDigits cs → ∀ d ∈ cs,
      d ∈ marks ∨ d ∈ decimalDigits ∨ d ∈ ['_', '+', '-'] := by
    intro cs h d hd
    rcases h.mem d hd with hmem | rfl
    · exact .inr (.inl hmem)
    · exact .inr (.inr (by decide))
  intro d hd
  cases h with
  | plain hm h =>
    rcases List.mem_cons.1 hd with rfl | hd
    · exact .inl hm
    · exact hdigits _ h d hd
  | signed hm hs h =>
    rcases List.mem_cons.1 hd with rfl | hd
    · exact .inl hm
    rcases List.mem_cons.1 hd with rfl | hd
    · exact .inr (.inr (by rcases hs with rfl | rfl <;> decide))
    · exact hdigits _ h d hd

end Exponent

/-! ## Literals as pieces -/

/-- A mark of a fraction. -/
def isFloatMark (hex : Bool) (c : Char) : Bool :=
  if hex then c == 'p' || c == 'P' else c == '.' || c == 'e' || c == 'E'

theorem numberKind_eq (cs : List Char) : numberKind cs =
    if cs.getLast? = some 'i' then .imag
    else if cs.any (isFloatMark (isHex cs)) then .float else .int := by
  rw [numberKind]
  cases isHex cs <;> rfl

/-- What makes characters a number of this kind, with or without a sign of its
    fraction. -/
structure Shape (hex float : Bool) (cs : List Char) : Prop where
  starts : ∃ c t, cs = c :: t ∧ startsNumber c t = true
  isHex : isHex cs = hex
  chain : cs.IsChain (Joins hex)
  last : ∃ d, cs.getLast? = some d ∧ d ≠ 'i' ∧ isExponentMark hex d = false
  mark : cs.any (isFloatMark hex) = float

theorem isHex_eq_false (h : ∀ d ∈ cs, d ≠ 'x' ∧ d ≠ 'X') : Scan.isHex cs = false := by
  cases cs with
  | nil => rfl
  | cons c cs =>
    rw [isHex_cons]
    cases cs with
    | nil => simp
    | cons d cs => simp [h d (by simp)]

theorem isHex_marked {m : Char} (hm : m = 'x' ∨ m = 'X') : Scan.isHex ('0' :: m :: cs) = true := by
  rcases hm with rfl | rfl <;> rfl

theorem last_of_hexDigit {d : Char}
    (hd : d ∈ decimalDigits ∨ d = '.' ∨ hex = true ∧ d ∈ hexDigits) :
    d ≠ 'i' ∧ isExponentMark hex d = false := by
  have hdecimal : ∀ d ∈ decimalDigits, ∀ hex, d ≠ 'i' ∧ isExponentMark hex d = false := by decide
  have hhex : ∀ d ∈ hexDigits, d ≠ 'i' ∧ isExponentMark true d = false := by decide
  rcases hd with hd | rfl | ⟨rfl, hd⟩
  · exact hdecimal d hd hex
  · cases hex <;> decide
  · exact hhex d hd

theorem startsNumber_of_mem {c : Char} (hc : c ∈ decimalDigits) : startsNumber c t = true := by
  have hdigit : ∀ c ∈ decimalDigits, c.isDigit = true := by decide
  rw [startsNumber, hdigit c hc]
  rfl

/-- Digits, underscores and the marks of the smaller bases. -/
def plainChars : List Char := decimalDigits ++ ['_', 'b', 'B', 'o', 'O']

theorem Shape.plain (h : ∀ d ∈ cs, d ∈ plainChars) (hc : ∃ c t, cs = c :: t ∧ c ∈ decimalDigits)
    (hlast : ∃ d, cs.getLast? = some d ∧ d ∈ decimalDigits) : Shape false false cs := by
  have hchars : ∀ d ∈ plainChars, isNumberPart d = true ∧ d ≠ 'x' ∧ d ≠ 'X' ∧
      isFloatMark false d = false := by decide
  obtain ⟨c, t, rfl, hc⟩ := hc
  obtain ⟨d, hd, hmem⟩ := hlast
  refine ⟨⟨c, t, rfl, startsNumber_of_mem hc⟩, ?_, ?_, ⟨d, hd, last_of_hexDigit (.inl hmem)⟩, ?_⟩
  · exact isHex_eq_false fun d hd => ⟨(hchars d (h d hd)).2.1, (hchars d (h d hd)).2.2.1⟩
  · exact isChain_of_parts fun d hd => (hchars d (h d hd)).1
  · rw [List.any_eq_false]
    intro d hd
    rw [(hchars d (h d hd)).2.2.2]
    exact Bool.false_ne_true

theorem Shape.digits (hds : ∀ d ∈ ds, d ∈ decimalDigits) (h : Digits ds cs) :
    Shape false false cs := by
  obtain ⟨c, t, hcs, hc⟩ := h.head
  obtain ⟨d, hd, hmem⟩ := h.getLast?
  refine .plain (fun d hd => ?_) ⟨c, t, hcs, hds c hc⟩ ⟨d, hd, hds d hmem⟩
  rcases h.mem d hd with hmem | rfl
  · exact List.mem_append_left _ (hds d hmem)
  · decide

theorem Shape.marked {m : Char} (hm : (m, ds) ∈ baseMarks) (h : MarkedDigits ds cs) :
    ∃ hex, Shape hex false ('0' :: m :: cs) := by
  have hbases : ∀ p ∈ baseMarks, (p.2 = hexDigits ∧ (p.1 = 'x' ∨ p.1 = 'X')) ∨
      (p.1 ∈ plainChars ∧ ∀ d ∈ p.2, d ∈ decimalDigits) := by decide
  obtain ⟨d, hd, hmem⟩ := h.getLast?
  have hlast : ('0' :: m :: cs).getLast? = some d := by
    simp [List.getLast?_cons, hd]
  rcases hbases _ hm with ⟨rfl, hm⟩ | ⟨hm, hds⟩
  · have hchars : ∀ d ∈ hexDigits, isFloatMark true d = false := by decide
    have hmark : isNumberPart m = true ∧ isFloatMark true m = false := by
      rcases hm with rfl | rfl <;> decide
    refine ⟨true, ⟨'0', _, rfl, rfl⟩, isHex_marked hm, ?_,
      ⟨d, hlast, last_of_hexDigit (.inr (.inr ⟨rfl, hmem⟩))⟩, ?_⟩
    · refine isChain_of_parts fun d hd => ?_
      rcases List.mem_cons.1 hd with rfl | hd
      · rfl
      rcases List.mem_cons.1 hd with rfl | hd
      · exact hmark.1
      · exact isNumberPart_of_mem (fun _ h => h) h.mem d hd
    · rw [List.any_eq_false]
      intro d hd
      rw [Bool.not_eq_true]
      rcases List.mem_cons.1 hd with rfl | hd
      · rfl
      rcases List.mem_cons.1 hd with rfl | hd
      · exact hmark.2
      rcases h.mem d hd with hd | rfl
      · exact hchars d hd
      · rfl
  · refine ⟨false, .plain (fun d hd => ?_) ⟨'0', _, rfl, by decide⟩ ⟨d, hlast, hds d hmem⟩⟩
    rcases List.mem_cons.1 hd with rfl | hd
    · decide
    rcases List.mem_cons.1 hd with rfl | hd
    · exact hm
    rcases h.mem d hd with hd | rfl
    · exact List.mem_append_left _ (hds d hd)
    · decide

theorem Shape.of_int (h : IntLiteral cs) : ∃ hex, Shape hex false cs := by
  cases h with
  | decimal _ h => exact ⟨false, .digits (fun _ h => h) h⟩
  | octal h => exact ⟨false, .digits (by decide) h⟩
  | marked hm h => exact Shape.marked hm h

/-- The characters of fractions that are not hexadecimal. -/
def floatChars : List Char := decimalDigits ++ ['_', '.', 'e', 'E', '+', '-']

theorem isHex_floatChars (h : ∀ d ∈ cs, d ∈ floatChars) : Scan.isHex cs = false := by
  have hchars : ∀ d ∈ floatChars, d ≠ 'x' ∧ d ≠ 'X' := by decide
  exact isHex_eq_false fun d hd => hchars d (h d hd)

theorem Mantissa.mem_floatChars {point : Bool} {ms : List Char}
    (h : Mantissa (Digits decimalDigits) decimalDigits point ms) : ∀ d ∈ ms, d ∈ floatChars := by
  intro d hd
  rcases h.mem (fun _ h => h.mem) d hd with hd | rfl | rfl
  · exact List.mem_append_left _ hd
  · decide
  · decide

theorem Exponent.mem_floatChars (h : Exponent ['e', 'E'] es) : ∀ d ∈ es, d ∈ floatChars := by
  have hchars : ∀ d ∈ ['e', 'E'] ++ ['_', '+', '-'], d ∈ floatChars := by decide
  intro d hd
  rcases h.mem d hd with hd | hd | hd
  · exact hchars d (List.mem_append_left _ hd)
  · exact List.mem_append_left _ hd
  · exact hchars d (List.mem_append_right _ hd)

theorem Shape.of_float (h : FloatLiteral cs) : ∃ hex, Shape hex true cs := by
  cases h with
  | point h =>
    obtain ⟨c, t, hms, hstarts⟩ := h.starts
    obtain ⟨d, hd, hmem⟩ := h.getLast? fun _ h => h.getLast?
    refine ⟨false, ⟨c, t, hms, by simpa using hstarts []⟩, isHex_floatChars h.mem_floatChars,
      h.chain (by decide) fun _ h => h.mem, ⟨d, hd, last_of_hexDigit (hmem.imp_right .inl)⟩, ?_⟩
    exact List.any_eq_true.2 ⟨'.', h.point_mem, rfl⟩
  | @exponent ms es _ h he =>
    obtain ⟨c, t, hms, hstarts⟩ := h.starts
    have hmark : ∀ m ∈ ['e', 'E'], isNumberPart m = true ∧ isExponentMark false m = true := by
      decide
    obtain ⟨hchain, hpart, d, hd, hmem⟩ := he.chain hmark
    obtain ⟨m, rest, hes, hm⟩ := he.head
    refine ⟨false, ⟨c, t ++ es, by rw [hms, List.cons_append], hstarts es⟩, ?_, ?_, ⟨d, ?_, ?_⟩, ?_⟩
    · refine isHex_floatChars fun d hd => ?_
      exact (List.mem_append.1 hd).elim (h.mem_floatChars d) (he.mem_floatChars d)
    · exact isChain_append_part (h.chain (by decide) fun _ h => h.mem) hchain hpart
    · rw [List.getLast?_append, hd, Option.some_or]
    · exact last_of_hexDigit (.inl hmem)
    · have hmarks : ∀ m ∈ ['e', 'E'], isFloatMark false m = true := by decide
      exact List.any_eq_true.2 ⟨m, by simp [hes], hmarks m hm⟩
  | @hex m ms es _ hm h he =>
    have hexponent : ∀ m ∈ ['p', 'P'], isNumberPart m = true ∧ isExponentMark true m = true := by
      decide
    obtain ⟨hchain, hpart, d, hd, hmem⟩ := he.chain hexponent
    obtain ⟨e, rest, hes, he'⟩ := he.head
    have hmark : isNumberPart m = true ∧ m ≠ '.' := by
      rcases hm with rfl | rfl <;> decide
    have hms : (m :: ms).IsChain (Joins true) := by
      refine (h.chain (fun _ h => h) fun _ h => h.mem).cons fun d hd => ?_
      rcases h.mem (fun _ h => h.mem) d (List.mem_of_mem_head? hd) with hd | rfl | rfl
      · have hchars : ∀ e ∈ [d], e ∈ hexDigits ∨ e = '_' := List.forall_mem_singleton.2 (.inl hd)
        exact .inl (isNumberPart_of_mem (fun _ h => h) hchars d List.mem_cons_self)
      · exact .inl rfl
      · exact .inr (.inl ⟨rfl, hmark.2⟩)
    refine ⟨true, ⟨'0', _, rfl, rfl⟩, isHex_marked hm, ?_, ⟨d, ?_, ?_⟩, ?_⟩
    · refine (isChain_append_part hms hchain hpart).cons ?_
      rintro _ ⟨⟩
      exact .inl hmark.1
    · simp [List.getLast?_cons, List.getLast?_append, hd]
    · exact last_of_hexDigit (.inl hmem)
    · have hmarks : ∀ m ∈ ['p', 'P'], isFloatMark true m = true := by decide
      exact List.any_eq_true.2 ⟨e, by simp [hes], hmarks e he'⟩

/-- **A literal has the shape of its kind.** -/
theorem NumberLiteral.shape {kind : NumberKind} (h : NumberLiteral kind cs) :
    (kind ≠ .imag ∧ ∃ hex, Shape hex (kind == .float) cs) ∨
      kind = .imag ∧ ∃ ds hex float, cs = ds ++ ['i'] ∧ Shape hex float ds := by
  cases h with
  | int h => exact .inl ⟨nofun, Shape.of_int h⟩
  | float h => exact .inl ⟨nofun, Shape.of_float h⟩
  | imagDigits h => exact .inr ⟨rfl, _, _, _, rfl, .digits (fun _ h => h) h⟩
  | imagInt h =>
    obtain ⟨hex, hshape⟩ := Shape.of_int h
    exact .inr ⟨rfl, _, _, _, rfl, hshape⟩
  | imagFloat h =>
    obtain ⟨hex, hshape⟩ := Shape.of_float h
    exact .inr ⟨rfl, _, _, _, rfl, hshape⟩

/-- What is taken as a whole: it begins as a number, goes on as one, and a sign
    behind it does not belong to it. -/
structure Taken (hex : Bool) (cs : List Char) : Prop where
  starts : ∃ c t, cs = c :: t ∧ startsNumber c t = true
  isHex : isHex cs = hex
  chain : cs.IsChain (Joins hex)
  last : ∀ d ∈ cs.getLast?, isExponentMark hex d = false

theorem startsNumber_append (h : startsNumber c t = true) (r : List Char) :
    startsNumber c (t ++ r) = true := by
  cases t with
  | nil =>
    have hc : c.isDigit = true := by simpa [startsNumber] using h
    simp [startsNumber, hc]
  | cons d t => exact h

theorem isHex_append (hr : ∀ d ∈ r.head?, d ≠ 'x' ∧ d ≠ 'X') :
    Scan.isHex (c :: (t ++ r)) = Scan.isHex (c :: t) := by
  rw [isHex_cons, isHex_cons]
  cases t with
  | cons d t => rfl
  | nil =>
    cases r with
    | nil => rfl
    | cons d r => simp [hr d rfl]

theorem Taken.scan (h : Taken hex (c :: t)) (hr : Stops r) :
    Scan.scan c (t ++ r) = (.number, t.length) := by
  obtain ⟨_, _, ⟨⟩, hstarts⟩ := h.starts
  have hx : ∀ d ∈ r.head?, d ≠ 'x' ∧ d ≠ 'X' := by
    intro d hd
    constructor <;> rintro rfl <;> cases (hr _ hd).1
  rw [scan_number (startsNumber_append hstarts r), isHex_append hx, h.isHex,
    numberExtent_of_chain h.chain hr h.last]

theorem Shape.taken {float : Bool} (h : Shape hex float cs) : Taken hex cs := by
  obtain ⟨d, hd, -, hmark⟩ := h.last
  refine ⟨h.starts, h.isHex, h.chain, ?_⟩
  rw [hd]
  rintro _ ⟨⟩
  exact hmark

theorem Shape.taken_imag {float : Bool} (h : Shape hex float cs) : Taken hex (cs ++ ['i']) := by
  obtain ⟨c, t, rfl, hstarts⟩ := h.starts
  have hpart : isNumberPart 'i' = true := by decide
  have hmark : ∀ d ∈ ['i'].head?, d ≠ 'x' ∧ d ≠ 'X' := by
    rintro _ ⟨⟩
    decide
  refine ⟨⟨c, t ++ ['i'], rfl, startsNumber_append hstarts _⟩, ?_, ?_, ?_⟩
  · rw [List.cons_append, isHex_append hmark, h.isHex]
  · exact isChain_append_part h.chain (List.isChain_singleton _) (by simpa using hpart)
  · rw [List.getLast?_concat]
    rintro _ ⟨⟩
    cases hex <;> decide

theorem NumberLiteral.eq_cons {kind : NumberKind} (h : NumberLiteral kind cs) :
    ∃ c t, cs = c :: t := by
  rcases h.shape with ⟨-, hex, hshape⟩ | ⟨-, ds, hex, float, rfl, hshape⟩
  · obtain ⟨c, t, rfl, -⟩ := hshape.starts
    exact ⟨c, t, rfl⟩
  · obtain ⟨c, t, rfl, -⟩ := hshape.starts
    exact ⟨c, _, rfl⟩

/-- A literal is of its own kind. -/
theorem NumberLiteral.numberKind {kind : NumberKind} (h : NumberLiteral kind cs) :
    Scan.numberKind cs = kind := by
  rw [numberKind_eq]
  rcases h.shape with ⟨hkind, hex, hshape⟩ | ⟨rfl, ds, hex, float, rfl, hshape⟩
  · obtain ⟨d, hd, hi, -⟩ := hshape.last
    rw [hd, if_neg (by simpa using hi), hshape.isHex, hshape.mark]
    cases kind with
    | int => rfl
    | float => rfl
    | imag => exact absurd rfl hkind
  · rw [List.getLast?_concat, if_pos rfl]

/-- **A number literal is one piece**, before anything that cannot go on with it. -/
theorem NumberLiteral.scan {kind : NumberKind} (h : NumberLiteral kind (c :: t)) (hr : Stops r) :
    Scan.scan c (t ++ r) = (.number, t.length) := by
  rcases h.shape with ⟨-, hex, hshape⟩ | ⟨-, ds, hex, float, hds, hshape⟩
  · exact hshape.taken.scan hr
  · have htaken := hshape.taken_imag
    rw [← hds] at htaken
    exact htaken.scan hr

end GoDecls.Scan

/-! ## Literals as tokens -/

namespace GoDecls

open Scan Text

variable {kind : NumberKind} {cs r : List Char}

/-- **A number literal is taken whole and is of its kind**, before anything that cannot
    go on with it: by any lexer that stands at it, and in every text in which a token
    starts at it.  A sign behind it cannot. -/
theorem run_numberLiteral (h : NumberLiteral kind cs) (hr : Stops r) :
    (∀ l : Lexer, l.rest = cs ++ r → l.next =
      (some ⟨l.pos, .number kind (String.ofList cs), l.pos + byteLength cs⟩,
        l.moved r (byteLength cs) true)) ∧
    ∀ (front : List Char), ∀ t ∈ (Lexer.ofText (front ++ (cs ++ r))).run.1,
      t.start = byteLength front →
        t = ⟨byteLength front, .number kind (String.ofList cs), byteLength (front ++ cs)⟩ ∧
        ∃ us ws, (Lexer.ofText (front ++ (cs ++ r))).run.1 = us ++ t :: ws ∧
          (∀ u ∈ us, u.stop ≤ t.start) ∧ ∀ w ∈ ws, t.stop ≤ w.start := by
  obtain ⟨c, t, rfl⟩ := h.eq_cons
  have hscan := h.scan hr
  have htoken : Piece.number.token? (c :: t) = some (.number kind (String.ofList (c :: t))) := by
    rw [Piece.token?, h.numberKind]
  constructor
  · intro l hl
    rw [List.cons_append] at hl
    rw [Lexer.next_of_cons hl, Lexer.read_token hscan htoken]
    rfl
  · intro front u hu hstart
    refine ⟨?_, run_split hu⟩
    have hline : isLineEnd c = false := by
      rw [← Bool.not_eq_true, isLineEnd, Bool.or_eq_true, beq_iff_eq, beq_iff_eq]
      rintro (rfl | rfl) <;> cases congrArg Prod.fst hscan
    have hlexeme := lexeme?_of_start hu hstart hline
    have hfront : (Segment.front (byteLength front) c (t ++ r)).lexeme? =
        some ⟨byteLength front, .number kind (String.ofList (c :: t)),
          byteLength (front ++ c :: t)⟩ := by
      simp only [Segment.front, hscan, List.take_left, Segment.lexeme?, Segment.token?,
        Segment.fault?, Segment.text, htoken, Segment.stop, Option.map_some, byteLength_append]
    exact (Option.some.inj (hfront.symm.trans hlexeme)).symm

/-- A sign behind the digit `e` does not belong to the number. -/
theorem run_hexLiteral_sign : NumberLiteral .int ['0', 'x', '1', 'e'] ∧ Stops ['+', '2'] ∧
    (Lexer.ofText "0x1e+2".toList).next.1 = some ⟨0, .number .int "0x1e", 4⟩ ∧
    ∀ t ∈ (Lexer.ofText "v + 0x1e+2".toList).run.1, t.start = 4 →
      t = ⟨4, .number .int "0x1e", 8⟩ := by
  have hmark : ('x', hexDigits) ∈ baseMarks := by decide
  have hliteral : NumberLiteral .int ['0', 'x', '1', 'e'] :=
    .int (.marked hmark (.plain (.cons (by decide) (.single (by decide)))))
  have hstops : Stops ['+', '2'] := by
    rintro _ ⟨⟩
    decide
  obtain ⟨hnext, hrun⟩ := run_numberLiteral hliteral hstops
  refine ⟨hliteral, hstops, ?_, fun t ht hstart => (hrun "v + ".toList t ht hstart).1⟩
  rw [hnext (Lexer.ofText "0x1e+2".toList) rfl]
  rfl

end GoDecls
