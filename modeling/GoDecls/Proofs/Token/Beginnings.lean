/-
  What begins a token of each kind: `scan_word`, `scan_number`, `scan_comment`,
  `scan_quoted` and `scan_punct` say what the piece at a character is, once it is
  known which of the scanners has something to say there.  No piece goes beyond the
  text (`IsPiece.le`).
-/
import GoDecls.Proofs.Token.Pieces
import GoDecls.Proofs.Token.Quoted

namespace GoDecls.Scan

variable {c : Char} {cs : List Char} {piece : Piece} {n : Nat}

/-! ## Blanks -/

/-! What is said of the characters of a list is decided by the list, not by going through
all characters there are. -/

section

variable {P : Char → Prop} [DecidablePred P]

instance (priority := high) decidableForallMem {cs : List Char} : Decidable (∀ c ∈ cs, P c) :=
  List.decidableBAll P cs

instance (priority := high) decidableExistsMem {cs : List Char} : Decidable (∃ c ∈ cs, P c) :=
  List.decidableBEx P cs

instance (priority := high) decidableForallOption {o : Option Char} :
    Decidable (∀ c ∈ o, P c) :=
  Option.decidableForallMem o

end

/-- The blanks and line ends. -/
def blanks : List Char := [' ', '\t', '\x0c', '\n', '\r']

theorem mem_blanks_of_isSpace (h : isSpace c = true) : c ∈ blanks := by
  simp only [isSpace, Bool.or_eq_true, beq_iff_eq] at h
  rcases h with (rfl | rfl) | rfl <;> decide

theorem mem_blanks_of_isLineEnd (h : isLineEnd c = true) : c ∈ blanks := by
  simp only [isLineEnd, Bool.or_eq_true, beq_iff_eq] at h
  rcases h with rfl | rfl <;> decide

/-- A class that holds no blank does not hold this one. -/
theorem eq_false_of_mem_blanks {P : Char → Bool} (hP : ∀ b ∈ blanks, P b = false)
    (h : P c = true) : c ∉ blanks := by
  intro hc
  rw [hP c hc] at h
  cases h

theorem isWordStart_blanks : ∀ b ∈ blanks, isWordStart b = false := by decide

theorem isNumberPart_blanks : ∀ b ∈ blanks, isNumberPart b = false := by decide

theorem isDigit_blanks : ∀ b ∈ blanks, b.isDigit = false := by decide

/-- The branches of the scanner for blanks are passed over. -/
theorem scan_of_not_mem_blanks (hc : c ∉ blanks) (hm : c ≠ orderMark) :
    scan c cs =
      if isWordStart c then (.word, (cs.takeWhile isWordPart).length)
      else if startsNumber c cs then (.number, numberExtent (isHex (c :: cs)) c cs)
      else
        let comment := if c = '/' then scanComment cs else none
        (comment.or (scanQuoted c cs)).or (scanPunct (c :: cs)) |>.getD (.stray, 0) := by
  have hspace : isSpace c = false := by
    by_contra h
    exact hc (mem_blanks_of_isSpace (by simpa using h))
  have hfeed : c ≠ '\n' := fun h => hc (by rw [h]; decide)
  have hreturn : c ≠ '\r' := fun h => hc (by rw [h]; decide)
  rw [scan, hspace, if_neg Bool.false_ne_true, if_neg hfeed, if_neg hreturn, if_neg hm]

/-! ## Tokens of each kind -/

theorem isLetter_orderMark : Text.isLetter orderMark = false := by
  rw [Text.isLetter, Text.classOf, Text.inRanges, ← Array.any_toList]
  decide +kernel

theorem scan_word (hc : isWordStart c = true) :
    scan c cs = (.word, (cs.takeWhile isWordPart).length) := by
  have hm : c ≠ orderMark := by
    rintro rfl
    rw [isWordStart, isLetter_orderMark] at hc
    cases hc
  rw [scan_of_not_mem_blanks (eq_false_of_mem_blanks isWordStart_blanks hc) hm, if_pos hc]

theorem not_isWordStart_of_isDigit (hc : c.isDigit = true) : isWordStart c = false := by
  have hd : 48 ≤ c.toNat ∧ c.toNat ≤ 57 := by
    simpa [Char.isDigit, UInt32.le_iff_toNat_le] using hc
  have halpha : c.isAlpha = false := by
    rw [Bool.eq_false_iff]
    intro h
    change (decide ('A'.val ≤ c.val ∧ c.val ≤ 'Z'.val) ||
      (decide ('a'.val ≤ c.val) && decide (c.val ≤ 'z'.val))) = true at h
    simp only [Bool.or_eq_true, Bool.and_eq_true, decide_eq_true_eq, UInt32.le_iff_toNat_le] at h
    change 65 ≤ c.toNat ∧ c.toNat ≤ 90 ∨ 97 ≤ c.toNat ∧ c.toNat ≤ 122 at h
    omega
  have hline : c ≠ '_' := by
    rintro rfl
    cases hc
  rw [isWordStart, Text.isLetter_of_lt (by omega), halpha]
  simpa using hline

/-- The characters with which a number begins. -/
theorem startsNumber_cases (h : startsNumber c cs = true) :
    c.isDigit = true ∨ c = '.' ∧ cs.head?.any Char.isDigit = true := by
  simpa [startsNumber] using h

theorem scan_number (h : startsNumber c cs = true) :
    scan c cs = (.number, numberExtent (isHex (c :: cs)) c cs) := by
  have hc : c ∉ blanks ∧ c ≠ orderMark ∧ isWordStart c = false := by
    rcases startsNumber_cases h with hd | ⟨rfl, -⟩
    · refine ⟨eq_false_of_mem_blanks isDigit_blanks hd, ?_, not_isWordStart_of_isDigit hd⟩
      rintro rfl
      cases hd
    · decide
  rw [scan_of_not_mem_blanks hc.1 hc.2.1, hc.2.2, if_neg Bool.false_ne_true, if_pos h]

theorem scan_comment {x : Piece × Nat} (h : scanComment cs = some x) : scan '/' cs = x := by
  have hn : startsNumber '/' cs = false := rfl
  have hword : isWordStart '/' = false := by decide
  rw [scan_of_not_mem_blanks (by decide) (by decide), hword, hn, if_neg Bool.false_ne_true,
    if_neg Bool.false_ne_true, if_pos rfl, h]
  rfl

/-- The character that a quoted literal begins with. -/
theorem scanQuoted_cases {x : Piece × Nat} (h : scanQuoted c cs = some x) :
    c = '"' ∨ c = '\'' ∨ c = backquote := by
  rw [scanQuoted] at h
  split at h
  · next hc => exact .inl hc
  split at h
  · next hc => exact .inr (.inl hc)
  split at h
  · next hc => exact .inr (.inr hc)
  · cases h

theorem scan_quoted {x : Piece × Nat} (h : scanQuoted c cs = some x) : scan c cs = x := by
  have hc : c ∉ blanks ∧ c ≠ orderMark ∧ isWordStart c = false ∧ c.isDigit = false ∧ c ≠ '.' ∧
      c ≠ '/' := by
    rcases scanQuoted_cases h with rfl | rfl | rfl <;> decide
  have hn : startsNumber c cs = false := by
    by_contra hn
    rcases startsNumber_cases (by simpa using hn) with hd | ⟨hd, -⟩
    · simp [hc.2.2.2.1] at hd
    · exact hc.2.2.2.2.1 hd
  rw [scan_of_not_mem_blanks hc.1 hc.2.1, hc.2.2.1, hn, if_neg Bool.false_ne_true,
    if_neg Bool.false_ne_true, if_neg hc.2.2.2.2.2, h]
  rfl

/-- The first character of an operator or delimiter begins nothing else but a
    number or a comment. -/
theorem punct_head (p : Punct) : ∃ d ds, p.text.toList = d :: ds ∧ d ∉ blanks ∧ d ≠ orderMark ∧
    isWordStart d = false ∧ d ≠ '"' ∧ d ≠ '\'' ∧ d ≠ backquote := by
  cases p <;> exact ⟨_, _, rfl, by decide⟩

theorem longest?_eq_some {p : Punct} (h : Punct.longest? cs = some p) : p.text.toList <+: cs := by
  simpa using List.find?_some h

theorem scan_punct {x : Piece × Nat} (hn : startsNumber c cs = false)
    (hcomment : c = '/' → scanComment cs = none) (h : scanPunct (c :: cs) = some x) :
    scan c cs = x := by
  obtain ⟨p, hp, -⟩ := Option.map_eq_some_iff.1 h
  obtain ⟨d, ds, hd, hblank, hmark, hword, h₁, h₂, h₃⟩ := punct_head p
  have hpre := longest?_eq_some hp
  rw [hd, List.cons_prefix_cons] at hpre
  obtain ⟨rfl, -⟩ := hpre
  have hcomment' : (if d = '/' then scanComment cs else none) = none := by
    split
    · next hslash => exact hcomment hslash
    · rfl
  have hquoted : scanQuoted d cs = none := by
    rw [scanQuoted, if_neg h₁, if_neg h₂, if_neg h₃]
  rw [scan_of_not_mem_blanks hblank hmark, hword, hn, if_neg Bool.false_ne_true,
    if_neg Bool.false_ne_true]
  simp only [hcomment', hquoted, h]
  rfl

/-! ## Pieces lie within the text -/

theorem numberExtent_le (hex : Bool) (prev : Char) (cs : List Char) :
    numberExtent hex prev cs ≤ cs.length := by
  fun_induction numberExtent hex prev cs with
  | case1 => exact Nat.le_refl 0
  | case2 prev c cs h ih => exact Nat.succ_le_succ ih
  | case3 => exact Nat.zero_le _

theorem closeExtent_le (h : closeExtent cs = some n) : n ≤ cs.length := by
  fun_induction closeExtent cs generalizing n with
  | case1 => cases h
  | case2 c cs hc =>
    cases h
    obtain ⟨ds, rfl⟩ := List.head?_eq_some_iff.1 hc.2
    simp
  | case3 c cs hc ih =>
    obtain ⟨m, hm, rfl⟩ := Option.map_eq_some_iff.1 h
    exact Nat.succ_le_succ (ih hm)

theorem scanComment_le (h : scanComment cs = some (piece, n)) : n ≤ cs.length := by
  unfold scanComment at h
  split at h
  · cases h
    exact Nat.succ_le_succ (List.takeWhile_prefix _).length_le
  · split at h
    · next hm =>
      cases h
      exact Nat.succ_le_succ (closeExtent_le hm)
    · cases h
      exact Nat.le_refl _
  · cases h

theorem length_lt_of_eq_append {body rest : List Char} (h : cs = body ++ c :: rest) :
    body.length + 1 ≤ cs.length := by
  rw [h, List.length_append, List.length_cons]
  omega

theorem quotedExtent_le (h : quotedExtent c cs = some n) : n ≤ cs.length := by
  obtain ⟨body, rest, hcs, rfl, -⟩ := exists_quotedBody h
  exact length_lt_of_eq_append hcs

theorem scanQuoted_le (h : scanQuoted c cs = some (piece, n)) : n ≤ cs.length := by
  rw [scanQuoted] at h
  split at h
  · obtain ⟨m, hm, hk⟩ := Option.map_eq_some_iff.1 h
    cases hk
    exact quotedExtent_le hm
  split at h
  · obtain ⟨m, hm, hk⟩ := Option.bind_eq_some_iff.1 h
    split at hk
    · cases hk
    · cases hk
      exact quotedExtent_le hm
  split at h
  · obtain ⟨m, hm, hk⟩ := Option.map_eq_some_iff.1 h
    cases hk
    obtain ⟨body, rest, hcs, rfl, -⟩ := rawExtent_eq_some_iff.1 hm
    exact length_lt_of_eq_append hcs
  · cases h

theorem scanPunct_le (h : scanPunct (c :: cs) = some (piece, n)) : n ≤ cs.length := by
  obtain ⟨p, hp, hk⟩ := Option.map_eq_some_iff.1 h
  cases hk
  have := (longest?_eq_some hp).length_le
  rw [String.length_toList, List.length_cons] at this
  omega

/-- A piece lies within the text. -/
theorem IsPiece.le (h : IsPiece c cs piece n) : n ≤ cs.length := by
  cases h with
  | blank => exact (List.takeWhile_prefix _).length_le
  | carriageReturn =>
    split
    · next h =>
      obtain ⟨ds, rfl⟩ := List.head?_eq_some_iff.1 h
      simp
    · exact Nat.zero_le _
  | word => exact (List.takeWhile_prefix _).length_le
  | number => exact numberExtent_le _ _ _
  | comment _ h => exact scanComment_le h
  | quoted h => exact scanQuoted_le h
  | punct h => exact scanPunct_le h
  | _ => exact Nat.zero_le _

end GoDecls.Scan
