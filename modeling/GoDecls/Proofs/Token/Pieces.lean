/-
  What the piece at a character can be (`scan_isPiece`), and which pieces hold
  line ends: none of blanks, line comments and byte order marks does, and a line
  end begins with one.  A word is a name (`IsName`).
-/
import Mathlib.Data.List.TakeWhile
import GoDecls.Token.Scan

namespace GoDecls.Scan

/-- The piece that begins with `c`, with `n` of the characters `cs` behind it. -/
inductive IsPiece (c : Char) (cs : List Char) : Piece → Nat → Prop where
  | blank (hc : isSpace c = true) : IsPiece c cs .blank (cs.takeWhile isSpace).length
  | lineFeed (hc : c = '\n') : IsPiece c cs .lineEnd 0
  | carriageReturn (hc : c = '\r') :
    IsPiece c cs .lineEnd (if cs.head? = some '\n' then 1 else 0)
  | orderMark (hc : c = orderMark) : IsPiece c cs .orderMark 0
  | word (hc : isWordStart c = true) : IsPiece c cs .word (cs.takeWhile isWordPart).length
  | number (hc : startsNumber c cs = true) :
    IsPiece c cs .number (numberExtent (isHex (c :: cs)) c cs)
  | comment {piece : Piece} {n : Nat} (hc : c = '/') (h : scanComment cs = some (piece, n)) :
    IsPiece c cs piece n
  | quoted {piece : Piece} {n : Nat} (h : scanQuoted c cs = some (piece, n)) : IsPiece c cs piece n
  | punct {piece : Piece} {n : Nat} (h : scanPunct (c :: cs) = some (piece, n)) :
    IsPiece c cs piece n
  | stray : IsPiece c cs .stray 0

variable {c d : Char} {cs : List Char} {piece : Piece} {n : Nat}

/-- **The scanner gives one of these pieces.** -/
theorem scan_isPiece (c : Char) (cs : List Char) : IsPiece c cs (scan c cs).1 (scan c cs).2 := by
  rw [scan]
  split
  · next h => exact .blank h
  split
  · next h => exact .lineFeed h
  split
  · next h => exact .carriageReturn h
  split
  · next h => exact .orderMark h
  split
  · next h => exact .word h
  split
  · next h => exact .number h
  cases hcomment : (if c = '/' then scanComment cs else none) with
  | some x =>
    by_cases hc : c = '/'
    · rw [if_pos hc] at hcomment
      exact .comment hc hcomment
    · rw [if_neg hc] at hcomment
      cases hcomment
  | none =>
    cases hquoted : scanQuoted c cs with
    | some x => exact .quoted hquoted
    | none =>
      cases hpunct : scanPunct (c :: cs) with
      | some x => exact .punct hpunct
      | none => exact .stray

/-! ## Line ends -/

/-- A piece that is no token and does not end a line. -/
def isWithinLine : Piece → Bool
  | .blank | .orderMark | .lineComment => true
  | _ => false

theorem scanQuoted_kind (h : scanQuoted c cs = some (piece, n)) :
    piece = .string ∨ piece = .rune ∨ piece = .rawString := by
  rw [scanQuoted] at h
  split at h
  · obtain ⟨_, -, h⟩ := Option.map_eq_some_iff.1 h
    exact .inl (Prod.mk.inj h).1.symm
  split at h
  · obtain ⟨k, -, h⟩ := Option.bind_eq_some_iff.1 h
    split at h
    · cases h
    · exact .inr (.inl (Prod.mk.inj (Option.some.inj h)).1.symm)
  split at h
  · obtain ⟨_, -, h⟩ := Option.map_eq_some_iff.1 h
    exact .inr (.inr (Prod.mk.inj h).1.symm)
  · cases h

theorem scanPunct_kind (h : scanPunct cs = some (piece, n)) : ∃ p, piece = .punct p := by
  obtain ⟨p, -, h⟩ := Option.map_eq_some_iff.1 h
  exact ⟨p, (Prod.mk.inj h).1.symm⟩

theorem scanComment_kind (h : scanComment cs = some (piece, n)) :
    (piece = .lineComment ∧ ∃ ds, cs = '/' :: ds ∧ n = (ds.takeWhile (!isLineEnd ·)).length + 1) ∨
      ∃ closed, piece = .blockComment closed := by
  unfold scanComment at h
  split at h
  · next ds =>
    cases h
    exact .inl ⟨rfl, ds, rfl, rfl⟩
  · split at h <;> cases h <;> exact .inr ⟨_, rfl⟩
  · cases h

theorem not_isLineEnd_of_isSpace (h : isSpace c = true) : isLineEnd c = false := by
  simp only [isSpace, Bool.or_eq_true, beq_iff_eq] at h
  rcases h with (rfl | rfl) | rfl <;> rfl

theorem not_isSpace_of_isLineEnd (h : isLineEnd c = true) : isSpace c = false :=
  Bool.eq_false_iff.2 fun hspace => by
    rw [not_isLineEnd_of_isSpace hspace] at h
    cases h

/-- No line end is within a line. -/
theorem IsPiece.not_isLineEnd (h : IsPiece c cs piece n) (hw : isWithinLine piece = true) :
    ∀ d ∈ c :: cs.take n, isLineEnd d = false := by
  cases h with
  | blank hc =>
    intro d hd
    rw [← List.prefix_iff_eq_take.1 (List.takeWhile_prefix _)] at hd
    rcases List.mem_cons.1 hd with rfl | hd
    · exact not_isLineEnd_of_isSpace hc
    · exact not_isLineEnd_of_isSpace (List.mem_takeWhile_imp hd)
  | orderMark hc =>
    intro d hd
    rw [List.mem_singleton.1 hd, hc]
    rfl
  | comment hc h =>
    rcases scanComment_kind h with ⟨rfl, ds, rfl, rfl⟩ | ⟨_, rfl⟩
    · intro d hd
      rw [List.take_succ_cons, ← List.prefix_iff_eq_take.1 (List.takeWhile_prefix _)] at hd
      rcases List.mem_cons.1 hd with rfl | hd
      · rw [hc]; rfl
      rcases List.mem_cons.1 hd with rfl | hd
      · rfl
      · simpa using List.mem_takeWhile_imp hd
    · cases hw
  | quoted h => rcases scanQuoted_kind h with rfl | rfl | rfl <;> cases hw
  | punct h =>
    obtain ⟨p, rfl⟩ := scanPunct_kind h
    cases hw
  | _ => cases hw

/-- A line end begins with a character that is one. -/
theorem IsPiece.isLineEnd (h : IsPiece c cs .lineEnd n) : isLineEnd c = true := by
  cases h with
  | lineFeed hc => rw [hc]; rfl
  | carriageReturn hc => rw [hc]; rfl
  | comment _ h => rcases scanComment_kind h with ⟨h, -⟩ | ⟨_, h⟩ <;> cases h
  | quoted h => rcases scanQuoted_kind h with h | h | h <;> cases h
  | punct h =>
    obtain ⟨_, h⟩ := scanPunct_kind h
    cases h

/-! ## Names -/

/-- The characters are spelled as a name. -/
def IsName (cs : List Char) : Prop :=
  ∃ d ds, cs = d :: ds ∧ isWordStart d = true ∧ ∀ e ∈ ds, isWordPart e = true

/-- A word is a name. -/
theorem IsPiece.isName (h : IsPiece c cs .word n) : IsName (c :: cs.take n) := by
  cases h with
  | word hc =>
    refine ⟨c, _, rfl, hc, fun e he => ?_⟩
    rw [← List.prefix_iff_eq_take.1 (List.takeWhile_prefix _)] at he
    exact List.mem_takeWhile_imp he
  | comment _ h => rcases scanComment_kind h with ⟨h, -⟩ | ⟨_, h⟩ <;> cases h
  | quoted h => rcases scanQuoted_kind h with h | h | h <;> cases h
  | punct h =>
    obtain ⟨_, h⟩ := scanPunct_kind h
    cases h

/-! ## Gaps -/

/-- A piece that is no token, comment or stray character. -/
def isGap : Piece → Bool
  | .blank | .lineEnd | .orderMark => true
  | _ => false

theorem mem_blank (h : d ∈ c :: cs.take (cs.takeWhile isSpace).length) (hc : isSpace c = true) :
    isSpace d = true := by
  rw [← List.prefix_iff_eq_take.1 (List.takeWhile_prefix _)] at h
  rcases List.mem_cons.1 h with rfl | h
  · exact hc
  · exact List.mem_takeWhile_imp h

/-- The characters of a gap are blanks, or line ends, or it is a byte order mark. -/
theorem IsPiece.gap_cases (h : IsPiece c cs piece n) (hgap : isGap piece = true) :
    (piece = .blank ∧ ∀ d ∈ c :: cs.take n, isSpace d = true) ∨
    (piece = .lineEnd ∧ ∀ d ∈ c :: cs.take n, Scan.isLineEnd d = true) ∨
    (piece = .orderMark ∧ c = Scan.orderMark ∧ n = 0) := by
  cases h with
  | blank hc => exact .inl ⟨rfl, fun d hd => mem_blank hd hc⟩
  | lineFeed hc =>
    refine .inr (.inl ⟨rfl, fun d hd => ?_⟩)
    rw [List.mem_singleton.1 hd, hc]
    rfl
  | carriageReturn hc =>
    refine .inr (.inl ⟨rfl, fun d hd => ?_⟩)
    subst hc
    split at hd
    · next hfeed =>
      obtain ⟨ds, rfl⟩ := List.head?_eq_some_iff.1 hfeed
      rcases List.mem_cons.1 hd with rfl | hd
      · rfl
      · rw [List.mem_singleton.1 hd]
        rfl
    · rw [List.mem_singleton.1 hd]
      rfl
  | orderMark hc => exact .inr (.inr ⟨rfl, hc, rfl⟩)
  | comment _ h => rcases scanComment_kind h with ⟨rfl, -⟩ | ⟨_, rfl⟩ <;> cases hgap
  | quoted h => rcases scanQuoted_kind h with rfl | rfl | rfl <;> cases hgap
  | punct h =>
    obtain ⟨_, rfl⟩ := scanPunct_kind h
    cases hgap
  | _ => cases hgap

end GoDecls.Scan
