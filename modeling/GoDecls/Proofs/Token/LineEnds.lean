/-
  Line ends of a text by their byte offsets.

  `LineEndAt text p` says that a character that ends a line stands at byte `p`.
  Line ends of a part are those of the whole at the same place
  (`lineEndAt_append_left`, `lineEndAt_append_right`), and `lineEndOffset?` finds
  the first one.
-/
import GoDecls.Token.Lexer

namespace GoDecls

open Scan Text

variable {text cs front back : List Char} {c : Char} {n m p q : Nat}

/-- A line ends at this byte of the text. -/
def LineEndAt (text : List Char) (p : Nat) : Prop :=
  ∃ front c back, text = front ++ c :: back ∧ byteLength front = p ∧ isLineEnd c = true

/-- The first line end from byte `n` on. -/
structure FirstLineEnd (text : List Char) (n p : Nat) : Prop where
  le : n ≤ p
  isLineEnd : LineEndAt text p
  first : ∀ q, n ≤ q → LineEndAt text q → p ≤ q

/-- A line ends from byte `n` on, before byte `m`. -/
def LineEndWithin (text : List Char) (n m : Nat) : Prop := ∃ p, n ≤ p ∧ p < m ∧ LineEndAt text p

/-- No line ends from byte `n` on. -/
def LastLine (text : List Char) (n : Nat) : Prop := ∀ q, n ≤ q → ¬ LineEndAt text q

theorem lineEndAt_nil : ¬ LineEndAt [] p := by
  rintro ⟨front, c, back, h, -⟩
  cases front <;> cases h

theorem lineEndAt_cons : LineEndAt (c :: cs) p ↔
    (p = 0 ∧ isLineEnd c = true) ∨ ∃ q, p = c.utf8Size + q ∧ LineEndAt cs q := by
  constructor
  · rintro ⟨front, d, back, h, rfl, hd⟩
    cases front with
    | nil =>
      cases h
      exact .inl ⟨rfl, hd⟩
    | cons e front =>
      cases h
      exact .inr ⟨_, rfl, front, d, back, rfl, rfl, hd⟩
  · rintro (⟨rfl, hc⟩ | ⟨q, rfl, front, d, back, rfl, rfl, hd⟩)
    · exact ⟨[], c, cs, rfl, rfl, hc⟩
    · exact ⟨c :: front, d, back, rfl, rfl, hd⟩

/-- Line ends behind a part are those of what follows. -/
theorem lineEndAt_append_right : ∀ (front : List Char),
    LineEndAt (front ++ cs) (byteLength front + p) ↔ LineEndAt cs p
  | [] => by rw [List.nil_append, byteLength_nil, Nat.zero_add]
  | c :: front => by
    have hc := Char.utf8Size_pos c
    rw [List.cons_append, lineEndAt_cons, byteLength_cons, ← lineEndAt_append_right front]
    constructor
    · rintro (⟨h, -⟩ | ⟨q, hq, h⟩)
      · omega
      · obtain rfl : q = byteLength front + p := by omega
        exact h
    · exact fun h => .inr ⟨_, Nat.add_assoc _ _ _, h⟩

/-- Line ends within a part are those of the part. -/
theorem lineEndAt_append_left : ∀ {cs : List Char} {p : Nat}, p < byteLength cs →
    (LineEndAt (cs ++ back) p ↔ LineEndAt cs p)
  | [], p, h => absurd h (Nat.not_lt_zero p)
  | c :: cs, p, h => by
    rw [List.cons_append, lineEndAt_cons, lineEndAt_cons]
    refine or_congr Iff.rfl (exists_congr fun q => and_congr_right fun hq => ?_)
    rw [byteLength_cons] at h
    exact lineEndAt_append_left (by omega)

/-- Line ends of a middle part. -/
theorem lineEndAt_middle {piece : List Char} (h : p < byteLength piece) :
    LineEndAt (front ++ (piece ++ back)) (byteLength front + p) ↔ LineEndAt piece p :=
  (lineEndAt_append_right front).trans (lineEndAt_append_left h)

theorem not_lineEndAt_of_forall (h : ∀ d ∈ cs, isLineEnd d = false) : ¬ LineEndAt cs p := by
  rintro ⟨front, d, back, rfl, -, hd⟩
  rw [h d (by simp)] at hd
  cases hd

/-- A line ends within the text. -/
theorem LineEndAt.lt (h : LineEndAt cs p) : p < byteLength cs := by
  obtain ⟨front, d, back, rfl, rfl, -⟩ := h
  have hd := Char.utf8Size_pos d
  rw [byteLength_append, byteLength_cons]
  omega

/-- No line ends within a middle part that has no line end. -/
theorem not_lineEndWithin_middle {piece : List Char} (h : ∀ p, ¬ LineEndAt piece p) :
    ¬ LineEndWithin (front ++ (piece ++ back)) (byteLength front)
      (byteLength front + byteLength piece) := by
  rintro ⟨q, hq, hlt, hat⟩
  obtain ⟨k, rfl⟩ := Nat.exists_eq_add_of_le hq
  exact h k ((lineEndAt_middle (Nat.lt_of_add_lt_add_left hlt)).1 hat)

/-- The first line end of a middle part is the first one from there on. -/
theorem FirstLineEnd.middle {piece : List Char} {k : Nat} (h : FirstLineEnd piece 0 k) :
    FirstLineEnd (front ++ (piece ++ back)) (byteLength front) (byteLength front + k) := by
  have hk := h.isLineEnd.lt
  refine ⟨Nat.le_add_right _ _, (lineEndAt_middle hk).2 h.isLineEnd, fun q hq hat => ?_⟩
  obtain ⟨k', rfl⟩ := Nat.exists_eq_add_of_le hq
  by_cases hk' : k' < byteLength piece
  · exact Nat.add_le_add_left (h.first k' (Nat.zero_le _) ((lineEndAt_middle hk').1 hat)) _
  · omega

namespace Lexer

/-- The offset of the first line end is what it says. -/
theorem lineEndOffset?_cons (c : Char) (cs : List Char) : lineEndOffset? (c :: cs) =
    if isLineEnd c then some 0 else (lineEndOffset? cs).map (c.utf8Size + ·) := by
  rw [lineEndOffset?, List.findIdx?_cons]
  split
  · rfl
  · simp [lineEndOffset?, Function.comp_def]

theorem lineEndOffset?_eq_none : ∀ {cs : List Char}, lineEndOffset? cs = none →
    ∀ p, ¬ LineEndAt cs p
  | [], _, _ => lineEndAt_nil
  | c :: cs, h, p => by
    rw [lineEndOffset?_cons] at h
    split at h
    · cases h
    · next hc =>
      rw [lineEndAt_cons]
      rintro (⟨-, hc'⟩ | ⟨q, -, hq⟩)
      · exact hc hc'
      · exact lineEndOffset?_eq_none (Option.map_eq_none_iff.1 h) q hq

theorem lineEndOffset?_eq_some : ∀ {cs : List Char} {k : Nat}, lineEndOffset? cs = some k →
    FirstLineEnd cs 0 k
  | [], _, h => by cases h
  | c :: cs, k, h => by
    rw [lineEndOffset?_cons] at h
    split at h
    · next hc =>
      cases h
      exact ⟨Nat.le_refl 0, lineEndAt_cons.2 (.inl ⟨rfl, hc⟩), fun q hq _ => hq⟩
    · next hc =>
      obtain ⟨k', hk, rfl⟩ := Option.map_eq_some_iff.1 h
      have ih := lineEndOffset?_eq_some hk
      refine ⟨Nat.zero_le _, lineEndAt_cons.2 (.inr ⟨k', rfl, ih.isLineEnd⟩), fun q _ hq => ?_⟩
      rcases lineEndAt_cons.1 hq with ⟨-, hc'⟩ | ⟨q', rfl, hq'⟩
      · exact absurd hc' hc
      · exact Nat.add_le_add_left (ih.first q' (Nat.zero_le _) hq') _

end Lexer

end GoDecls
