/-
  Lines and tokens of a layout.

  * `Layout.countP_lineFeedsFrom`: the line of a place is the number of line feeds
    before it, and so a later place is on no earlier line (`Layout.line_mono`);
  * `Layout.TokenWithin l a b`: a token begins between two positions;
  * `Layout.TrailsToken l p`: the token before a position ends on its line.
-/
import GoDecls.Comment.Layout
import Mathlib.Data.List.Pairwise

namespace GoDecls.Layout

open Text

variable {l : Layout} {a b p q : Nat}

/-! ## Lines -/

theorem le_of_mem_lineFeedsFrom {cs : List Char} {pos q : Nat}
    (h : q ∈ Layout.lineFeedsFrom pos cs) : pos ≤ q := by
  induction cs generalizing pos with
  | nil => cases h
  | cons c cs ih =>
    unfold lineFeedsFrom at h
    split at h
    · rcases List.mem_cons.1 h with rfl | h
      · exact Nat.le_refl _
      · exact Nat.le_trans (Nat.le_add_right _ _) (ih h)
    · exact Nat.le_trans (Nat.le_add_right _ _) (ih h)

/-- The line of a place is the number of line feeds before it. -/
theorem countP_lineFeedsFrom (pos : Nat) (front back : List Char) :
    (Layout.lineFeedsFrom pos (front ++ back)).countP (· < pos + byteLength front) =
      front.count '\n' := by
  induction front generalizing pos with
  | nil =>
    rw [byteLength_nil, List.count_nil, List.countP_eq_zero]
    intro q hq hlt
    have := le_of_mem_lineFeedsFrom hq
    simp at hlt
    omega
  | cons c front ih =>
    have hmore := ih (pos + c.utf8Size)
    rw [Nat.add_assoc] at hmore
    have hsize := Char.utf8Size_pos c
    rw [List.cons_append, lineFeedsFrom, byteLength_cons]
    split
    · next hc =>
      rw [List.countP_cons_of_pos (by simp; omega), hmore, hc, List.count_cons_self]
    · next hc => rw [hmore, List.count_cons_of_ne hc]

theorem line_mono (l : Layout) (h : a ≤ b) : l.line a ≤ l.line b := by
  refine List.countP_mono_left fun q _ hq => ?_
  simp only [decide_eq_true_eq] at hq ⊢
  omega

theorem lt_of_line_lt (h : l.line a < l.line b) : a < b := by
  by_contra hle
  have := l.line_mono (Nat.le_of_not_lt hle)
  omega

/-! ## Tokens -/

/-- A token begins at `a` or behind, and before `b`. -/
def TokenWithin (l : Layout) (a b : Nat) : Prop := ∃ t ∈ l.tokens, a ≤ t.start ∧ t.start < b

theorem tokenBetween_iff : l.tokenBetween a b = true ↔ l.TokenWithin a b := by
  simp [tokenBetween, TokenWithin]

theorem tokenBetween_eq_false_iff : l.tokenBetween a b = false ↔ ¬ l.TokenWithin a b := by
  rw [← tokenBetween_iff, Bool.not_eq_true]

theorem TokenWithin.mono (h : l.TokenWithin a b) (ha : p ≤ a) (hb : b ≤ q) : l.TokenWithin p q := by
  obtain ⟨t, ht, hstart, hstop⟩ := h
  exact ⟨t, ht, Nat.le_trans ha hstart, Nat.lt_of_lt_of_le hstop hb⟩

/-- What is between two positions is before or behind a third. -/
theorem TokenWithin.split (h : l.TokenWithin a b) (p : Nat) :
    l.TokenWithin a p ∨ l.TokenWithin p b := by
  obtain ⟨t, ht, hstart, hstop⟩ := h
  rcases Nat.lt_or_ge t.start p with hp | hp
  · exact .inl ⟨t, ht, hstart, hp⟩
  · exact .inr ⟨t, ht, hp, hstop⟩

/-- The last token that begins before the position ends on its line. -/
def TrailsToken (l : Layout) (p : Nat) : Prop :=
  ∃ t ∈ l.tokens, t.start < p ∧ ¬ l.TokenWithin t.stop p ∧ l.line t.stop = l.line p

/-- The tokens stand one behind the other. -/
structure TokensInOrder (l : Layout) : Prop where
  ordered : l.tokens.Pairwise (·.stop ≤ ·.start)
  extent : ∀ t ∈ l.tokens, t.start < t.stop

theorem TokensInOrder.apart (hl : l.TokensInOrder) {t u : Span} (ht : t ∈ l.tokens)
    (hu : u ∈ l.tokens) : t = u ∨ t.stop ≤ u.start ∨ u.stop ≤ t.start := by
  refine List.Pairwise.forall_of_forall_of_flip
    (R := fun t u => t = u ∨ t.stop ≤ u.start ∨ u.stop ≤ t.start)
    (fun _ _ => .inl rfl) (hl.ordered.imp ?_) (hl.ordered.imp ?_) ht hu
  · exact fun h => .inr (.inl h)
  · exact fun h => .inr (.inr h)

theorem TokensInOrder.tokenEndBefore?_eq_some_iff (hl : l.TokensInOrder) :
    l.tokenEndBefore? p = some q ↔
      ∃ t ∈ l.tokens, t.start < p ∧ ¬ l.TokenWithin t.stop p ∧ t.stop = q := by
  have hordered := hl.ordered.filter (·.start < p)
  have hmem (t : Span) : t ∈ l.tokens.filter (·.start < p) ↔ t ∈ l.tokens ∧ t.start < p := by
    simp
  unfold tokenEndBefore?
  rw [Option.map_eq_some_iff]
  constructor
  · rintro ⟨t, hlast, rfl⟩
    obtain ⟨ts, hts⟩ := List.getLast?_eq_some_iff.1 hlast
    have ht := (hmem t).1 (hts ▸ List.mem_append_right _ List.mem_cons_self)
    refine ⟨t, ht.1, ht.2, ?_, rfl⟩
    rintro ⟨u, hu, hstop, hp⟩
    -- a token that begins behind `t` is no later in the list, so it ends before `t`
    have hlt := hl.extent t ht.1
    have hlt' := hl.extent u hu
    have hu' := (hmem u).2 ⟨hu, hp⟩
    rw [hts] at hu' hordered
    rcases List.mem_append.1 hu' with hu' | hu'
    · have := (List.pairwise_append.1 hordered).2.2 u hu' t List.mem_cons_self
      omega
    · obtain rfl := List.mem_singleton.1 hu'
      omega
  · rintro ⟨t, ht, hp, hnone, rfl⟩
    have ht' := (hmem t).2 ⟨ht, hp⟩
    have hne := List.ne_nil_of_mem ht'
    refine ⟨_, List.getLast?_eq_some_getLast hne, ?_⟩
    have hts := List.dropLast_concat_getLast hne
    have hlast := (hmem _).1 (List.getLast_mem hne)
    generalize (l.tokens.filter (·.start < p)).getLast hne = u at hts hlast
    rw [← hts] at ht' hordered
    rcases List.mem_append.1 ht' with ht' | ht'
    · have := (List.pairwise_append.1 hordered).2.2 t ht' u List.mem_cons_self
      exact absurd ⟨u, hlast.1, this, hlast.2⟩ hnone
    · rw [List.mem_singleton.1 ht']

theorem TokensInOrder.trails_iff (hl : l.TokensInOrder) : l.trails p = true ↔ l.TrailsToken p := by
  unfold trails TrailsToken
  rw [Option.any_eq_true]
  constructor
  · rintro ⟨q, hq, hline⟩
    obtain ⟨t, ht, hp, hnone, rfl⟩ := hl.tokenEndBefore?_eq_some_iff.1 hq
    exact ⟨t, ht, hp, hnone, beq_iff_eq.1 hline⟩
  · rintro ⟨t, ht, hp, hnone, hline⟩
    exact ⟨t.stop, hl.tokenEndBefore?_eq_some_iff.2 ⟨t, ht, hp, hnone, rfl⟩, beq_iff_eq.2 hline⟩

end GoDecls.Layout
