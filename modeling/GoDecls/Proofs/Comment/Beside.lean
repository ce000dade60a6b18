/-
  What stands between a token and the group of comments beside it.

  * `Layout.Annotates.start_le`: the group is the first behind the token, so no comment
    begins between the two;
  * `Layout.Annotates.exists_gap`: nothing but blanks stands there and carriage returns,
    which end a line for the lexer and not for the lines of a layout;
  * `mem_of_inserted`: so a semicolon that is inserted there is due to one.
-/
import GoDecls.Proofs.Comment.Attached

namespace GoDecls

open Text Scan

variable {text : List Char} {g h : CommentGroup} {c d : Comment} {t : Span}

namespace Layout

variable {l : Layout} {cs : List Comment}

/-- The comments of a group stand within it. -/
theorem Grouped.within (hgroups : l.Grouped cs) (hl : l.CommentsInOrder cs) (hg : g ∈ l.groups)
    (hc : c ∈ g.comments) : g.span.start ≤ c.span.start ∧ c.span.stop ≤ g.span.stop := by
  obtain ⟨first, last, hfirst, hlast, hspan⟩ := hgroups.span g hg
  have hordered := (List.pairwise_flatMap.1 (hgroups.all ▸ hl.comments)).1 g hg
  have hle : ∀ d ∈ g.comments, d.span.start ≤ d.span.stop := fun d hd =>
    hl.le d (hgroups.all ▸ List.mem_flatMap.2 ⟨g, hg, hd⟩)
  rw [hspan]
  constructor
  · obtain ⟨more, hmore⟩ := List.head?_eq_some_iff.1 hfirst
    have hstart := hle first (List.mem_of_head? hfirst)
    rw [hmore] at hc hordered
    obtain rfl | hbehind := List.mem_cons.1 hc
    · exact Nat.le_refl _
    · exact Nat.le_trans hstart ((List.pairwise_cons.1 hordered).1 c hbehind)
  · obtain ⟨more, hmore⟩ := List.getLast?_eq_some_iff.1 hlast
    have hstop := hle last (List.mem_of_getLast? hlast)
    rw [hmore] at hc hordered
    obtain hbefore | hsame := List.mem_append.1 hc
    · have hbetween := (List.pairwise_append.1 hordered).2.2 c hbefore last List.mem_cons_self
      exact Nat.le_trans hbetween hstop
    · rw [List.mem_singleton.1 hsame]

end Layout

/-! ## In the layout of a text -/

/-- The part of a text between two boundaries. -/
theorem exists_between {a b : Nat} (ha : IsBoundary text a) (hb : IsBoundary text b) (hab : a ≤ b) :
    ∃ front gap back, text = front ++ (gap ++ back) ∧ byteLength front = a ∧
      byteLength (front ++ gap) = b := by
  obtain ⟨front, back, rfl, rfl⟩ := ha
  obtain ⟨front', back', htext, rfl⟩ := hb
  obtain ⟨mid, rfl, rfl⟩ | ⟨mid, rfl, rfl⟩ := List.append_eq_append_iff.1 htext
  · exact ⟨front, mid, back', rfl, rfl, rfl⟩
  · rw [byteLength_append] at hab
    refine ⟨front' ++ mid, [], back, rfl, rfl, ?_⟩
    rw [List.append_nil, byteLength_append]
    omega

section

variable (hlimit : byteLength text ≤ Span.limit)
  (hlex : (Lexer.ofText text).run.2.diagnostics = [])

include hlimit in
/-- In a text that is not too long for its spans, the comments are segments. -/
theorem mem_comments_iff : c ∈ (Lexer.ofText text).run.2.comments ↔
    ∃ s ∈ segments 0 text, s.comment? = some c.kind ∧ c.span = ⟨s.start, s.stop⟩ := by
  have hspan : ∀ s ∈ segments 0 text, Span.ofOffsets s.start s.stop = ⟨s.start, s.stop⟩ := by
    intro s hs
    have hstretch := stretch_segment hs
    have hstop := Nat.le_trans hstretch.stop_le hlimit
    exact Span.ofOffsets_of_le (Nat.le_trans (Nat.le_of_lt hstretch.start_lt) hstop) hstop
  rw [mem_comments_of_run]
  constructor
  · rintro ⟨s, hs, k, hk, rfl⟩
    exact ⟨s, hs, hk, hspan s hs⟩
  · rintro ⟨s, hs, hk, hc⟩
    exact ⟨s, hs, c.kind, hk, by rw [hspan s hs, ← hc]⟩

namespace Layout

include hlimit hlex in
/-- A token and a comment stand apart. -/
theorem token_apart_comment
    (ht : t ∈ (Layout.of text (Lexer.ofText text).run.1 (Lexer.ofText text).run.2.comments).tokens)
    (hc : c ∈ (Lexer.ofText text).run.2.comments) :
    t.stop ≤ c.span.start ∨ c.span.stop ≤ t.start := by
  obtain ⟨s, hs, hk, hspan⟩ := (mem_comments_iff hlimit).1 hc
  obtain ⟨s', hs', hsome, rfl⟩ := mem_tokens_of_run.1 ht
  rw [hspan]
  obtain rfl | hapart := segments_apart hs' hs
  · rw [token?_eq_none_of_comment? hk (fault?_eq_none_of_run hlex hs)] at hsome
    cases hsome
  · exact hapart

variable
  (hg : g ∈ (Layout.of text (Lexer.ofText text).run.1 (Lexer.ofText text).run.2.comments).groups)
  (ht : t ∈ (Layout.of text (Lexer.ofText text).run.1 (Lexer.ofText text).run.2.comments).tokens)
  (hbeside : (Layout.of text (Lexer.ofText text).run.1
    (Lexer.ofText text).run.2.comments).Annotates g t.stop)

include hlimit hlex hg ht hbeside

/-- **No comment begins between a token and the group beside it.** -/
theorem Annotates.start_le (hc : c ∈ (Lexer.ofText text).run.2.comments)
    (hbehind : t.stop ≤ c.span.start) : g.span.start ≤ c.span.start := by
  have hl := commentsInOrder_run hlex
  have hgroups := grouped_layout hlex
  have hparted := parted_group hl
  rw [← groups_of] at hparted
  obtain ⟨h, hh, hmem⟩ := List.mem_flatMap.1 (hgroups.all.symm ▸ hc)
  have hwithin := hgroups.within hl hh hmem
  obtain ⟨gs, gs', hsplit⟩ := List.append_of_mem hg
  have hordered := hgroups.ordered
  rw [hsplit] at hh hordered
  obtain hbefore | hlater := List.mem_append.1 hh
  · -- the group would reach over the token, which is not in it
    exfalso
    have hlt := hbeside.lt_of_before hparted hgroups hsplit h hbefore
    have hh := hsplit ▸ List.mem_append_left _ hbefore
    obtain ⟨first, last, hfirst, -, hspan⟩ := hgroups.span h hh
    have hfirst' := List.mem_of_head? hfirst
    have hstart : h.span.start = first.span.start := by rw [hspan]
    have hcomment := hgroups.all ▸ List.mem_flatMap.2 ⟨h, hh, hfirst'⟩
    have hle := hl.le first hcomment
    have hle' := hl.le c hc
    have hextent := hl.extent t ht
    have hapart := token_apart_comment hlimit hlex ht hcomment
    exact hgroups.clear h hh ⟨t, ht, by omega, by omega⟩
  · obtain rfl | hafter := List.mem_cons.1 hlater
    · exact hwithin.1
    · have hnext := (List.pairwise_cons.1 (List.pairwise_append.1 hordered).2.1).1 h hafter
      exact Nat.le_trans (hgroups.le g hg) (Nat.le_trans hnext hwithin.1)

/-- What stands between a token and the group beside it is a blank or a line end. -/
theorem Annotates.mem_blanks {front back : List Char} {b : Char} (htext : text = front ++ b :: back)
    (hlo : t.stop ≤ byteLength front) (hhi : byteLength front < g.span.start) : b ∈ blanks := by
  have hl := commentsInOrder_run hlex
  have hextent := hl.extent t ht
  obtain ⟨s, hs, hstart, hstop, hkind⟩ | hblank | ⟨rfl, -⟩ := exists_segment_or_gap htext
  · have hsize := Char.utf8Size_pos b
    exfalso
    obtain ⟨u, hu⟩ | ⟨k, hk⟩ := hkind
    · have hs' : ⟨s.start, s.stop⟩ ∈ (Layout.of text (Lexer.ofText text).run.1
          (Lexer.ofText text).run.2.comments).tokens :=
        mem_tokens_of_run.2 ⟨s, hs, by rw [hu]; rfl, rfl⟩
      obtain rfl | hbehind | hbefore := hl.toTokensInOrder.apart ht hs'
      · simp only at hlo
        omega
      · exact hbeside.adjacent ⟨_, hs', hbehind, by simp only; omega⟩
      · simp only at hbefore
        omega
    · have hc : ⟨k, s.start, s.stop⟩ ∈ (Lexer.ofText text).run.2.comments :=
        (mem_comments_iff hlimit).2 ⟨s, hs, hk, rfl⟩
      have hapart := token_apart_comment hlimit hlex ht hc
      have hfirst := hbeside.start_le hlimit hlex hg ht hc
      simp only at hapart hfirst
      omega
  · exact hblank
  · rw [byteLength_nil] at hlo
    omega

/-- **Only blanks and carriage returns stand between a token and the group beside it.** -/
theorem Annotates.exists_gap : ∃ front gap back, text = front ++ (gap ++ back) ∧
    byteLength front = t.stop ∧ byteLength (front ++ gap) = g.span.start ∧
    ∀ b ∈ gap, isSpace b = true ∨ b = '\r' := by
  have hgroups := grouped_layout hlex
  have hstop : IsBoundary text t.stop := by
    obtain ⟨s, hs, -, rfl⟩ := mem_tokens_of_run.1 ht
    exact (boundary_segment hs).2
  have hstart : IsBoundary text g.span.start := by
    obtain ⟨first, last, hfirst, -, hspan⟩ := hgroups.span g hg
    have hcomment := hgroups.all ▸ List.mem_flatMap.2 ⟨g, hg, List.mem_of_head? hfirst⟩
    obtain ⟨s, hs, -, hc⟩ := (mem_comments_iff hlimit).1 hcomment
    rw [hspan, hc]
    exact (boundary_segment hs).1
  obtain ⟨front, gap, back, htext, hfront, hgap⟩ := exists_between hstop hstart hbeside.behind
  refine ⟨front, gap, back, htext, hfront, hgap, fun b hb => ?_⟩
  -- the group begins on the line where the token ends
  have hfeeds : gap.count '\n' = 0 := by
    have hsame := hbeside.beside
    rw [← hgap, ← hfront, line_layout htext,
      line_layout (htext.trans (List.append_assoc front gap back).symm), List.count_append] at hsame
    omega
  obtain ⟨xs, ys, hsplit⟩ := List.append_of_mem hb
  have htext' : text = (front ++ xs) ++ b :: (ys ++ back) := by
    rw [htext, hsplit]
    simp
  have hblank : b ∈ blanks := by
    refine hbeside.mem_blanks hlimit hlex hg ht htext' ?_ ?_
    · rw [byteLength_append]
      omega
    · have hsize := Char.utf8Size_pos b
      rw [← hgap, hsplit]
      simp only [byteLength_append, byteLength_cons]
      omega
  have hfeed : b ≠ '\n' := fun h => List.count_eq_zero.1 hfeeds (h ▸ hb)
  simp only [blanks, List.mem_cons, List.not_mem_nil, or_false] at hblank
  obtain rfl | rfl | rfl | rfl | rfl := hblank
  · exact .inl rfl
  · exact .inl rfl
  · exact .inl rfl
  · exact absurd rfl hfeed
  · exact .inr rfl

end Layout

end

/-- Among blanks and carriage returns, a semicolon is inserted at a carriage return. -/
theorem mem_of_inserted {front gap back : List Char} (htext : text = front ++ (gap ++ back))
    (hgap : ∀ b ∈ gap, isSpace b = true ∨ b = '\r') {q : Lexeme}
    (hq : q ∈ (Lexer.ofText text).run.1) (hinserted : q.isInserted = true)
    (hlo : byteLength front ≤ q.start) (hhi : q.start < byteLength (front ++ gap)) :
    '\r' ∈ gap := by
  have hrest : text = [] ++ (Lexer.ofText text).rest := rfl
  have hlaid : Laid text false 0 (Lexer.ofText text).run.1 := Lexer.laid_run hrest rfl
  obtain hend | hlast := hlaid.lineEndAt_of_inserted q hq hinserted
  · obtain ⟨k, hk⟩ := Nat.exists_eq_add_of_le hlo
    rw [byteLength_append] at hhi
    rw [hk, htext, lineEndAt_middle (by omega)] at hend
    by_contra hnone
    refine not_lineEndAt_of_forall (fun b hb => ?_) hend
    obtain hspace | rfl := hgap b hb
    · exact not_isLineEnd_of_isSpace hspace
    · exact absurd hb hnone
  · rw [hlast, htext] at hhi
    simp only [byteLength_append] at hhi
    omega

end GoDecls
