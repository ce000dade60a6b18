/-
  The comments of a text with a parenthesis put in, next to a token.

  * `Put.comments_eq`: they are those that there were, one byte further on behind the
    parenthesis;
  * `Put.gains`, `Put.groups_eq`: the layout has gained a token, and its groups are those
    that there were;
  * `Put.docFor?_eq`, `Put.lineCommentAfter?_eq`: they belong to what they belonged to.
-/
import GoDecls.Comment.Text
import GoDecls.Proofs.Comment.Moved
import GoDecls.Proofs.Token.Parenthesis

namespace GoDecls

open Text Scan

/-! ## Slices -/

namespace Text

variable {front back : List Char} {a b n : Nat}

theorem cut?_append_of_le (h : n ≤ byteLength front) :
    cut? (front ++ back) n = (cut? front n).map fun p => (p.1, p.2 ++ back) := by
  induction front generalizing n with
  | nil =>
    obtain rfl := Nat.le_zero.1 h
    rw [List.nil_append, cut?, cut?]
    rfl
  | cons c front ih =>
    cases n with
    | zero => rfl
    | succ n =>
      rw [byteLength_cons] at h
      rw [List.cons_append, cut?, cut?]
      split
      · rw [ih (by omega), Option.map_map, Option.map_map]
        rfl
      · rfl

theorem cut?_append_add (front back : List Char) (n : Nat) :
    cut? (front ++ back) (byteLength front + n) = (cut? back n).map fun p => (front ++ p.1, p.2) := by
  induction front with
  | nil => simp
  | cons c front ih =>
    have hsize := Char.utf8Size_pos c
    obtain ⟨k, hk⟩ : ∃ k, byteLength (c :: front) + n = k + 1 :=
      ⟨byteLength (c :: front) + n - 1, by rw [byteLength_cons]; omega⟩
    rw [byteLength_cons] at hk
    rw [List.cons_append, byteLength_cons, hk, cut?, if_pos (by omega),
      show k + 1 - c.utf8Size = byteLength front + n by omega, ih, Option.map_map]
    rfl

/-- A slice of the front of a text. -/
theorem slice?_append_left (h : b ≤ byteLength front) :
    slice? (front ++ back) a b = slice? front a b := by
  unfold slice?
  split
  · next hab =>
    rw [cut?_append_of_le (Nat.le_trans hab h)]
    cases hcut : cut? front a with
    | none => rfl
    | some p =>
      obtain ⟨rfl, rfl⟩ := append_of_cut? hcut
      rw [byteLength_append] at h
      change (cut? (p.2 ++ back) (b - byteLength p.1)).map Prod.fst = _
      rw [cut?_append_of_le (by omega), Option.map_map]
      rfl
  · rfl

/-- A slice of what is behind the front of a text. -/
theorem slice?_append_add (front back : List Char) (a b : Nat) :
    slice? (front ++ back) (byteLength front + a) (byteLength front + b) = slice? back a b := by
  unfold slice?
  rw [cut?_append_add, Option.bind_map, Nat.add_sub_add_left]
  simp only [Nat.add_le_add_iff_left]
  rfl

end Text

/-! ## Line feeds -/

namespace Layout

theorem lt_of_mem_lineFeedsFrom {cs : List Char} {pos q : Nat} (h : q ∈ lineFeedsFrom pos cs) :
    q < pos + byteLength cs := by
  induction cs generalizing pos with
  | nil => cases h
  | cons c cs ih =>
    have hsize := Char.utf8Size_pos c
    rw [byteLength_cons]
    unfold lineFeedsFrom at h
    split at h
    · rcases List.mem_cons.1 h with rfl | h
      · omega
      · have := ih h
        omega
    · have := ih h
      omega

theorem lineFeedsFrom_append (pos : Nat) (front back : List Char) :
    lineFeedsFrom pos (front ++ back) =
      lineFeedsFrom pos front ++ lineFeedsFrom (pos + byteLength front) back := by
  induction front generalizing pos with
  | nil => rfl
  | cons c front ih =>
    rw [List.cons_append, lineFeedsFrom, lineFeedsFrom, ih, byteLength_cons, Nat.add_assoc]
    split <;> rfl

theorem lineFeedsFrom_shift (pos : Nat) (cs : List Char) :
    lineFeedsFrom (pos + 1) cs = (lineFeedsFrom pos cs).map (· + 1) := by
  induction cs generalizing pos with
  | nil => rfl
  | cons c cs ih =>
    rw [lineFeedsFrom, lineFeedsFrom, Nat.add_right_comm, ih]
    split <;> rfl

/-- The layout of a text. -/
def ofText (text : List Char) : Layout :=
  .of text (Lexer.ofText text).run.1 (Lexer.ofText text).run.2.comments

theorem arranged_ofText {text : List Char} (hfaults : (Lexer.ofText text).run.2.diagnostics = [])
    (hlimit : byteLength text ≤ Span.limit) :
    (ofText text).Arranged (Lexer.ofText text).run.2.comments where
  parted := by
    rw [ofText, groups_of]
    exact parted_group (commentsInOrder_run hfaults)
  grouped := grouped_layout hfaults
  outside := by
    intro c hc
    obtain ⟨s, hs, k, hk, rfl⟩ := mem_comments_of_run.1 hc
    have hstop := (boundary_segment hs).2.le
    have hlt := s.start_lt_stop
    have hspan : Span.ofOffsets s.start s.stop = ⟨s.start, s.stop⟩ :=
      Span.ofOffsets_of_le (by omega) (by omega)
    rw [hspan]
    refine ⟨hlt, fun t ht => ?_⟩
    obtain ⟨s', hs', hsome, rfl⟩ := mem_tokens_of_run.1 ht
    rcases segments_apart hs' hs with rfl | hapart
    · rw [token?_eq_none_of_comment? hk (fault?_eq_none_of_run hfaults hs)] at hsome
      cases hsome
    · exact hapart

end Layout

namespace Put

variable {text text' : List Char} {n : Nat} {closing : Bool} {A C : List Segment} {s : Segment}
  (h : Put text text' n closing A C)

include h

theorem mem' : s ∈ segments 0 text' ↔
    s ∈ A ∨ s = parenAt n closing ∨ ∃ a ∈ C, s = a.shift 1 := by
  rw [h.put, List.mem_append, List.mem_cons, List.mem_map]
  simp only [eq_comm]

theorem start_ne_zero (hs : s ∈ C) : s.start ≠ 0 := by
  have := h.le_start hs
  have := h.pos
  omega

theorem faultless' : ∀ s ∈ segments 0 text', s.fault? = none := by
  intro s hs
  rcases h.mem'.1 hs with hs | rfl | ⟨a, ha, rfl⟩
  · exact h.faultless s (h.mem.2 (.inl hs))
  · exact fault?_parenAt
  · rw [Segment.fault?_shift (h.start_ne_zero ha)]
    exact h.faultless a (h.mem.2 (.inr ha))

theorem byteLength_eq : byteLength text' = byteLength text + 1 := by
  have : (parenChar closing).utf8Size = 1 := by cases closing <;> rfl
  rw [h.text_eq, h.text'_eq, byteLength_append, byteLength_append, byteLength_cons]
  omega

end Put

/-- The comment that the segment is, as spans hold it. -/
def Segment.writtenComment? (s : Segment) : Option Comment :=
  s.comment?.map (⟨·, .ofOffsets s.start s.stop⟩)

theorem run_comments_eq (text : List Char) : (Lexer.ofText text).run.2.comments =
    (segments 0 text).filterMap Segment.writtenComment? := by
  have hcomments : (Lexer.ofText text).run.2.comments =
      ((segments 0 text).filterMap Segment.remark?).map Remark.comment :=
    (Lexer.ofText text).run_comments
  rw [hcomments, List.map_filterMap]
  refine List.filterMap_congr fun s _ => ?_
  rw [Segment.remark?, Option.map_map]
  rfl

theorem diagnostics_eq_nil {text : List Char} (h : ∀ s ∈ segments 0 text, s.fault? = none) :
    (Lexer.ofText text).run.2.diagnostics = [] := by
  rw [Lexer.run_diagnostics]
  refine List.append_eq_nil_iff.2 ⟨rfl, List.filterMap_eq_nil_iff.2 fun s hs => ?_⟩
  rw [Segment.diagnostic?, h s hs]
  rfl

/-- The groups have the same text, one by one. -/
def SameTexts (text text' : List Char) (gs gs' : List CommentGroup) : Prop :=
  (gs'.map fun g => CommentText.ofComments text' g.comments) =
    gs.map fun g => CommentText.ofComments text g.comments

theorem SameTexts.trans {text text' text'' : List Char} {gs gs' gs'' : List CommentGroup}
    (h : SameTexts text text' gs gs') (h' : SameTexts text' text'' gs' gs'') :
    SameTexts text text'' gs gs'' := Eq.trans h' h

namespace Put

variable {text text' : List Char} {n : Nat} {closing : Bool} {A C : List Segment} {s : Segment}
  (h : Put text text' n closing A C)

include h

/-! ## Comments -/

theorem moved_of_mem_left (hs : s ∈ A) : (Span.mk s.start s.stop).moved n = ⟨s.start, s.stop⟩ :=
  moved_before s.start_lt_stop (h.stop_le hs)

theorem moved_of_mem_right (hs : s ∈ C) :
    (Span.mk s.start s.stop).moved n = ⟨s.start + 1, s.stop + 1⟩ :=
  moved_behind s.start_lt_stop (h.le_start hs)

/-- **The comments are those that there were.** -/
theorem comments_eq (hlimit : byteLength text' ≤ Span.limit) :
    (Lexer.ofText text').run.2.comments =
      (Lexer.ofText text).run.2.comments.map (·.moved n) := by
  have hlength := h.byteLength_eq
  have hspan {s : Segment} (hs : s ∈ segments 0 text) :
      (Span.ofOffsets s.start s.stop) = ⟨s.start, s.stop⟩ ∧
        Span.ofOffsets (s.start + 1) (s.stop + 1) = ⟨s.start + 1, s.stop + 1⟩ := by
    have hstop := (boundary_segment hs).2.le
    have hlt := s.start_lt_stop
    exact ⟨Span.ofOffsets_of_le (by omega) (by omega), Span.ofOffsets_of_le (by omega) (by omega)⟩
  have hleft : A.filterMap Segment.writtenComment? =
      A.filterMap fun s => s.writtenComment?.map (·.moved n) := by
    refine List.filterMap_congr fun s hs => ?_
    rw [Segment.writtenComment?, Option.map_map]
    congr 1
    funext k
    rw [Function.comp, Comment.moved, (hspan (h.mem.2 (.inl hs))).1, h.moved_of_mem_left hs]
  have hright : (C.map (Segment.shift 1)).filterMap Segment.writtenComment? =
      C.filterMap fun s => s.writtenComment?.map (·.moved n) := by
    rw [List.filterMap_map]
    refine List.filterMap_congr fun s hs => ?_
    have hshift : (s.shift 1).start = s.start + 1 := rfl
    rw [Function.comp, Segment.writtenComment?, Segment.writtenComment?, Option.map_map, hshift,
      Segment.stop_shift]
    congr 1
    funext k
    have hsame := hspan (h.mem.2 (.inr hs))
    rw [Function.comp, Comment.moved, hsame.1, hsame.2, h.moved_of_mem_right hs]
  have hparen : (parenAt n closing).writtenComment? = none := by
    rw [Segment.writtenComment?, comment?_parenAt]
    rfl
  rw [run_comments_eq, run_comments_eq, h.split, h.put, List.filterMap_append,
    List.filterMap_cons_none hparen, hleft, hright, ← List.filterMap_append, List.map_filterMap]

/-! ## Slices -/

theorem slice?_before {a b : Nat} (hb : b ≤ n) : slice? text' a b = slice? text a b := by
  have hb' : b ≤ byteLength (textOf A) := Nat.le_trans hb (Nat.le_of_eq h.place.symm)
  rw [h.text_eq, h.text'_eq, slice?_append_left hb', slice?_append_left hb']

theorem slice?_behind {a b : Nat} (ha : n ≤ a) : slice? text' (a + 1) (b + 1) = slice? text a b := by
  rcases Nat.lt_or_ge b a with hlt | hab
  · rw [slice?, slice?, if_neg (by omega), if_neg (by omega)]
  · obtain ⟨a, rfl⟩ := Nat.exists_eq_add_of_le ha
    obtain ⟨b, rfl⟩ := Nat.exists_eq_add_of_le (Nat.le_trans ha hab)
    have hfront : byteLength (textOf A ++ [parenChar closing]) = n + 1 := by
      rw [byteLength_append, h.place]
      cases closing <;> rfl
    have htext' : text' = (textOf A ++ [parenChar closing]) ++ textOf C := by
      rw [h.text'_eq, List.append_assoc]
      rfl
    rw [Nat.add_right_comm n a, Nat.add_right_comm n b, ← hfront, htext', slice?_append_add,
      ← h.place, h.text_eq, slice?_append_add]

/-- The comments have the text that they had. -/
theorem text?_moved {c : Comment} (hlimit : byteLength text ≤ Span.limit)
    (hc : c ∈ (Lexer.ofText text).run.2.comments) :
    (c.moved n).span.text? text' = c.span.text? text := by
  obtain ⟨s, hs, k, -, rfl⟩ := mem_comments_of_run.1 hc
  have hstop := (boundary_segment hs).2.le
  have hlt := s.start_lt_stop
  have hspan : Span.ofOffsets s.start s.stop = ⟨s.start, s.stop⟩ :=
    Span.ofOffsets_of_le (by omega) (by omega)
  rw [Comment.moved, hspan]
  rcases h.mem.1 hs with hs | hs
  · rw [h.moved_of_mem_left hs]
    exact h.slice?_before (h.stop_le hs)
  · rw [h.moved_of_mem_right hs]
    exact h.slice?_behind (h.le_start hs)

theorem ofComments_moved {cs : List Comment} (hlimit : byteLength text ≤ Span.limit)
    (hcs : cs ⊆ (Lexer.ofText text).run.2.comments) :
    CommentText.ofComments text' (cs.map (·.moved n)) = CommentText.ofComments text cs := by
  have hlines : (cs.map (·.moved n)).flatMap (CommentText.lines text') =
      cs.flatMap (CommentText.lines text) := by
    rw [List.flatMap_map]
    refine List.flatMap_congr fun c hc => ?_
    rw [CommentText.lines, CommentText.lines, h.text?_moved hlimit (hcs hc)]
    rfl
  rw [CommentText.ofComments, CommentText.ofComments, hlines]

/-! ## Lines and tokens -/

theorem line_before {p : Nat} (hp : p ≤ n) :
    (Layout.ofText text').line p = (Layout.ofText text).line p := by
  have hlate {pos : Nat} {cs : List Char} (hpos : n ≤ pos) :
      (Layout.lineFeedsFrom pos cs).countP (· < p) = 0 := by
    rw [List.countP_eq_zero]
    intro q hq
    have := Layout.le_of_mem_lineFeedsFrom hq
    simp only [decide_eq_true_eq]
    omega
  change (Layout.lineFeedsFrom 0 text').countP (· < p) =
    (Layout.lineFeedsFrom 0 text).countP (· < p)
  rw [h.text_eq, h.text'_eq, Layout.lineFeedsFrom_append, Layout.lineFeedsFrom_append,
    List.countP_append, List.countP_append, Nat.zero_add, h.place, hlate (Nat.le_refl n),
    hlate (Nat.le_refl n)]

theorem line_behind {p : Nat} (hp : n ≤ p) :
    (Layout.ofText text').line (p + 1) = (Layout.ofText text).line p := by
  have hparen : Layout.lineFeedsFrom n (parenChar closing :: textOf C) =
      (Layout.lineFeedsFrom n (textOf C)).map (· + 1) := by
    rw [← Layout.lineFeedsFrom_shift]
    cases closing <;> rfl
  have hfront : (Layout.lineFeedsFrom 0 (textOf A)).countP (· < p + 1) =
      (Layout.lineFeedsFrom 0 (textOf A)).countP (· < p) := by
    refine List.countP_congr fun q hq => ?_
    have := Layout.lt_of_mem_lineFeedsFrom hq
    rw [Nat.zero_add, h.place] at this
    simp only [decide_eq_true_eq]
    omega
  have hback : ((Layout.lineFeedsFrom n (textOf C)).map (· + 1)).countP (· < p + 1) =
      (Layout.lineFeedsFrom n (textOf C)).countP (· < p) := by
    rw [List.countP_map]
    refine List.countP_congr fun q _ => ?_
    simp
  change (Layout.lineFeedsFrom 0 text').countP (· < p + 1) =
    (Layout.lineFeedsFrom 0 text).countP (· < p)
  rw [h.text_eq, h.text'_eq, Layout.lineFeedsFrom_append, Layout.lineFeedsFrom_append,
    List.countP_append, List.countP_append, Nat.zero_add, h.place, hparen, hfront, hback]

theorem mem_tokens {t : Span} : t ∈ (Layout.ofText text').tokens ↔
    t = ⟨n, n + 1⟩ ∨ ∃ u ∈ (Layout.ofText text).tokens, t = u.moved n := by
  have hparen : (parenAt n closing).token?.isSome = true := by cases closing <;> rfl
  rw [Layout.ofText, Layout.mem_tokens_of_run]
  constructor
  · rintro ⟨s, hs, hsome, rfl⟩
    rcases h.mem'.1 hs with hs | rfl | ⟨a, ha, rfl⟩
    · refine .inr ⟨⟨s.start, s.stop⟩, ?_, (h.moved_of_mem_left hs).symm⟩
      exact Layout.mem_tokens_of_run.2 ⟨s, h.mem.2 (.inl hs), hsome, rfl⟩
    · rw [start_parenAt, stop_parenAt]
      exact .inl rfl
    · refine .inr ⟨⟨a.start, a.stop⟩, ?_, ?_⟩
      · rw [Segment.token?_shift (h.start_ne_zero ha)] at hsome
        exact Layout.mem_tokens_of_run.2 ⟨a, h.mem.2 (.inr ha), hsome, rfl⟩
      · rw [h.moved_of_mem_right ha, Segment.stop_shift]
        rfl
  · rintro (rfl | ⟨_, hu, rfl⟩)
    · exact ⟨_, h.mem'.2 (.inr (.inl rfl)), hparen, by rw [start_parenAt, stop_parenAt]⟩
    · obtain ⟨s, hs, hsome, rfl⟩ := Layout.mem_tokens_of_run.1 hu
      rcases h.mem.1 hs with hs | hs
      · exact ⟨s, h.mem'.2 (.inl hs), hsome, h.moved_of_mem_left hs⟩
      · refine ⟨s.shift 1, h.mem'.2 (.inr (.inr ⟨s, hs, rfl⟩)), ?_, ?_⟩
        · rwa [Segment.token?_shift (h.start_ne_zero hs)]
        · rw [h.moved_of_mem_right hs, Segment.stop_shift]
          rfl

/-- **The layout has gained a token.** -/
theorem gains : (Layout.ofText text).Gains (Layout.ofText text') n closing where
  inOrder := Layout.tokensInOrder_run text _
  inOrder' := Layout.tokensInOrder_run text' _
  lineBefore _ hp := h.line_before hp
  lineBehind _ hp := h.line_behind hp
  tokens _ := h.mem_tokens
  opens hopen := by
    obtain ⟨s, hs, hsome⟩ := h.opens hopen
    obtain ⟨C, rfl⟩ := List.head?_eq_some_iff.1 hs
    have hstart := start_of_split h.split
    rw [Nat.zero_add, h.place] at hstart
    refine ⟨⟨s.start, s.stop⟩, Layout.mem_tokens_of_run.2 ⟨s, ?_, ?_, rfl⟩, hstart⟩
    · exact h.mem.2 (.inr List.mem_cons_self)
    · rwa [Segment.lexeme?, Option.isSome_map] at hsome
  closes hclose := by
    obtain ⟨s, hs, hany⟩ := h.closes hclose
    obtain ⟨A, rfl⟩ := List.getLast?_eq_some_iff.1 hs
    have hsplit := h.split
    rw [List.append_assoc] at hsplit
    have hstop : s.stop = n := by
      have hstart := start_of_split hsplit
      have hplace := h.place
      rw [textOf_append, byteLength_append, textOf_cons, textOf_nil, List.append_nil] at hplace
      rw [Segment.stop, hstart, Nat.zero_add, hplace]
    refine ⟨⟨s.start, s.stop⟩, Layout.mem_tokens_of_run.2 ⟨s, ?_, ?_, rfl⟩, hstop⟩
    · exact h.mem.2 (.inl (List.mem_append_right _ List.mem_cons_self))
    · obtain ⟨l, hl, -⟩ := (Option.any_eq_true _ _).1 hany
      obtain ⟨t, ht, -⟩ := Option.map_eq_some_iff.1 hl
      rw [ht]
      rfl

/-! ## Groups -/

variable (hlimit : byteLength text' ≤ Span.limit)

include hlimit

theorem arranged : (Layout.ofText text).Arranged (Lexer.ofText text).run.2.comments :=
  Layout.arranged_ofText (diagnostics_eq_nil h.faultless) (by have := h.byteLength_eq; omega)

theorem arranged' : (Layout.ofText text').Arranged (Lexer.ofText text').run.2.comments :=
  Layout.arranged_ofText (diagnostics_eq_nil h.faultless') hlimit

/-- **The groups are those that there were.** -/
theorem groups_eq :
    (Layout.ofText text').groups = (Layout.ofText text).groups.map (·.moved n) := by
  have hcs := Layout.commentsInOrder_run (diagnostics_eq_nil h.faultless)
  have hcs' := Layout.commentsInOrder_run (diagnostics_eq_nil h.faultless')
  rw [Layout.ofText, Layout.ofText, Layout.groups_of, Layout.groups_of]
  have hcomments := h.comments_eq hlimit
  refine (congrArg _ hcomments).trans (h.gains.group_moved hcs (h.arranged hlimit).outside ?_)
  intro c hc
  exact hcs'.held _ (hcomments ▸ List.mem_map_of_mem hc)

/-- The groups have the text that they had. -/
theorem sameTexts :
    SameTexts text text' (Layout.ofText text).groups (Layout.ofText text').groups := by
  have hlength := h.byteLength_eq
  have hall := (h.arranged hlimit).grouped.all
  rw [SameTexts, h.groups_eq hlimit, List.map_map]
  refine List.map_congr_left fun g hg => h.ofComments_moved (by omega) fun c hc => ?_
  exact hall ▸ List.mem_flatMap.2 ⟨g, hg, hc⟩

/-- **The groups belong to what they belonged to.** -/
theorem docFor?_eq {p : Nat} (hp : closing = false → p ≠ n) :
    (Layout.ofText text').docFor? (movedStart n p) = (Layout.ofText text).docFor? p :=
  h.gains.docFor?_moved (h.arranged hlimit) (h.arranged' hlimit) (h.groups_eq hlimit) hp

theorem lineCommentAfter?_eq {t : Span} (ht : t ∈ (Layout.ofText text).tokens)
    (hn : closing = true → t.stop ≠ n) :
    (Layout.ofText text').lineCommentAfter? (movedStop n t.stop) =
      (Layout.ofText text).lineCommentAfter? t.stop :=
  h.gains.lineCommentAfter?_moved (h.arranged hlimit) (h.arranged' hlimit) (h.groups_eq hlimit) ht hn

theorem lineCommentAfter?_behind (hclose : closing = true) :
    (Layout.ofText text').lineCommentAfter? (n + 1) = (Layout.ofText text).lineCommentAfter? n :=
  h.gains.lineCommentAfter?_behind (h.arranged hlimit) (h.arranged' hlimit) (h.groups_eq hlimit) hclose

end Put

end GoDecls
