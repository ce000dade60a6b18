/-
  Stretches of a text that hold tokens, blanks and line ends alone.

  * `Passage back due pos cs ts due'`: before `back` the characters `cs` at byte `pos` are
    such a stretch with the tokens `ts`; a semicolon is due before it if `due`, and behind
    it if `due'`;
  * `Passage.run`: the lexer reads these tokens and goes on behind them;
  * `Passage.before`, `Passage.shift`: so it does before another text that goes on in a like
    way, and at another place;
  * `Lexer.exists_passage`: a text without comments and faults is such a stretch;
  * `Passage.split`: it can be parted where a token begins.
-/
import GoDecls.Proofs.Token.Comments
import GoDecls.Proofs.Token.Lexemes
import GoDecls.Proofs.Token.Plain

namespace GoDecls

open Scan Text

/-- A character between tokens: a blank, or a byte order mark at the front of the text. -/
def IsFill (pos : Nat) (c : Char) : Prop := isSpace c = true ∨ pos = 0 ∧ c = orderMark

/-- A stretch of tokens, blanks and line ends before `back`, and its tokens. -/
inductive Passage (back : List Char) :
    (due : Bool) → Nat → List Char → List Lexeme → (due' : Bool) → Prop where
  | done {due : Bool} {pos : Nat} : Passage back due pos [] [] due
  | fill {due due' : Bool} {pos : Nat} {c : Char} {cs : List Char} {ts : List Lexeme}
    (hc : IsFill pos c) (h : Passage back due (pos + c.utf8Size) cs ts due') :
    Passage back due pos (c :: cs) ts due'
  | lineEnd {due due' : Bool} {pos : Nat} {c : Char} {cs : List Char} {ts : List Lexeme}
    (hc : isLineEnd c = true) (h : Passage back false (pos + c.utf8Size) cs ts due') :
    Passage back due pos (c :: cs) (lastLexeme due pos ++ ts) due'
  | token {due due' : Bool} {pos : Nat} {c : Char} {t r : List Char} {k : Piece} {tok : Token}
    {ts : List Lexeme} (hscan : scan c (t ++ (r ++ back)) = (k, t.length))
    (htok : k.token? (c :: t) = some tok)
    (h : Passage back tok.endsStatement (pos + byteLength (c :: t)) r ts due') :
    Passage back due pos (c :: (t ++ r)) (⟨pos, tok, pos + byteLength (c :: t)⟩ :: ts) due'

/-! ## Blanks -/

theorem isSpace_or_isLineEnd_of_mem_blanks :
    ∀ c ∈ blanks, isSpace c = true ∨ isLineEnd c = true := by decide

theorem not_mem_blanks_of_scan {c : Char} {cs t : List Char} {k : Piece} {n : Nat}
    (h : scan c cs = (k, n)) (hk : (k.token? t).isSome = true) : c ∉ blanks := by
  intro hc
  rcases isSpace_or_isLineEnd_of_mem_blanks c hc with hspace | hend
  · rw [Lexer.scan_space hspace] at h
    cases h
    cases hk
  · simp only [isLineEnd, Bool.or_eq_true, beq_iff_eq] at hend
    rcases hend with rfl | rfl
    · cases h
      cases hk
    · cases h
      cases hk

namespace Passage

variable {back cs cs' : List Char} {due due' due'' : Bool} {pos k : Nat} {ts ts' : List Lexeme}
  {l : Lexer} {c : Char}

/-! ## Runs -/

/-- What is between tokens may be passed over. -/
theorem run_fill (h : l.rest = c :: cs) (hc : IsFill l.pos c) :
    l.run = (l.moved cs c.utf8Size l.canEnd).run := by
  rcases hc with hc | ⟨hpos, rfl⟩
  · exact Lexer.run_space h hc
  · refine Lexer.run_eq_of_read h ?_
    simp only [Lexer.read, scan_orderMark, hpos, if_true, List.take_zero, List.drop_zero]
    rw [Lexer.moved, hpos]
    rfl

/-- **The tokens of a stretch are the first ones of a run.** -/
theorem run (h : Passage back due pos cs ts due') : ∀ l : Lexer, l.canEnd = due → l.pos = pos →
    l.rest = cs ++ back → l.run = (ts ++ (l.moved back (byteLength cs) due').run.1,
      (l.moved back (byteLength cs) due').run.2) := by
  induction h with
  | done =>
    rintro l rfl rfl hrest
    rw [List.nil_append] at hrest
    subst hrest
    rfl
  | @fill due due' pos c cs ts hc _ ih =>
    rintro l rfl rfl hrest
    rw [List.cons_append] at hrest
    rw [run_fill hrest hc, ih (l.moved _ _ l.canEnd) rfl rfl rfl, Lexer.moved_moved]
    rfl
  | lineEnd hc _ ih =>
    rintro l rfl rfl hrest
    rw [List.cons_append] at hrest
    rw [Lexer.run_lineEnd hrest hc, ih (l.moved _ _ false) rfl rfl rfl, Lexer.moved_moved,
      List.append_assoc]
    rfl
  | @token due due' pos c t r k tok ts hscan htok _ ih =>
    rintro l rfl rfl hrest
    rw [List.cons_append, List.append_assoc] at hrest
    rw [Lexer.run_token hrest hscan htok, ih (l.moved _ _ tok.endsStatement) rfl rfl rfl,
      Lexer.moved_moved, ← byteLength_append]
    rfl

/-- Its tokens lie within it. -/
theorem within (h : Passage back due pos cs ts due') : ∀ l ∈ ts,
    pos ≤ l.start ∧ l.start < pos + byteLength cs ∧ l.start ≤ l.stop ∧
      l.stop ≤ pos + byteLength cs := by
  induction h with
  | done => exact List.forall_mem_nil _
  | @fill _ _ _ c cs _ _ _ ih =>
    intro l hl
    have := ih l hl
    rw [byteLength_cons]
    omega
  | @lineEnd due _ pos c cs ts _ _ ih =>
    intro l hl
    have hsize := Char.utf8Size_pos c
    rw [byteLength_cons]
    rcases List.mem_append.1 hl with hl | hl
    · unfold lastLexeme at hl
      split at hl
      · obtain rfl := List.mem_singleton.1 hl
        simp only [Lexeme.inserted]
        omega
      · cases hl
    · have := ih l hl
      omega
  | @token _ _ pos c t r _ _ _ _ _ _ ih =>
    intro l hl
    have hsize := Char.utf8Size_pos c
    rw [← List.cons_append, byteLength_append, byteLength_cons]
    rcases List.mem_cons.1 hl with rfl | hl
    · simp only [byteLength_cons]
      omega
    · have := ih l hl
      rw [byteLength_cons] at this
      omega

/-! ## Stretches put together -/

theorem append (h : Passage (cs' ++ back) due pos cs ts due')
    (h' : Passage back due' (pos + byteLength cs) cs' ts' due'') :
    Passage back due pos (cs ++ cs') (ts ++ ts') due'' := by
  induction h with
  | done => exact h'
  | fill hc _ ih =>
    rw [byteLength_cons, ← Nat.add_assoc] at h'
    exact .fill hc (ih h')
  | lineEnd hc _ ih =>
    rw [byteLength_cons, ← Nat.add_assoc] at h'
    rw [List.append_assoc]
    exact .lineEnd hc (ih h')
  | token hscan htok _ ih =>
    rw [← List.cons_append, byteLength_append, ← Nat.add_assoc] at h'
    rw [List.cons_append, List.append_assoc]
    refine .token ?_ htok (ih h')
    rwa [List.append_assoc]

theorem spaces {ds : List Char} (hds : ∀ d ∈ ds, isSpace d = true)
    (h : Passage back due (pos + byteLength ds) cs ts due') :
    Passage back due pos (ds ++ cs) ts due' := by
  induction ds generalizing pos with
  | nil => exact h
  | cons d ds ih =>
    rw [byteLength_cons, ← Nat.add_assoc] at h
    obtain ⟨hd, hds⟩ := List.forall_mem_cons.1 hds
    exact .fill (.inl hd) (ih hds h)

/-- Several line ends settle a semicolon as one does. -/
theorem lineEnds {ds : List Char} (hne : ds ≠ []) (hds : ∀ d ∈ ds, isLineEnd d = true)
    (h : Passage back false (pos + byteLength ds) cs ts due') :
    Passage back due pos (ds ++ cs) (lastLexeme due pos ++ ts) due' := by
  induction ds generalizing due pos with
  | nil => exact absurd rfl hne
  | cons d ds ih =>
    rw [byteLength_cons, ← Nat.add_assoc] at h
    obtain ⟨hd, hds⟩ := List.forall_mem_cons.1 hds
    refine .lineEnd hd ?_
    cases ds with
    | nil => exact h
    | cons e ds => exact ih (List.cons_ne_nil e ds) hds h

/-! ## Before another text -/

theorem keepsPoint_append {r r' : List Char} (h : KeepsPoint r r')
    (hnext : r.head? = some '.' → r'.head? = some '.') (front : List Char) :
    KeepsPoint (front ++ r) (front ++ r') := by
  intro es hes hpoint
  rcases front with _ | ⟨c, _ | ⟨d, front⟩⟩
  · exact h es hes hpoint
  · cases hes
    exact ⟨r, rfl, mt hnext hpoint⟩
  · cases hes
    exact ⟨_, rfl, hpoint⟩

/-- A stretch is the same before a text that agrees with the one behind it. -/
theorem before {back' : List Char} (h : Passage back due pos cs ts due')
    (hagrees : Agrees back back') (hpoint : KeepsPoint back back')
    (hnext : back.head? = some '.' → back'.head? = some '.') :
    Passage back' due pos cs ts due' := by
  induction h with
  | done => exact .done
  | fill hc _ ih => exact .fill hc ih
  | lineEnd hc _ ih => exact .lineEnd hc ih
  | token hscan htok _ ih =>
    refine .token ?_ htok ih
    exact scan_agrees hscan (by rw [htok]; rfl) (hagrees.append _) fun _ =>
      keepsPoint_append hpoint hnext _

/-- What is a stretch by itself is one before a break. -/
theorem before_break (h : Passage [] due pos cs ts due') (hback : BreakHead back) :
    Passage back due pos cs ts due' := by
  refine h.before ⟨[], [], back, rfl, rfl, .inl hback⟩ (fun es hes _ => ?_) (by rintro ⟨⟩)
  subst hes
  exact absurd (hback '.' rfl) (by decide)

/-- What is a stretch before a break is one by itself. -/
theorem alone (h : Passage back due pos cs ts due') (hback : BreakHead back) :
    Passage [] due pos cs ts due' := by
  refine h.before ⟨[], back, [], rfl, rfl, .inl (by rintro _ ⟨⟩)⟩ (by rintro _ ⟨⟩) fun hpoint => ?_
  exact absurd (hback '.' hpoint) (by decide)

/-- No token looks further than two characters behind it. -/
theorem before_same {c d : Char} (h : Passage (c :: d :: back) due pos cs ts due')
    (back' : List Char) : Passage (c :: d :: back') due pos cs ts due' := by
  refine h.before ⟨[c, d], back, back', rfl, rfl, .inr (Nat.le_refl 2)⟩ (fun es hes hpoint => ?_) id
  cases hes
  exact ⟨_, rfl, hpoint⟩

/-! ## At another place -/

/-- A stretch is the same further on in a text, but for a byte order mark. -/
theorem shift (h : Passage back due pos cs ts due')
    (hmark : pos = 0 → cs.head? ≠ some orderMark) (k : Nat) :
    Passage back due (pos + k) cs (ts.map (Lexeme.shift k)) due' := by
  induction h with
  | done => exact .done
  | @fill _ _ pos c _ _ hc _ ih =>
    have hsize := Char.utf8Size_pos c
    have := ih fun hpos => by omega
    rw [Nat.add_right_comm] at this
    refine .fill (.inl (hc.resolve_right ?_)) this
    rintro ⟨rfl, rfl⟩
    exact hmark rfl rfl
  | @lineEnd _ _ pos c _ _ hc _ ih =>
    have hsize := Char.utf8Size_pos c
    have := ih fun hpos => by omega
    rw [Nat.add_right_comm] at this
    rw [List.map_append, ← lastLexeme_shift]
    exact .lineEnd hc this
  | @token _ _ pos c t _ _ _ _ hscan htok _ ih =>
    have hsize := Char.utf8Size_pos c
    have := ih fun hpos => by
      rw [byteLength_cons] at hpos
      omega
    rw [Nat.add_right_comm] at this
    rw [List.map_cons, Lexeme.shift, Nat.add_right_comm]
    exact .token hscan htok this

/-- A stretch is the same further to the front of a text. -/
theorem unshift {n : Nat} (h : Passage back due n cs ts due') (k : Nat) :
    ∀ {pos : Nat}, n = pos + k →
      ∃ us, ts = us.map (Lexeme.shift k) ∧ Passage back due pos cs us due' := by
  induction h with
  | done =>
    intro _ _
    exact ⟨[], rfl, .done⟩
  | fill hc _ ih =>
    rintro pos rfl
    obtain ⟨us, rfl, h⟩ := ih (Nat.add_right_comm ..)
    exact ⟨us, rfl, .fill (hc.imp_right (And.imp_left Nat.eq_zero_of_add_eq_zero_right)) h⟩
  | lineEnd hc _ ih =>
    rintro pos rfl
    obtain ⟨us, rfl, h⟩ := ih (Nat.add_right_comm ..)
    exact ⟨_, by rw [List.map_append, lastLexeme_shift], .lineEnd hc h⟩
  | token hscan htok _ ih =>
    rintro pos rfl
    obtain ⟨us, rfl, h⟩ := ih (Nat.add_right_comm ..)
    exact ⟨_ :: us, by simp [Lexeme.shift, Nat.add_right_comm], .token hscan htok h⟩

end Passage

/-! ## Texts without comments -/

namespace Lexer

variable {c : Char} {cs : List Char}

theorem comment?_eq_none (l : Lexer) (h : l.rest = c :: cs) (hcomments : l.run.2.comments = []) :
    (Segment.front l.pos c cs).comment? = none := by
  rw [run_comments, segments_of_cons h, filterMap_cons_toList, List.map_append] at hcomments
  have hfirst := (List.append_eq_nil_iff.1 (List.append_eq_nil_iff.1 hcomments).2).1
  rw [List.map_eq_nil_iff, Option.toList_eq_nil_iff] at hfirst
  exact Option.map_eq_none_iff.1 hfirst

theorem fault?_eq_none (l : Lexer) (h : l.rest = c :: cs) (hfaults : l.run.2.diagnostics = []) :
    (Segment.front l.pos c cs).fault? = none := by
  rw [run_diagnostics, segments_of_cons h, filterMap_cons_toList] at hfaults
  have hfirst := (List.append_eq_nil_iff.1 (List.append_eq_nil_iff.1 hfaults).2).1
  rw [Option.toList_eq_nil_iff] at hfirst
  exact Option.map_eq_none_iff.1 hfirst

/-- **A text without comments and faults** holds tokens, blanks and line ends alone. -/
theorem exists_passage (l : Lexer) (hcomments : l.run.2.comments = [])
    (hfaults : l.run.2.diagnostics = []) :
    ∃ ts due, Passage [] l.canEnd l.pos l.rest ts due ∧
      l.run.1 = ts ++ lastLexeme due (l.pos + byteLength l.rest) := by
  suffices h : ∃ ts due, Passage [] l.canEnd l.pos l.rest ts due by
    obtain ⟨ts, due, h⟩ := h
    refine ⟨ts, due, h, ?_⟩
    rw [h.run l rfl rfl (List.append_nil _).symm]
    exact congrArg _ (run_of_nil rfl)
  induction l using induction_on with
  | nil l h =>
    rw [h]
    exact ⟨[], l.canEnd, .done⟩
  | piece l c cs h ih =>
    have hcomment := l.comment?_eq_none h hcomments
    have hfault := l.fault?_eq_none h hfaults
    rw [run_last_of_cons h] at hcomments hfaults
    obtain ⟨ts, due, hrest⟩ := ih hcomments hfaults
    have htext : (Segment.front l.pos c cs).blanked = c :: cs.take (scan c cs).2 := by
      rw [Segment.blanked, hcomment]
      rfl
    have hsplit : c :: cs = (c :: cs.take (scan c cs).2) ++ cs.drop (scan c cs).2 := by
      rw [List.cons_append, List.take_append_drop]
    rw [read_pos, read_rest] at hrest
    by_cases hmark : c = orderMark
    · subst hmark
      have hpos : l.pos = 0 := by
        by_contra hpos
        rw [Segment.fault?, Segment.front, scan_orderMark] at hfault
        simp only [hpos, if_false] at hfault
        cases hfault
      have hread : (l.read orderMark cs).2.canEnd = l.canEnd := by
        simp only [read, scan_orderMark, hpos, if_true]
      rw [hread] at hrest
      rw [h]
      exact ⟨ts, due, .fill (.inr ⟨hpos, rfl⟩) hrest⟩
    obtain ⟨-, hdue, hspaces⟩ | ⟨-, hdue, hne, hends⟩ | ⟨tok, htok, -, hdue, -⟩ :=
      blanked_cases l hmark hfault
    · rw [hdue] at hrest
      rw [htext] at hspaces
      rw [h, hsplit]
      exact ⟨ts, due, hrest.spaces hspaces⟩
    · rw [hdue] at hrest
      rw [htext] at hne hends
      rw [h, hsplit]
      exact ⟨_, due, hrest.lineEnds hne hends⟩
    · rw [hdue] at hrest
      have hlength : (cs.take (scan c cs).2).length = (scan c cs).2 := by
        rw [List.length_take, Nat.min_eq_left (scan_isPiece c cs).le]
      rw [h, hsplit]
      refine ⟨_, due, .token ?_ htok hrest⟩
      rw [List.append_nil, List.take_append_drop, hlength]

end Lexer

section

variable {text back cs : List Char} {due : Bool} {ts : List Lexeme}

/-- The tokens of a text that is a stretch. -/
theorem Passage.run_ofText (h : Passage [] false 0 text ts due) :
    (Lexer.ofText text).run.1 = ts ++ lastLexeme due (byteLength text) ∧
      (Lexer.ofText text).run.2.comments = [] ∧ (Lexer.ofText text).run.2.diagnostics = [] := by
  rw [h.run (Lexer.ofText text) rfl rfl (List.append_nil text).symm]
  refine ⟨congrArg _ ((Lexer.run_of_nil rfl).trans ?_), ?_, ?_⟩
  · change lastLexeme due (0 + byteLength text) = _
    rw [Nat.zero_add]
  · rw [Lexer.run_comments, Lexer.moved, segments]
    rfl
  · rw [Lexer.run_diagnostics, Lexer.moved, segments]
    rfl

/-- A text without comments and faults is a stretch. -/
theorem exists_passage_ofText (hcomments : (Lexer.ofText text).run.2.comments = [])
    (hlex : (Lexer.ofText text).run.2.diagnostics = []) : ∃ ts due,
      Passage [] false 0 text ts due ∧
      (Lexer.ofText text).run.1 = ts ++ lastLexeme due (byteLength text) := by
  obtain ⟨ts, due, hpass, hrun⟩ := (Lexer.ofText text).exists_passage hcomments hlex
  change (Lexer.ofText text).run.1 = ts ++ lastLexeme due (0 + byteLength text) at hrun
  rw [Nat.zero_add] at hrun
  exact ⟨ts, due, hpass, hrun⟩

/-- What is behind a stretch at the front of such a text is one too. -/
theorem Passage.exists_behind (h : Passage back false 0 cs ts due)
    (hcomments : (Lexer.ofText (cs ++ back)).run.2.comments = [])
    (hlex : (Lexer.ofText (cs ++ back)).run.2.diagnostics = []) : ∃ us due',
      Passage [] due 0 back us due' ∧ (Lexer.ofText (cs ++ back)).run.1 =
        ts ++ (us ++ lastLexeme due' (byteLength back)).map (Lexeme.shift (byteLength cs)) := by
  have hrun := h.run (Lexer.ofText (cs ++ back)) rfl rfl rfl
  obtain ⟨us', due', hpass, hback⟩ := Lexer.exists_passage _
    ((congrArg (·.2.comments) hrun).symm.trans hcomments)
    ((congrArg (·.2.diagnostics) hrun).symm.trans hlex)
  change Passage [] due (0 + byteLength cs) back us' due' at hpass
  change _ = us' ++ lastLexeme due' (0 + byteLength cs + byteLength back) at hback
  obtain ⟨us, rfl, hbase⟩ := hpass.unshift _ rfl
  refine ⟨us, due', hbase, ?_⟩
  rw [hrun, hback, Nat.zero_add, Nat.add_comm, lastLexeme_shift, List.map_append]

/-- A text of two stretches. -/
theorem Passage.run_append {due' : Bool} {us : List Lexeme} (h : Passage back false 0 cs ts due)
    (h' : Passage [] due 0 back us due') (hmark : back.head? ≠ some orderMark) :
    (Lexer.ofText (cs ++ back)).run.1 =
        ts ++ (us ++ lastLexeme due' (byteLength back)).map (Lexeme.shift (byteLength cs)) ∧
      (Lexer.ofText (cs ++ back)).run.2.comments = [] ∧
      (Lexer.ofText (cs ++ back)).run.2.diagnostics = [] := by
  rw [← List.append_nil back] at h
  have hpass := h.append (h'.shift (fun _ => hmark) (byteLength cs))
  obtain ⟨hrun, hends⟩ := hpass.run_ofText
  refine ⟨?_, hends⟩
  rw [hrun, byteLength_append, Nat.add_comm, lastLexeme_shift, List.map_append, List.append_assoc]

/-- Its tokens lie within it, and so does the semicolon at its end. -/
theorem Passage.within_last {due' : Bool} {pos : Nat} (h : Passage back due pos cs ts due') :
    ∀ l ∈ ts ++ lastLexeme due' (pos + byteLength cs),
      l.start ≤ pos + byteLength cs ∧ l.stop ≤ pos + byteLength cs := by
  intro l hl
  rcases List.mem_append.1 hl with hl | hl
  · have := h.within l hl
    omega
  · unfold lastLexeme at hl
    split at hl
    · rw [List.mem_singleton.1 hl]
      exact ⟨Nat.le_refl _, Nat.le_refl _⟩
    · cases hl

end

/-! ## Where a token begins -/

theorem not_mem_lastLexeme {l : Lexeme} {due : Bool} {pos : Nat} (h : l.isInserted = false) :
    l ∉ lastLexeme due pos := by
  intro hl
  unfold lastLexeme at hl
  split at hl
  · rw [List.mem_singleton.1 hl] at h
    simp [Lexeme.isInserted, Lexeme.inserted] at h
  · cases hl

/-- **A stretch may be parted where a token begins.** -/
theorem Passage.split {back cs cs₁ cs₂ : List Char} {due due' : Bool} {pos : Nat}
    {ts : List Lexeme} (h : Passage back due pos cs ts due') (hcs : cs = cs₁ ++ cs₂)
    (hstart : ∃ l ∈ ts, l.isInserted = false ∧ l.start = pos + byteLength cs₁) :
    ∃ us vs due₁, ts = us ++ vs ∧ Passage (cs₂ ++ back) due pos cs₁ us due₁ ∧
      Passage back due₁ (pos + byteLength cs₁) cs₂ vs due' := by
  induction h generalizing cs₁ with
  | done =>
    obtain ⟨l, hl, -⟩ := hstart
    cases hl
  | @fill due due' pos c cs ts hc h ih =>
    cases cs₁ with
    | nil =>
      obtain rfl : c :: cs = cs₂ := hcs
      exact ⟨[], ts, due, rfl, .done, .fill hc h⟩
    | cons d cs₁ =>
      obtain ⟨rfl, htail⟩ := List.cons.inj hcs
      rw [byteLength_cons, ← Nat.add_assoc] at hstart ⊢
      obtain ⟨us, vs, due₁, rfl, hfront, hback⟩ := ih htail hstart
      exact ⟨us, vs, due₁, rfl, .fill hc hfront, hback⟩
  | @lineEnd due due' pos c cs ts hc h ih =>
    cases cs₁ with
    | nil =>
      obtain rfl : c :: cs = cs₂ := hcs
      exact ⟨[], _, due, rfl, .done, .lineEnd hc h⟩
    | cons d cs₁ =>
      obtain ⟨rfl, htail⟩ := List.cons.inj hcs
      rw [byteLength_cons, ← Nat.add_assoc] at hstart ⊢
      obtain ⟨l, hl, hreal, hl_start⟩ := hstart
      have hmem := (List.mem_append.1 hl).resolve_left (not_mem_lastLexeme hreal)
      obtain ⟨us, vs, due₁, rfl, hfront, hback⟩ := ih htail ⟨l, hmem, hreal, hl_start⟩
      exact ⟨_, vs, due₁, (List.append_assoc _ _ _).symm, .lineEnd hc hfront, hback⟩
  | @token due due' pos c t r k tok ts hscan htok h ih =>
    cases cs₁ with
    | nil =>
      obtain rfl : c :: (t ++ r) = cs₂ := hcs
      exact ⟨[], _, due, rfl, .done, .token hscan htok h⟩
    | cons d cs₁ =>
      obtain ⟨rfl, htail⟩ := List.cons.inj hcs
      obtain ⟨l, hl, hreal, hl_start⟩ := hstart
      have hsize := Char.utf8Size_pos c
      have hmem : l ∈ ts := by
        refine (List.mem_cons.1 hl).resolve_left ?_
        rintro rfl
        simp only [byteLength_cons] at hl_start
        omega
      -- the next token begins behind this one, so that the place is not within it
      have hlt := (h.within l hmem).1
      obtain ⟨r₁, rfl, rfl⟩ : ∃ r₁, cs₁ = t ++ r₁ ∧ r = r₁ ++ cs₂ := by
        rcases List.append_eq_append_iff.1 htail with ⟨r₁, rfl, rfl⟩ | ⟨t', rfl, rfl⟩
        · exact ⟨r₁, rfl, rfl⟩
        · have hnil : t' = [] := by
            rw [byteLength_cons, byteLength_append] at hlt
            rw [byteLength_cons] at hl_start
            exact byteLength_eq_zero.1 (by omega)
          subst hnil
          exact ⟨[], by simp, by simp⟩
      have hlength : pos + byteLength (c :: (t ++ r₁)) =
          pos + byteLength (c :: t) + byteLength r₁ := by
        rw [← List.cons_append, byteLength_append, Nat.add_assoc]
      rw [hlength] at hl_start ⊢
      obtain ⟨us, vs, due₁, rfl, hfront, hback⟩ := ih rfl ⟨l, hmem, hreal, hl_start⟩
      refine ⟨_ :: us, vs, due₁, rfl, .token ?_ htok hfront, hback⟩
      rwa [List.append_assoc] at hscan

end GoDecls
