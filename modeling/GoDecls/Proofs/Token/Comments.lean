/-
  Comments act as blanks.

  * `blankComments text` has a blank or a line end for each comment with an end
    marker, and nothing for one that reaches to the end of its line;
  * `spaced_blanked`: up to the first comment nothing has changed, and there a
    blank stands, so a token before it ends where it did;
  * `blanked_cases`: what reading a segment gives is what its replacement asks for;
  * `readsAs_blanked`: so the text with its comments replaced is a plain one, with
    the tokens of the text;
  * `run_blankComments`: what this means for the two runs.
-/
import GoDecls.Proofs.Token.Plain
import GoDecls.Proofs.Token.Spacing

namespace GoDecls

open Scan Text

variable {l : Lexer} {c : Char} {cs : List Char} {pos : Nat} {due : Bool}

/-! ## Texts without comments -/

/-- What stands for the segment if comments are blanks: for a comment a line end if
    it holds one, and otherwise a blank; nothing for one up to the end of a line. -/
def Segment.blanked (s : Segment) : List Char :=
  match s.comment? with
  | some .line => []
  | some .block => if s.text.any isLineEnd then ['\n'] else [' ']
  | none => s.text

/-- The text with its comments replaced by blanks.  The segments that are comments
    are those that a run records (`Lexer.run_comments`). -/
def blankComments (text : List Char) : List Char := (segments 0 text).flatMap Segment.blanked

theorem scanComment_of_comment? {k : CommentKind} (h : (Segment.front pos c cs).comment? = some k) :
    c = '/' ∧ scanComment cs = some ((scan c cs).1, (scan c cs).2) := by
  have hpiece := scan_isPiece c cs
  rw [Segment.comment?, Segment.front] at h
  generalize hscan : scan c cs = p at h hpiece ⊢
  obtain ⟨k, n⟩ := p
  simp only at h hpiece ⊢
  cases hpiece with
  | comment hc hcomment => exact ⟨hc, hcomment⟩
  | quoted hquoted => rcases scanQuoted_kind hquoted with rfl | rfl | rfl <;> cases h
  | punct hpunct =>
    obtain ⟨p, rfl⟩ := scanPunct_kind hpunct
    cases h
  | _ => cases h

/-- The replacement of a segment that ends a line begins with its line end. -/
theorem blanked_of_isLineEnd (pos : Nat) (cs : List Char) (hc : isLineEnd c = true) :
    ∃ ds, (Segment.front pos c cs).blanked = c :: ds := by
  have hkind : (Segment.front pos c cs).comment? = none := by
    cases h : (Segment.front pos c cs).comment? with
    | none => rfl
    | some k =>
      rw [(scanComment_of_comment? h).1] at hc
      cases hc
  rw [Segment.blanked, hkind]
  exact ⟨_, rfl⟩

/-- Where the rest of a line was taken off, its end is left, or nothing. -/
theorem blankHead_dropWhile (ds : List Char) (pos : Nat) :
    BlankHead ((segments pos (ds.dropWhile (!isLineEnd ·))).flatMap Segment.blanked) := by
  cases h : ds.dropWhile (!isLineEnd ·) with
  | nil =>
    rw [segments]
    exact .nil
  | cons c cs =>
    have hc : isLineEnd c = true := by
      have := List.head?_dropWhile_not (!isLineEnd ·) ds
      rw [h] at this
      simpa using this
    obtain ⟨es, hes⟩ := blanked_of_isLineEnd pos cs hc
    rw [segments, List.flatMap_cons, hes, List.cons_append]
    exact .of_mem (mem_blanks_of_isLineEnd hc)

/-- A comment gives way to a blank, or to the line end behind it. -/
theorem blankHead_blanked {k : CommentKind} (h : (Segment.front pos c cs).comment? = some k)
    (stop : Nat) : BlankHead ((Segment.front pos c cs).blanked ++
      (segments stop (cs.drop (scan c cs).2)).flatMap Segment.blanked) := by
  obtain ⟨rfl, hcomment⟩ := scanComment_of_comment? h
  rw [Segment.blanked, h]
  cases k with
  | line =>
    rcases scanComment_kind hcomment with ⟨-, ds, rfl, hn⟩ | ⟨_, hkind⟩
    · have hsplit : ds = ds.takeWhile (!isLineEnd ·) ++ ds.dropWhile (!isLineEnd ·) :=
        List.takeWhile_append_dropWhile.symm
      have hdrop : ds.drop (ds.takeWhile (!isLineEnd ·)).length = ds.dropWhile (!isLineEnd ·) :=
        (congrArg (List.drop _) hsplit).trans List.drop_left
      rw [hn, List.drop_succ_cons, hdrop]
      exact blankHead_dropWhile ds _
    · rw [Segment.comment?, Segment.front, hkind] at h
      cases h
  | block =>
    dsimp only
    split
    · exact .of_mem (by decide)
    · exact .of_mem (by decide)

/-- **Up to the first comment nothing changes**, and there a blank stands. -/
theorem spaced_blanked (pos : Nat) (cs : List Char) :
    Spaced cs ((segments pos cs).flatMap Segment.blanked) := by
  fun_induction segments pos cs with
  | case1 => exact .refl []
  | case2 pos c cs ih =>
    rw [List.flatMap_cons]
    cases h : (Segment.front pos c cs).comment? with
    | some k =>
      have hdot : (c :: cs).head? ≠ some '.' := by
        rw [(scanComment_of_comment? h).1, List.head?_cons]
        decide
      exact ⟨[], c :: cs, _, rfl, rfl, hdot, blankHead_blanked h _⟩
    | none =>
      have hsplit : c :: cs = (Segment.front pos c cs).text ++ cs.drop (scan c cs).2 := by
        simp [Segment.text, Segment.front]
      have happend := ih.append (Segment.front pos c cs).text
      rw [← hsplit] at happend
      rw [Segment.blanked, h]
      exact happend

/-! ## Their tokens -/

/-- A token without its place, and whether it is an inserted one. -/
def Lexeme.reading (t : Lexeme) : Token × Bool := (t.token, t.isInserted)

/-- What an inserted semicolon is read as. -/
def settled (due : Bool) : List (Token × Bool) := if due then [(.punct .semi, true)] else []

theorem map_reading_settle (due : Bool) (pos : Nat) :
    (if due then [Lexeme.inserted pos] else []).map Lexeme.reading = settled due := by
  cases due <;> simp [settled, Lexeme.reading, Lexeme.inserted, Lexeme.isInserted]

/-- Wherever it stands, the text is a plain one with these tokens. -/
def ReadsAs (due : Bool) (cs : List Char) (ts : List (Token × Bool)) : Prop :=
  ∀ pos, ∃ ls, Plain due pos cs ls ∧ ls.map Lexeme.reading = ts

namespace ReadsAs

variable {ts : List (Token × Bool)} {ds : List Char}

theorem nil (due : Bool) : ReadsAs due [] (settled due) := by
  intro pos
  refine ⟨_, ?_, map_reading_settle due pos⟩
  cases due with
  | false => exact .done
  | true => exact .atEnd

theorem spaces (hds : ∀ d ∈ ds, isSpace d = true) (h : ReadsAs due cs ts) :
    ReadsAs due (ds ++ cs) ts := by
  induction ds with
  | nil => exact h
  | cons d ds ih =>
    intro pos
    obtain ⟨ls, hls, heq⟩ := ih (fun d hd => hds d (List.mem_cons_of_mem _ hd)) (pos + d.utf8Size)
    exact ⟨ls, .space (hds d List.mem_cons_self) hls, heq⟩

theorem lineEnd (hc : isLineEnd c = true) (h : ReadsAs false cs ts) :
    ReadsAs due (c :: cs) (settled due ++ ts) := by
  intro pos
  obtain ⟨ls, hls, rfl⟩ := h (pos + c.utf8Size)
  exact ⟨_, .lineEnd hc hls, by rw [List.map_append, map_reading_settle]⟩

/-- Several line ends settle as one does. -/
theorem lineEnds (hne : ds ≠ []) (hds : ∀ d ∈ ds, isLineEnd d = true) (h : ReadsAs false cs ts) :
    ReadsAs due (ds ++ cs) (settled due ++ ts) := by
  induction ds generalizing due with
  | nil => exact absurd rfl hne
  | cons d ds ih =>
    refine lineEnd (hds d List.mem_cons_self) ?_
    cases ds with
    | nil => exact h
    | cons e ds => exact ih (by simp) fun d hd => hds d (List.mem_cons_of_mem _ hd)

theorem token {t r : List Char} {k : Piece} {tok : Token} (hscan : scan c (t ++ r) = (k, t.length))
    (htok : k.token? (c :: t) = some tok) (h : ReadsAs tok.endsStatement r ts) :
    ReadsAs due (c :: (t ++ r)) ((tok, false) :: ts) := by
  intro pos
  obtain ⟨ls, hls, rfl⟩ := h (pos + byteLength (c :: t))
  refine ⟨_, .token hscan htok hls, ?_⟩
  have hsize := Char.utf8Size_pos c
  simp only [List.map_cons, Lexeme.reading, Lexeme.isInserted, byteLength_cons]
  simp
  omega

end ReadsAs

theorem Lexer.isSome_lineEndOffset? (cs : List Char) :
    (lineEndOffset? cs).isSome = cs.any isLineEnd := by
  rw [lineEndOffset?, Option.isSome_map, List.findIdx?_isSome]

theorem scan_orderMark : scan orderMark cs = (.orderMark, 0) := rfl

theorem Lexer.run_orderMark : (ofText (orderMark :: cs)).run = run ⟨cs, 3, false, [], []⟩ :=
  run_eq_of_read rfl rfl

theorem comment?_of_token? {s : Segment} {tok : Token} (h : s.kind.token? s.text = some tok) :
    s.comment? = none := by
  unfold Piece.token? at h
  unfold Segment.comment?
  split at h <;> simp_all

/-- What stands for a segment that is no token is blank, or is line ends if the
    segment holds one that counts. -/
theorem blanked_of_no_token (hmark : c ≠ orderMark)
    (hfault : (Segment.front pos c cs).fault? = none)
    (htok : (Segment.front pos c cs).kind.token? (Segment.front pos c cs).text = none) :
    ((Segment.front pos c cs).lineEnd? = none ∧
      ∀ d ∈ (Segment.front pos c cs).blanked, isSpace d = true) ∨
    ∃ p, (Segment.front pos c cs).lineEnd? = some p ∧ (Segment.front pos c cs).blanked ≠ [] ∧
      ∀ d ∈ (Segment.front pos c cs).blanked, isLineEnd d = true := by
  have hpiece := scan_isPiece c cs
  cases hkind : (scan c cs).1 with
  | blank =>
    rw [hkind] at hpiece
    obtain ⟨-, hspaces⟩ | ⟨h, -⟩ | ⟨h, -⟩ := hpiece.gap_cases rfl
    · simp only [Segment.lineEnd?, Segment.blanked, Segment.comment?, Segment.front, hkind]
      exact .inl ⟨trivial, hspaces⟩
    all_goals cases h
  | lineEnd =>
    rw [hkind] at hpiece
    obtain ⟨h, -⟩ | ⟨-, hends⟩ | ⟨h, -⟩ := hpiece.gap_cases rfl
    case inr.inl =>
      simp only [Segment.lineEnd?, Segment.blanked, Segment.comment?, Segment.front, hkind]
      exact .inr ⟨pos, rfl, List.cons_ne_nil _ _, hends⟩
    all_goals cases h
  | orderMark =>
    rw [hkind] at hpiece
    obtain ⟨h, -⟩ | ⟨h, -⟩ | ⟨-, h, -⟩ := hpiece.gap_cases rfl
    case inr.inr => exact absurd h hmark
    all_goals cases h
  | lineComment =>
    simp only [Segment.lineEnd?, Segment.blanked, Segment.comment?, Segment.front, hkind]
    exact .inl ⟨trivial, List.forall_mem_nil _⟩
  | blockComment closed =>
    cases closed with
    | false => simp [Segment.front, Segment.fault?, hkind] at hfault
    | true =>
      simp only [Segment.lineEnd?, Segment.blanked, Segment.comment?, Segment.front, hkind]
      rw [← Lexer.isSome_lineEndOffset?]
      cases Lexer.lineEndOffset? (Segment.text ⟨pos, .blockComment true, c,
          cs.take (scan c cs).2⟩) with
      | none => exact .inl ⟨rfl, by decide⟩
      | some k =>
        rw [Option.isSome_some, if_pos rfl]
        exact .inr ⟨pos + k, rfl, by decide, by decide⟩
  | _ => simp_all [Segment.front, Piece.token?, Segment.fault?]

/-- What a piece without a fault gives is what its replacement asks for: nothing
    for blanks, the semicolon that is due for line ends, and else its token. -/
theorem blanked_cases (l : Lexer) (hmark : c ≠ orderMark)
    (hfault : (Segment.front l.pos c cs).fault? = none) :
    ((l.read c cs).1 = none ∧ (l.read c cs).2.canEnd = l.canEnd ∧
      ∀ d ∈ (Segment.front l.pos c cs).blanked, isSpace d = true) ∨
    ((l.read c cs).1.toList.map Lexeme.reading = settled l.canEnd ∧
      (l.read c cs).2.canEnd = false ∧ (Segment.front l.pos c cs).blanked ≠ [] ∧
      ∀ d ∈ (Segment.front l.pos c cs).blanked, isLineEnd d = true) ∨
    ∃ tok, (scan c cs).1.token? (c :: cs.take (scan c cs).2) = some tok ∧
      (l.read c cs).1.toList.map Lexeme.reading = [(tok, false)] ∧
      (l.read c cs).2.canEnd = tok.endsStatement ∧
      (Segment.front l.pos c cs).blanked = c :: cs.take (scan c cs).2 := by
  rw [Lexer.read_eq]
  cases hlexeme : (Segment.front l.pos c cs).lexeme? with
  | some t =>
    have hreal := Lexer.not_isInserted_of_lexeme? hlexeme
    obtain ⟨tok, htok, rfl⟩ := Option.map_eq_some_iff.1 hlexeme
    rw [Segment.token?, hfault] at htok
    refine .inr (.inr ⟨tok, htok, ?_, rfl, ?_⟩)
    · simp only [Option.toList_some, List.map_singleton, Lexeme.reading, hreal]
    · rw [Segment.blanked, comment?_of_token? htok]
      rfl
  | none =>
    have htok : (Segment.front l.pos c cs).token? = none := Option.map_eq_none_iff.1 hlexeme
    rw [Segment.token?, hfault] at htok
    dsimp only
    obtain ⟨hnone, hspaces⟩ | ⟨p, hline, hne, hends⟩ := blanked_of_no_token hmark hfault htok
    · rw [hnone, Lexer.settle_none]
      exact .inl ⟨rfl, rfl, hspaces⟩
    · rw [hline, Lexer.settle_some]
      refine .inr (.inl ⟨?_, rfl, hne, hends⟩)
      cases h : l.canEnd <;>
        simp [Lexer.behind, settled, h, Lexeme.reading, Lexeme.inserted, Lexeme.isInserted]

/-- **With its comments replaced a text has the same tokens**, if it has no fault. -/
theorem readsAs_blanked (l : Lexer) (hmark : l.pos = 0 → l.rest.head? ≠ some orderMark)
    (hfault : ∀ s ∈ segments l.pos l.rest, s.fault? = none) :
    ReadsAs l.canEnd ((segments l.pos l.rest).flatMap Segment.blanked)
      (l.run.1.map Lexeme.reading) := by
  induction l using Lexer.induction_on with
  | nil l h =>
    rw [h, segments, Lexer.run_of_nil h, map_reading_settle]
    exact .nil l.canEnd
  | piece l c cs h ih =>
    have hsegments := l.segments_of_cons h
    have hpos : (l.read c cs).2.pos ≠ 0 := by
      have := Char.utf8Size_pos c
      rw [Lexer.read_pos, byteLength_cons]
      omega
    have hrest := ih (fun h => absurd h hpos) fun s hs =>
      hfault s (by rw [hsegments]; exact List.mem_cons_of_mem _ hs)
    have hfront := hfault (.front l.pos c cs) (by rw [hsegments]; exact List.mem_cons_self)
    have hc : c ≠ orderMark := by
      rintro rfl
      have hpos : l.pos ≠ 0 := fun h0 => hmark h0 (by rw [h]; rfl)
      simp [Segment.fault?, Segment.front, scan_orderMark, hpos] at hfront
    rw [hsegments, List.flatMap_cons, Lexer.run_of_cons h, List.map_append]
    obtain ⟨hnone, hdue, hspaces⟩ | ⟨hread, hdue, hne, hends⟩ |
      ⟨tok, htok, hread, hdue, hblanked⟩ := blanked_cases l hc hfront
    · rw [hdue] at hrest
      rw [hnone]
      exact hrest.spaces hspaces
    · rw [hdue] at hrest
      rw [hread]
      exact hrest.lineEnds hne hends
    · rw [hdue] at hrest
      have hlength : (cs.take (scan c cs).2).length = (scan c cs).2 := by
        rw [List.length_take, Nat.min_eq_left (scan_isPiece c cs).le]
      have hscan : scan c (cs.take (scan c cs).2 ++ cs.drop (scan c cs).2) =
          ((scan c cs).1, (cs.take (scan c cs).2).length) := by
        rw [List.take_append_drop, hlength]
      have hscan' := scan_spaced hscan (by rw [htok]; rfl)
        (spaced_blanked (l.read c cs).2.pos (cs.drop (scan c cs).2))
      rw [hread, hblanked, Lexer.read_rest]
      rw [Lexer.read_rest] at hrest
      exact hrest.token hscan' htok

theorem run_blanked (l : Lexer) (hmark : l.pos = 0 → l.rest.head? ≠ some orderMark)
    (hfault : ∀ s ∈ segments l.pos l.rest, s.fault? = none) :
    let l' : Lexer := { l with rest := (segments l.pos l.rest).flatMap Segment.blanked }
    l'.run.1.map Lexeme.reading = l.run.1.map Lexeme.reading ∧
      l'.run.2.comments = l.comments ∧ l'.run.2.diagnostics = l.diagnostics := by
  intro l'
  obtain ⟨ts, hplain, hts⟩ := readsAs_blanked l hmark hfault l.pos
  obtain ⟨htokens, hcomments, hdiagnostics⟩ := hplain.run l' rfl rfl rfl
  exact ⟨by rw [htokens, hts], hcomments, hdiagnostics⟩

/-- **Comments act as blanks.**  If a text has no fault, then neither has the text
    with its comments replaced by blanks; that one has no comments, and the same
    tokens, inserted semicolons included. -/
theorem run_blankComments {text : List Char} (h : (Lexer.ofText text).run.2.diagnostics = []) :
    (Lexer.ofText (blankComments text)).run.2.diagnostics = [] ∧
    (Lexer.ofText (blankComments text)).run.2.comments = [] ∧
    (Lexer.ofText (blankComments text)).run.1.map Lexeme.reading =
      (Lexer.ofText text).run.1.map Lexeme.reading := by
  have hfault : ∀ s ∈ segments 0 text, s.fault? = none := by
    intro s hs
    rw [Lexer.run_diagnostics, List.append_eq_nil_iff] at h
    exact Option.map_eq_none_iff.1 (List.filterMap_eq_nil_iff.1 h.2 s hs)
  by_cases hmark : text.head? = some orderMark
  · -- a byte order mark at the front is passed over in both texts
    obtain ⟨cs, rfl⟩ := List.head?_eq_some_iff.1 hmark
    let behind : Lexer := ⟨cs, 3, false, [], []⟩
    have hsegments : segments 0 (orderMark :: cs) = .front 0 orderMark cs :: segments 3 cs := by
      rw [segments]
      rfl
    rw [hsegments] at hfault
    have hblanked : blankComments (orderMark :: cs) =
        orderMark :: (segments 3 cs).flatMap Segment.blanked := by
      rw [blankComments, hsegments]
      rfl
    have hpos : behind.pos = 0 → behind.rest.head? ≠ some orderMark := fun h => by cases h
    obtain ⟨htokens, hcomments, hdiagnostics⟩ :=
      run_blanked behind hpos fun s hs => hfault s (List.mem_cons_of_mem _ hs)
    rw [hblanked, Lexer.run_orderMark, Lexer.run_orderMark]
    exact ⟨hdiagnostics, hcomments, htokens⟩
  · obtain ⟨htokens, hcomments, hdiagnostics⟩ :=
      run_blanked (.ofText text) (fun _ => hmark) hfault
    exact ⟨hdiagnostics, hcomments, htokens⟩

/-- A comment over two lines, one within a line and one up to its end. -/
theorem run_blankComments_lines :
    (Lexer.ofText "a /* x\n */ b/**/1 // c".toList).run.2.diagnostics = [] ∧
    blankComments "a /* x\n */ b/**/1 // c".toList = "a \n b 1 ".toList ∧
    (Lexer.ofText "a \n b 1 ".toList).run.1.map Lexeme.reading =
      (Lexer.ofText "a /* x\n */ b/**/1 // c".toList).run.1.map Lexeme.reading := by
  have hfault : (Lexer.ofText "a /* x\n */ b/**/1 // c".toList).run.2.diagnostics = [] := by
    decide +kernel
  have hblanked : blankComments "a /* x\n */ b/**/1 // c".toList = "a \n b 1 ".toList := by
    decide +kernel
  refine ⟨hfault, hblanked, ?_⟩
  rw [← hblanked]
  exact (run_blankComments hfault).2.2

end GoDecls
