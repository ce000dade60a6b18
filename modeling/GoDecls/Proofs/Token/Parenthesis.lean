/-
  A parenthesis put into a text, next to a token.

  * `segments_before_paren`: the pieces before it are those that were there; `segments_shift`:
    the pieces behind it are too, one byte on;
  * `Put text text' n closing A C`: a parenthesis is put into the text at byte `n`, between
    the segments `A` and `C`; `Put.run_eq`: the tokens are those there were, with its own
    between them;
  * `exists_put_opening`, `exists_put_closing`: an opening parenthesis may be put before a
    token that a type starts with, a closing one behind a token that a type ends with.
-/
import GoDecls.Proofs.Token.Account
import GoDecls.Proofs.Token.Lexemes
import GoDecls.Proofs.Token.Plain
import GoDecls.Proofs.Token.Spacing

namespace GoDecls

open Scan Text

/-! ## Pieces before a parenthesis -/

namespace Scan

variable {c : Char} {t r r' : List Char} {k : Piece}

/-- A comment with its end marker ends there. -/
theorem closeExtent_append (h : closeExtent (t ++ r) = some t.length) (r' : List Char) :
    closeExtent (t ++ r') = some t.length := by
  induction t with
  | nil =>
    have := closeExtent_eq_some h
    obtain ⟨_, _, -, hlength⟩ := this
    cases hlength
  | cons c t ih =>
    rw [List.cons_append, closeExtent] at h ⊢
    cases t with
    | nil =>
      split at h
      · cases h
      · obtain ⟨n, hn, h⟩ := Option.map_eq_some_iff.1 h
        cases h
        obtain ⟨_, _, -, hlength⟩ := closeExtent_eq_some hn
        cases hlength
    | cons d t =>
      rw [List.cons_append, List.head?_cons] at h ⊢
      split
      · next hend =>
        rw [if_pos hend] at h
        exact h
      · next hend =>
        rw [if_neg hend] at h
        obtain ⟨n, hn, hlength⟩ := Option.map_eq_some_iff.1 h
        cases hlength
        have := ih hn
        rw [List.cons_append] at this
        rw [this]
        rfl

theorem scanComment_append (h : scanComment (t ++ r) = some (.blockComment true, t.length))
    (r' : List Char) : scanComment (t ++ r') = some (.blockComment true, t.length) := by
  cases t with
  | nil =>
    unfold scanComment at h
    split at h
    · cases h
    · split at h <;> cases h
    · cases h
  | cons c t =>
    rw [List.cons_append] at h ⊢
    unfold scanComment at h
    split at h
    · cases h
    · next hcs =>
      cases hcs
      split at h
      · next n hn =>
        cases h
        rw [scanComment, closeExtent_append hn]
        rfl
      · cases h
    · cases h

/-- A comment up to the end of its line ends before the same character. -/
theorem scanComment_line (h : scanComment (t ++ r) = some (.lineComment, t.length))
    (hr : r.head? = r'.head?) : scanComment (t ++ r') = some (.lineComment, t.length) := by
  rcases scanComment_kind h with ⟨-, ds, hds, hlength⟩ | ⟨_, hkind⟩
  · cases t with
    | nil => cases hlength
    | cons c t =>
      cases hds
      have hnext (P : Char → Bool) : r.head?.any P = false → r'.head?.any P = false := by
        rw [hr]
        exact id
      have htake := takeWhile_agrees (Nat.succ.inj hlength).symm (hnext _)
      rw [List.cons_append, scanComment, htake, List.length_cons]
  · cases hkind

/-- A parenthesis stands in front. -/
def ParenHead (cs : List Char) : Prop := cs.head? = some '(' ∨ cs.head? = some ')'

theorem ParenHead.breakHead (h : ParenHead r) : BreakHead r := by
  intro b hb
  rcases h with h | h <;> (rw [h] at hb; cases hb; decide)

theorem ParenHead.any_eq_false {P : Char → Bool} (h : ParenHead r) (hopen : P '(' = false)
    (hclose : P ')' = false) : r.head?.any P = false := by
  rcases h with h | h <;> rw [h] <;> assumption

/-- Of the pieces without a fault, only a comment up to the end of its line and a number
    may go on where a parenthesis stands, or behind it. -/
theorem scan_before_paren {front back gap : List Char}
    (hscan : scan c (t ++ (front ++ back)) = (k, t.length))
    (hfault : k ≠ .stray ∧ k ≠ .blockComment false) (hgap : ParenHead gap)
    (hline : k = .lineComment → front ≠ [])
    (hdot : k = .number → KeepsPoint (front ++ back) (front ++ gap)) :
    scan c (t ++ (front ++ gap)) = (k, t.length) := by
  by_cases hk : (k.token? (c :: t)).isSome = true
  · exact scan_agrees hscan hk ⟨front, back, gap, rfl, rfl, .inl hgap.breakHead⟩ hdot
  have hpiece := scan_isPiece c (t ++ (front ++ back))
  simp only [hscan] at hpiece
  generalize hn : t.length = n at hpiece
  have hnext {P : Char → Bool} (hopen : P '(' = false) (hclose : P ')' = false)
      (hback : (front ++ back).head?.any P = false) : (front ++ gap).head?.any P = false := by
    cases front with
    | nil => exact hgap.any_eq_false hopen hclose
    | cons d front => exact hback
  cases hpiece with
  | blank hc =>
    have htake := takeWhile_agrees hn.symm (hnext (P := isSpace) rfl rfl)
    rw [Lexer.scan_space hc, htake, hn]
  | lineFeed hc =>
    rw [hc]
    rfl
  | carriageReturn hc =>
    subst hc
    have hhead : (t ++ (front ++ gap)).head? = some '\n' ↔
        (t ++ (front ++ back)).head? = some '\n' := by
      cases t with
      | cons d t => rfl
      | nil =>
        have hback : (front ++ back).head? ≠ some '\n' := fun hfeed => by
          rw [List.nil_append, if_pos hfeed] at hn
          cases hn
        have hgap := hnext (P := (· == '\n')) rfl rfl (by
          cases hb : (front ++ back).head? with
          | none => rfl
          | some d => simpa [hb] using hback)
        refine iff_of_false (fun hfeed => ?_) hback
        rw [List.nil_append] at hfeed
        rw [hfeed] at hgap
        cases hgap
    have hreturn : scan '\r' (t ++ (front ++ gap)) =
        (.lineEnd, if (t ++ (front ++ gap)).head? = some '\n' then 1 else 0) := rfl
    rw [hreturn]
    simp only [hhead]
  | orderMark hc =>
    rw [hc]
    rfl
  | comment hc h =>
    subst hn hc
    rcases scanComment_kind h with ⟨rfl, -⟩ | ⟨closed, rfl⟩
    · refine scan_comment (scanComment_line h ?_)
      obtain ⟨d, ds, rfl⟩ := List.exists_cons_of_ne_nil (hline rfl)
      rfl
    · cases closed with
      | true => exact scan_comment (scanComment_append h _)
      | false => exact absurd rfl hfault.2
  | word => exact absurd rfl hk
  | number => exact absurd rfl hk
  | quoted h => rcases scanQuoted_kind h with rfl | rfl | rfl <;> exact absurd rfl hk
  | punct h =>
    obtain ⟨p, rfl⟩ := scanPunct_kind h
    exact absurd rfl hk
  | stray => exact absurd rfl hfault.1

end Scan

/-! ## Segments before a parenthesis -/

/-- The characters of segments. -/
def textOf (ss : List Segment) : List Char := ss.flatMap Segment.text

@[simp] theorem textOf_nil : textOf [] = [] := rfl

@[simp] theorem textOf_cons (s : Segment) (ss : List Segment) :
    textOf (s :: ss) = s.text ++ textOf ss := List.flatMap_cons

@[simp] theorem textOf_append (ss ss' : List Segment) :
    textOf (ss ++ ss') = textOf ss ++ textOf ss' := List.flatMap_append

theorem textOf_segments (pos : Nat) (cs : List Char) : textOf (segments pos cs) = cs :=
  flatMap_text_segments pos cs

section

variable {pos : Nat} {cs gap : List Char} {s : Segment} {ss ss' : List Segment}

theorem textOf_eq_nil : textOf ss = [] ↔ ss = [] := by
  cases ss with
  | nil => exact iff_of_true rfl rfl
  | cons s ss =>
    rw [textOf_cons, Segment.text]
    exact iff_of_false (List.cons_ne_nil _ _) (List.cons_ne_nil _ _)

/-- The first segment, and those behind it. -/
theorem segments_eq_cons (h : segments pos cs = s :: ss) : ∃ c ds, cs = c :: ds ∧
    s = .front pos c ds ∧ cs = s.text ++ textOf ss ∧ ss = segments s.stop (textOf ss) := by
  have htext : cs = s.text ++ textOf ss := by
    rw [← textOf_cons, ← h, textOf_segments]
  cases cs with
  | nil =>
    rw [segments] at h
    cases h
  | cons c ds =>
    rw [segments] at h
    obtain ⟨rfl, rfl⟩ := List.cons.inj h
    exact ⟨c, ds, rfl, rfl, htext, by rw [textOf_segments]⟩

/-- Segments behind others are those of what is left. -/
theorem segments_behind (h : segments pos cs = ss ++ ss') :
    ss' = segments (pos + byteLength (textOf ss)) (textOf ss') := by
  induction ss generalizing pos cs with
  | nil =>
    rw [List.nil_append] at h
    subst h
    rw [textOf_segments, textOf_nil, byteLength_nil, Nat.add_zero]
  | cons s ss ih =>
    obtain ⟨c, ds, -, rfl, -, hss⟩ := segments_eq_cons h
    rw [textOf_cons, byteLength_append, ← Nat.add_assoc]
    exact ih hss.symm

/-- A segment begins where those before it end. -/
theorem start_of_split (h : segments pos cs = ss ++ s :: ss') :
    s.start = pos + byteLength (textOf ss) := by
  obtain ⟨c, ds, -, rfl, -, -⟩ := segments_eq_cons (segments_behind h).symm
  rfl

theorem stop_le_of_mem (h : segments pos cs = ss ++ ss') (hs : s ∈ ss) :
    s.stop ≤ pos + byteLength (textOf ss) := by
  induction ss generalizing pos cs with
  | nil => cases hs
  | cons a ss ih =>
    obtain ⟨c, ds, -, rfl, -, hrest⟩ := segments_eq_cons h
    rw [textOf_cons, byteLength_append, ← Nat.add_assoc]
    rcases List.mem_cons.1 hs with rfl | hs
    · exact Nat.le_add_right _ _
    · exact ih hrest.symm hs

/-- Behind the segments a parenthesis may come. -/
structure OpenEnded (ss : List Segment) (back : List Char) : Prop where
  faultless : ∀ s ∈ ss, s.fault? = none
  line : ∀ s ∈ ss.getLast?, s.kind ≠ .lineComment
  point : ∀ s ∈ ss.getLast?, s.text = ['.'] → back.head? ≠ some '.'

theorem OpenEnded.tail {back : List Char} (h : OpenEnded (s :: ss) back) : OpenEnded ss back := by
  have hlast : ∀ s' ∈ ss.getLast?, s' ∈ (s :: ss).getLast? := fun s' hs' => by
    rw [List.getLast?_cons, hs']
    rfl
  exact ⟨fun s' hs' => h.faultless s' (List.mem_cons_of_mem s hs'),
    fun s' hs' => h.line s' (hlast s' hs'), fun s' hs' => h.point s' (hlast s' hs')⟩

theorem OpenEnded.keepsPoint {back : List Char} (h : OpenEnded ss back) (hgap : ParenHead gap) :
    KeepsPoint (textOf ss ++ back) (textOf ss ++ gap) := by
  intro es hes hpoint
  rcases ss with _ | ⟨s, ss⟩
  · rcases hgap with hgap | hgap <;>
      (rw [textOf_nil, List.nil_append] at hes; rw [hes] at hgap; cases hgap)
  · simp only [textOf_cons, Segment.text, List.cons_append] at hes ⊢
    obtain ⟨hhead, rfl⟩ := List.cons.inj hes
    refine ⟨_, by rw [hhead], ?_⟩
    cases hrest : s.tail ++ textOf ss with
    | cons d ds =>
      rw [hrest] at hpoint
      exact hpoint
    | nil =>
      obtain ⟨htail, hss⟩ := List.append_eq_nil_iff.1 hrest
      obtain rfl := textOf_eq_nil.1 hss
      exact h.point s rfl (by rw [Segment.text, hhead, htail])

/-- **The pieces before a parenthesis** are those that were there without it. -/
theorem segments_before_paren (h : segments pos cs = ss ++ ss') (hss : OpenEnded ss (textOf ss'))
    (hgap : ParenHead gap) : segments pos (textOf ss ++ gap) =
      ss ++ segments (pos + byteLength (textOf ss)) gap := by
  induction ss generalizing pos cs with
  | nil => rfl
  | cons s ss ih =>
    obtain ⟨c, ds, rfl, rfl, htext, hrest⟩ := segments_eq_cons h
    have hds : ds = ds.take (scan c ds).2 ++ (textOf ss ++ textOf ss') := by
      rw [← textOf_append]
      exact (List.cons.inj htext).2
    have hlength : (ds.take (scan c ds).2).length = (scan c ds).2 := by
      rw [List.length_take, Nat.min_eq_left (scan_isPiece c ds).le]
    have hscan : scan c (ds.take (scan c ds).2 ++ (textOf ss ++ textOf ss')) =
        ((scan c ds).1, (ds.take (scan c ds).2).length) := by
      rw [← hds, hlength]
    have hfault := hss.faultless _ List.mem_cons_self
    have hsame := scan_before_paren hscan ?_ hgap ?_ fun _ => hss.tail.keepsPoint hgap
    · have hfront : Segment.front pos c (ds.take (scan c ds).2 ++ (textOf ss ++ gap)) =
          .front pos c ds := by
        rw [Segment.front, hsame, List.take_left]
        rfl
      have htextOf : textOf (Segment.front pos c ds :: ss) ++ gap =
          c :: (ds.take (scan c ds).2 ++ (textOf ss ++ gap)) := by
        rw [textOf_cons, List.append_assoc]
        rfl
      rw [htextOf, segments, hfront, hsame, List.drop_left, ih hrest.symm hss.tail, textOf_cons,
        byteLength_append, ← Nat.add_assoc]
      rfl
    · constructor <;> intro hk <;> rw [Segment.fault?, Segment.front, hk] at hfault <;> cases hfault
    · intro hk hnil
      obtain rfl := textOf_eq_nil.1 hnil
      exact hss.line _ rfl hk

end

/-! ## The parenthesis itself -/

theorem scan_lparen (cs : List Char) : scan '(' cs = (.punct .lparen, 0) := rfl

theorem scan_rparen (cs : List Char) : scan ')' cs = (.punct .rparen, 0) := rfl

/-- The segment of an opening or a closing parenthesis. -/
def parenAt (n : Nat) (closing : Bool) : Segment :=
  if closing then ⟨n, .punct .rparen, ')', []⟩ else ⟨n, .punct .lparen, '(', []⟩

/-- The character that the parenthesis is. -/
def parenChar (closing : Bool) : Char := if closing then ')' else '('

/-- The token that the parenthesis is. -/
def parenLexeme (n : Nat) (closing : Bool) : Lexeme :=
  ⟨n, .punct (if closing then .rparen else .lparen), n + 1⟩

section

variable {n pos : Nat} {closing due : Bool} {cs : List Char} {s a : Segment}
  {ss ss' A C : List Segment} {l : Lexeme} {t : Token}

@[simp] theorem start_parenAt : (parenAt n closing).start = n := by cases closing <;> rfl

@[simp] theorem stop_parenAt : (parenAt n closing).stop = n + 1 := by cases closing <;> rfl

@[simp] theorem fault?_parenAt : (parenAt n closing).fault? = none := by cases closing <;> rfl

@[simp] theorem comment?_parenAt : (parenAt n closing).comment? = none := by cases closing <;> rfl

@[simp] theorem lexeme?_parenAt : (parenAt n closing).lexeme? = some (parenLexeme n closing) := by
  cases closing <;> rfl

theorem segments_paren (n : Nat) (closing : Bool) (cs : List Char) :
    segments n (parenChar closing :: cs) =
      parenAt n closing :: (segments n cs).map (Segment.shift 1) := by
  rw [← segments_shift]
  cases closing with
  | false =>
    rw [parenChar, if_neg Bool.false_ne_true, segments, scan_lparen]
    rfl
  | true =>
    rw [parenChar, if_pos rfl, segments, scan_rparen]
    rfl

/-- **The segments with a parenthesis put in.** -/
theorem segments_put (h : segments 0 cs = A ++ C) (hA : OpenEnded A (textOf C)) (closing : Bool) :
    segments 0 (textOf A ++ parenChar closing :: textOf C) =
      A ++ parenAt (byteLength (textOf A)) closing :: C.map (Segment.shift 1) := by
  have hgap : ParenHead (parenChar closing :: textOf C) := by
    cases closing with
    | false => exact .inl rfl
    | true => exact .inr rfl
  have hC := segments_behind h
  rw [Nat.zero_add] at hC
  rw [segments_before_paren h hA hgap, Nat.zero_add, segments_paren, ← hC]

/-! ## Next to a token -/

/-- In the second text a parenthesis is put into the first one, which is without a
    fault, at byte `n`: an opening one right before a token, or a closing one right
    behind a token that may end a statement.  `A` and `C` are the segments before and
    behind it. -/
structure Put (text text' : List Char) (n : Nat) (closing : Bool) (A C : List Segment) : Prop where
  faultless : ∀ s ∈ segments 0 text, s.fault? = none
  split : segments 0 text = A ++ C
  put : segments 0 text' = A ++ parenAt n closing :: C.map (Segment.shift 1)
  place : byteLength (textOf A) = n
  pos : 0 < n
  opens : closing = false → ∃ s ∈ C.head?, s.lexeme?.isSome = true
  closes : closing = true → ∃ s ∈ A.getLast?, s.lexeme?.any (·.token.endsStatement) = true

namespace Put

variable {text text' : List Char}

theorem text_eq (h : Put text text' n closing A C) : text = textOf A ++ textOf C := by
  rw [← textOf_append, ← h.split, textOf_segments]

theorem text'_eq (h : Put text text' n closing A C) :
    text' = textOf A ++ parenChar closing :: textOf C := by
  rw [← textOf_segments 0 text', h.put, textOf_append, textOf_cons]
  have hshift : textOf (C.map (Segment.shift 1)) = textOf C := by
    rw [textOf, List.flatMap_map]
    rfl
  rw [hshift]
  cases closing <;> rfl

theorem mem (h : Put text text' n closing A C) : s ∈ segments 0 text ↔ s ∈ A ∨ s ∈ C := by
  rw [h.split, List.mem_append]

theorem stop_le (h : Put text text' n closing A C) (hs : s ∈ A) : s.stop ≤ n := by
  have := stop_le_of_mem h.split hs
  rwa [Nat.zero_add, h.place] at this

theorem le_start (h : Put text text' n closing A C) (hs : s ∈ C) : n ≤ s.start := by
  have hC := segments_behind h.split
  rw [Nat.zero_add, h.place] at hC
  rw [hC] at hs
  exact (segments_within hs).1

/-- It does not matter whether a semicolon is due before an opening parenthesis, and
    one is due before a closing one and behind it. -/
theorem lexemes_eq (h : Put text text' n closing A C) :
    lexemes (lexemes false A).2 C = lexemes (parenLexeme n closing).token.endsStatement C := by
  cases closing with
  | false =>
    obtain ⟨s, hs, hsome⟩ := h.opens rfl
    obtain ⟨l, hl⟩ := Option.isSome_iff_exists.1 hsome
    obtain ⟨C, rfl⟩ := List.head?_eq_some_iff.1 hs
    rw [lexemes_cons_of_lexeme? hl, lexemes_cons_of_lexeme? hl]
  | true =>
    obtain ⟨s, hs, hany⟩ := h.closes rfl
    obtain ⟨l, hl, hends⟩ := (Option.any_eq_true _ _).1 hany
    obtain ⟨A, rfl⟩ := List.getLast?_eq_some_iff.1 hs
    rw [lexemes_append, lexemes_cons_of_lexeme? hl]
    change lexemes l.token.endsStatement C = _
    rw [hends]
    rfl

/-- **The tokens with a parenthesis put in.** -/
theorem run_eq (h : Put text text' n closing A C) : ∃ us ws, us = (lexemes false A).1 ∧
    (Lexer.ofText text).run.1 = us ++ ws ∧
    (Lexer.ofText text').run.1 = us ++ parenLexeme n closing :: ws.map (Lexeme.shift 1) := by
  have hlength : byteLength text' = byteLength text + 1 := by
    rw [h.text_eq, h.text'_eq, byteLength_append, byteLength_append, byteLength_cons]
    have : (parenChar closing).utf8Size = 1 := by cases closing <;> rfl
    omega
  have hrun (text : List Char) : (Lexer.ofText text).run.1 =
      (lexemes false (segments 0 text)).1 ++
        lastLexeme (lexemes false (segments 0 text)).2 (byteLength text) := by
    rw [Lexer.run_eq_lexemes]
    simp [Lexer.ofText]
  have hpos : ∀ s ∈ C, s.start ≠ 0 := fun s hs => by
    have := h.le_start hs
    have := h.pos
    omega
  refine ⟨_, _, rfl, (hrun text).trans (by rw [h.split, lexemes_append, List.append_assoc]), ?_⟩
  rw [hrun text', h.put, lexemes_append, lexemes_cons_of_lexeme? lexeme?_parenAt,
    lexemes_shift hpos, hlength, lastLexeme_shift, h.lexemes_eq, List.map_append,
    List.append_assoc]
  rfl

end Put

/-! ## The segments of a token -/

/-- The segments before a token in a run. -/
theorem exists_segments {text : List Char} {us ls : List Lexeme}
    (h : (Lexer.ofText text).run.1 = us ++ l :: ls) (hl : l.isInserted = false) :
    ∃ A s C, segments 0 text = A ++ s :: C ∧ s.lexeme? = some l ∧ (lexemes false A).1 = us := by
  obtain ⟨s, hs, hlexeme⟩ := mem_run.1 ⟨h ▸ List.mem_append_right us List.mem_cons_self, hl⟩
  obtain ⟨A, C, hsplit⟩ := List.append_of_mem hs
  refine ⟨A, s, C, hsplit, hlexeme, ?_⟩
  have hlexemes := (Lexer.ofText text).run_eq_lexemes
  have hstart : (Lexer.ofText text).canEnd = false ∧ (Lexer.ofText text).pos = 0 ∧
      (Lexer.ofText text).rest = text := ⟨rfl, rfl, rfl⟩
  rw [hstart.1, hstart.2.1, hstart.2.2, hsplit, lexemes_append, lexemes_cons_of_lexeme? hlexeme,
    List.append_assoc, List.cons_append] at hlexemes
  have hlt : l.start < l.stop := by
    obtain ⟨t, -, rfl⟩ := Option.map_eq_some_iff.1 hlexeme
    exact s.start_lt_stop
  -- the token stands once in the run
  have hordered := hlexemes ▸ (Lexer.ofText text).run_ordered.1
  have hbefore := (List.pairwise_append.1 hordered).2.2
  have hbehind := (List.pairwise_cons.1 (List.pairwise_append.1 hordered).2.1).1
  refine ((List.append_cons_inj_of_notMem (fun hmem => ?_) fun hmem => ?_).1
    (hlexemes.symm.trans h)).1
  · have := hbefore l hmem l List.mem_cons_self
    omega
  · have := hbehind l hmem
    omega

theorem punct_of_point {p : Punct} {cs : List Char} (h : p.text.toList <+: '.' :: cs) :
    p = .dot ∨ p = .ellipsis := by
  obtain ⟨d, ds, hd, -⟩ := punct_head p
  rw [hd, List.cons_prefix_cons] at h
  obtain ⟨rfl, -⟩ := h
  cases p <;> first | exact .inl rfl | exact .inr rfl | (revert hd; simp [Punct.text])

/-- A token with a point in front is an operator, or a number with more characters. -/
theorem token?_of_point (hs : s ∈ segments pos cs) (hpoint : s.head = '.')
    (hfault : s.fault? = none) (ht : s.token? = some t) :
    t = .punct .dot ∨ t = .punct .ellipsis ∨ s.kind = .number ∧ s.tail ≠ [] := by
  obtain ⟨front, c, back, -, rfl⟩ := mem_segments hs
  obtain rfl : c = '.' := hpoint
  rw [Segment.token?, hfault] at ht
  by_cases hnumber : startsNumber '.' back = true
  · have hscan := scan_number hnumber
    refine .inr (.inr ⟨congrArg Prod.fst hscan, ?_⟩)
    rcases startsNumber_cases hnumber with hdigit | ⟨-, hdigit⟩
    · cases hdigit
    · obtain ⟨d, hd, hdigit⟩ := (Option.any_eq_true _ _).1 hdigit
      obtain ⟨ds, rfl⟩ := List.head?_eq_some_iff.1 hd
      rw [Segment.front, hscan,
        numberExtent_cons_of_continues (.inl (isNumberPart_of_isDigit hdigit))]
      exact List.cons_ne_nil _ _
  · have hpiece := scan_isPiece '.' back
    change (scan '.' back).1.token? _ = some t at ht
    generalize (scan '.' back).1 = k, (scan '.' back).2 = n at hpiece ht
    cases hpiece with
    | blank hc => cases hc
    | lineFeed hc => cases hc
    | carriageReturn hc => cases hc
    | orderMark hc => cases hc
    | word hc => exact absurd hc (by decide)
    | number hc => exact absurd hc hnumber
    | comment hc => cases hc
    | quoted h => rcases scanQuoted_cases h with h | h | h <;> cases h
    | stray => cases ht
    | punct h =>
      obtain ⟨p, hp, hk⟩ := Option.map_eq_some_iff.1 h
      cases hk
      cases ht
      rcases punct_of_point (longest?_eq_some hp) with rfl | rfl
      · exact .inl rfl
      · exact .inr (.inl rfl)

/-- A comment up to the end of its line ends before a line end. -/
theorem isLineEnd_behind (h : segments pos cs = A ++ a :: s :: C) (ha : a.kind = .lineComment) :
    isLineEnd s.head = true := by
  obtain ⟨c, ds, htext, rfl, -, -⟩ := segments_eq_cons (segments_behind h).symm
  rw [textOf_cons, textOf_cons] at htext
  have hds : ds = ds.take (scan c ds).2 ++ s.head :: (s.tail ++ textOf C) :=
    (List.cons.inj htext).2.symm
  have hpiece := scan_isPiece c ds
  have hkind : (scan c ds).1 = .lineComment := ha
  rw [hkind] at hpiece
  generalize (scan c ds).2 = m at hds hpiece
  cases hpiece with
  | comment hc hscan =>
    rcases scanComment_kind hscan with ⟨-, es', rfl, rfl⟩ | ⟨_, hclosed⟩
    · rw [List.take_succ_cons, List.cons_append] at hds
      have hdrop : es'.dropWhile (!isLineEnd ·) = s.head :: (s.tail ++ textOf C) := by
        have htail := (List.cons.inj hds).2
        rw [← List.prefix_iff_eq_take.1 (List.takeWhile_prefix _)] at htail
        exact List.append_cancel_left (List.takeWhile_append_dropWhile.trans htail)
      have := List.head?_dropWhile_not (!isLineEnd ·) es'
      rw [hdrop] at this
      simpa using this
    · cases hclosed
  | quoted hscan => rcases scanQuoted_kind hscan with h | h | h <;> cases h
  | punct hscan =>
    obtain ⟨_, hp⟩ := scanPunct_kind hscan
    cases hp

/-- What begins with a line end is no token. -/
theorem lexeme?_of_isLineEnd (hs : s ∈ segments pos cs) (h : isLineEnd s.head = true) :
    s.lexeme? = none := by
  obtain ⟨front, c, back, -, rfl⟩ := mem_segments hs
  rw [isLineEnd, Bool.or_eq_true, beq_iff_eq, beq_iff_eq] at h
  obtain rfl | rfl := (h : c = '\n' ∨ c = '\r') <;> rfl

/-! ## Putting in a parenthesis -/

/-- The text with a character more at byte `n`; the same if none begins there. -/
def insertAt (text : List Char) (n : Nat) (c : Char) : List Char :=
  match cut? text n with
  | some (front, back) => front ++ c :: back
  | none => text

theorem insertAt_append (front back : List Char) (c : Char) :
    insertAt (front ++ back) (byteLength front) c = front ++ c :: back := by
  rw [insertAt, cut?_append]

section

variable {text : List Char} {us ls : List Lexeme}

theorem Put.of_split (closing : Bool) (hfaultless : ∀ s ∈ segments 0 text, s.fault? = none)
    (hsplit : segments 0 text = A ++ C) (hA : OpenEnded A (textOf C)) (hn : byteLength (textOf A) = n)
    (hpos : 0 < n) (hopens : closing = false → ∃ s ∈ C.head?, s.lexeme?.isSome = true)
    (hcloses : closing = true →
      ∃ s ∈ A.getLast?, s.lexeme?.any (·.token.endsStatement) = true) :
    Put text (insertAt text n (parenChar closing)) n closing A C := by
  have htext : text = textOf A ++ textOf C := by
    rw [← textOf_append, ← hsplit, textOf_segments]
  refine ⟨hfaultless, hsplit, ?_, hn, hpos, hopens, hcloses⟩
  conv_lhs => rw [htext, ← hn, insertAt_append]
  rw [segments_put hsplit hA closing, hn]

/-- **An opening parenthesis before what a type begins with.** -/
theorem exists_put_opening (hfaultless : ∀ s ∈ segments 0 text, s.fault? = none)
    (hrun : (Lexer.ofText text).run.1 = us ++ l :: ls) (hl : l.isInserted = false)
    (hstarts : l.token.startsType = true) (hpos : 0 < l.start) :
    ∃ A C, Put text (insertAt text l.start '(') l.start false A C ∧ (lexemes false A).1 = us := by
  obtain ⟨A, s, C, hsplit, hlexeme, hus⟩ := exists_segments hrun hl
  obtain ⟨t, ht, rfl⟩ := Option.map_eq_some_iff.1 hlexeme
  have hs : s ∈ segments 0 text := hsplit ▸ List.mem_append_right A List.mem_cons_self
  have hstart := start_of_split hsplit
  rw [Nat.zero_add] at hstart
  refine ⟨A, s :: C, Put.of_split false hfaultless hsplit ⟨?_, ?_, ?_⟩ hstart.symm hpos ?_
    (by rintro ⟨⟩), hus⟩
  · exact fun a ha => hfaultless a (hsplit ▸ List.mem_append_left _ ha)
  · intro a ha hkind
    obtain ⟨A, rfl⟩ := List.getLast?_eq_some_iff.1 ha
    rw [List.append_assoc] at hsplit
    rw [lexeme?_of_isLineEnd hs (isLineEnd_behind hsplit hkind)] at hlexeme
    cases hlexeme
  · -- what begins with a point is no type
    intro a _ _ hpoint
    have hhead : s.head = '.' := Option.some.inj hpoint
    rcases token?_of_point hs hhead (hfaultless s hs) ht with rfl | rfl | ⟨hkind, -⟩
    · cases hstarts
    · cases hstarts
    · rw [Segment.token?, hfaultless s hs, hkind] at ht
      cases ht
      cases hstarts
  · exact fun _ => ⟨s, rfl, by rw [hlexeme]; rfl⟩

/-- **A closing parenthesis behind what may end a statement.** -/
theorem exists_put_closing (hfaultless : ∀ s ∈ segments 0 text, s.fault? = none)
    (hrun : (Lexer.ofText text).run.1 = us ++ l :: ls) (hl : l.isInserted = false)
    (hends : l.token.endsStatement = true) :
    ∃ A C, Put text (insertAt text l.stop ')') l.stop true A C ∧
      (lexemes false A).1 = us ++ [l] := by
  obtain ⟨A, s, C, hsplit, hlexeme, hus⟩ := exists_segments hrun hl
  obtain ⟨t, ht, rfl⟩ := Option.map_eq_some_iff.1 hlexeme
  have hs : s ∈ segments 0 text := hsplit ▸ List.mem_append_right A List.mem_cons_self
  have hstart := start_of_split hsplit
  rw [Nat.zero_add] at hstart
  have hstop : byteLength (textOf (A ++ [s])) = s.stop := by
    rw [textOf_append, byteLength_append, ← hstart, textOf_cons, textOf_nil, List.append_nil]
    rfl
  have hlt := s.start_lt_stop
  have hsplit' : segments 0 text = A ++ [s] ++ C := by rw [hsplit, List.append_assoc]; rfl
  refine ⟨A ++ [s], C, Put.of_split true hfaultless hsplit' ⟨?_, ?_, ?_⟩ hstop ?_ (by rintro ⟨⟩) ?_,
    ?_⟩
  · exact fun a ha => hfaultless a (hsplit' ▸ List.mem_append_left _ ha)
  · intro a ha hkind
    obtain rfl : s = a := by simpa using ha
    rw [Segment.token?, hfaultless s hs, hkind] at ht
    cases ht
  · -- a point by itself ends no statement
    intro a ha hpoint
    obtain rfl : s = a := by simpa using ha
    obtain ⟨hhead, htail⟩ := List.cons.inj hpoint
    rcases token?_of_point hs hhead (hfaultless s hs) ht with rfl | rfl | ⟨-, hne⟩
    · cases hends
    · cases hends
    · exact absurd htail hne
  · change 0 < s.stop
    omega
  · exact fun _ => ⟨s, by simp, by rw [hlexeme]; exact hends⟩
  · rw [lexemes_append, hus, lexemes_cons_of_lexeme? hlexeme]
    rfl

end

end

end GoDecls
