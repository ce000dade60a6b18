/-
  The lexer gives the same for lines that end with a carriage return and a line feed
  as for lines that end with a line feed alone.

  * `SamePlace text p p'`: as much of the text is before `p` as before `p'` with
    carriage returns put in; both are on the same line (`SamePlace.line_eq`).
    `SameStretch` says so of the two ends of a stretch;
  * `segments_crlf`: the segments of both texts are the same one by one, but for the
    returns in them (`SameSegment`);
  * `read_crlf` and `run_tokens_crlf`: what reading a segment gives, and then a run;
  * `run_crlf`: what this means for tokens, diagnostics and comments.
-/
import GoDecls.Proofs.Comment.Lines
import GoDecls.Proofs.Token.Account
import GoDecls.Proofs.Token.Comments
import GoDecls.Proofs.Token.Crlf
import Mathlib.Data.List.Forall2

namespace GoDecls

open Scan Text

variable {text front back : List Char} {p p' : Nat}

/-! ## Places -/

/-- The two places have the same text before them, with a carriage return before
    every line feed at the second. -/
def SamePlace (text : List Char) (p p' : Nat) : Prop :=
  ∃ front back, text = front ++ back ∧ byteLength front = p ∧ byteLength (crlf front) = p'

theorem SamePlace.of_append (front back : List Char) :
    SamePlace (front ++ back) (byteLength front) (byteLength (crlf front)) :=
  ⟨front, back, rfl, rfl, rfl⟩

theorem count_feed_crlf (cs : List Char) : (crlf cs).count '\n' = cs.count '\n' := by
  induction cs with
  | nil => rfl
  | cons c cs ih =>
    by_cases hc : c = '\n'
    · subst hc
      rw [crlf_feed, List.count_cons_of_ne (by decide), List.count_cons_self,
        List.count_cons_self, ih]
    · rw [crlf_cons hc, List.count_cons_of_ne hc, List.count_cons_of_ne hc, ih]

/-- The two places are on the same line. -/
theorem SamePlace.line_eq (h : SamePlace text p p') (ts ts' : List Lexeme)
    (cs cs' : List Comment) :
    (Layout.of (crlf text) ts' cs').line p' = (Layout.of text ts cs).line p := by
  obtain ⟨front, back, rfl, rfl, rfl⟩ := h
  have hline := Layout.countP_lineFeedsFrom 0 front back
  have hline' := Layout.countP_lineFeedsFrom 0 (crlf front) (crlf back)
  rw [Nat.zero_add] at hline hline'
  rw [Layout.line, Layout.line, Layout.of, Layout.of, crlf_append, hline, hline', count_feed_crlf]

/-- The stretches are between the same places. -/
def SameStretch (text : List Char) (a b a' b' : Nat) : Prop :=
  ∃ front mid back, text = front ++ mid ++ back ∧
    byteLength front = a ∧ byteLength (front ++ mid) = b ∧
    byteLength (crlf front) = a' ∧ byteLength (crlf (front ++ mid)) = b'

namespace SameStretch

variable {a b a' b' : Nat}

theorem first (h : SameStretch text a b a' b') : SamePlace text a a' := by
  obtain ⟨front, mid, back, rfl, rfl, -, rfl, -⟩ := h
  rw [List.append_assoc]
  exact .of_append _ _

theorem last (h : SameStretch text a b a' b') : SamePlace text b b' := by
  obtain ⟨front, mid, back, rfl, -, rfl, -, rfl⟩ := h
  exact .of_append _ _

/-- The stretches cover the same characters, but for the returns. -/
theorem slice (h : SameStretch text a b a' b') (hreturn : '\r' ∉ text) :
    ∃ cs, slice? (crlf text) a' b' = some cs ∧ slice? text a b = some (withoutReturns cs) := by
  obtain ⟨front, mid, back, rfl, rfl, rfl, rfl, rfl⟩ := h
  have hmid : '\r' ∉ mid := fun hmem => hreturn (by simp [hmem])
  refine ⟨crlf mid, ?_, ?_⟩
  · rw [crlf_append, crlf_append, slice?_append]
  · rw [slice?_append, withoutReturns_crlf hmid]

end SameStretch

/-! ## Segments -/

/-- A token with its spelling without carriage returns. -/
def Token.withoutReturns : Token → Token
  | .ident s => .ident (.ofList (GoDecls.withoutReturns s.toList))
  | .number kind s => .number kind (.ofList (GoDecls.withoutReturns s.toList))
  | .rune s => .rune (.ofList (GoDecls.withoutReturns s.toList))
  | .string s => .string (.ofList (GoDecls.withoutReturns s.toList))
  | .rawString s => .rawString (.ofList (GoDecls.withoutReturns s.toList))
  | t => t

theorem Token.endsStatement_withoutReturns (t : Token) :
    t.withoutReturns.endsStatement = t.endsStatement := by
  cases t <;> rfl

/-- The segments are at the same place, of the same kind, and differ in carriage
    returns alone. -/
structure SameSegment (text : List Char) (s s' : Segment) : Prop where
  place : SameStretch text s.start s.stop s'.start s'.stop
  kind : s'.kind = s.kind
  spelled : s'.text = crlf s.text
  fault : s'.fault? = s.fault?

theorem crlf_eq_nil {cs : List Char} : crlf cs = [] ↔ cs = [] := by
  rw [← List.length_eq_zero_iff, ← List.length_eq_zero_iff]
  constructor
  · intro h
    have := le_length_crlf cs
    omega
  · intro h
    rw [List.length_eq_zero_iff.1 h]
    rfl

/-- Segments that begin at the same place and are spelled the same end so. -/
theorem SameSegment.of_spelled {s s' : Segment} (htext : text = front ++ s.text ++ back)
    (hstart : s.start = byteLength front) (hstart' : s'.start = byteLength (crlf front))
    (hkind : s'.kind = s.kind) (hspelled : s'.text = crlf s.text)
    (hhead : s.kind = .stray → s'.head = s.head) : SameSegment text s s' where
  place := by
    refine ⟨front, s.text, back, htext, hstart.symm, ?_, hstart'.symm, ?_⟩
    · rw [Segment.stop, hstart, byteLength_append]
    · rw [Segment.stop, hstart', hspelled, crlf_append, byteLength_append]
  kind := hkind
  spelled := hspelled
  fault := by
    have hzero : s'.start = 0 ↔ s.start = 0 := by
      rw [hstart, hstart', byteLength_eq_zero, byteLength_eq_zero, crlf_eq_nil]
    unfold Segment.fault?
    rw [hkind]
    cases hk : s.kind with
    | orderMark => simp only [hzero]
    | stray => simp only [hhead hk]
    | blockComment closed => cases closed <;> rfl
    | _ => rfl

/-- **The piece in front of a text** is in front of the text with carriage returns. -/
theorem front_crlf {c : Char} {cs : List Char} (htext : text = front ++ c :: cs)
    (hreturn : c ≠ '\r') : ∃ c' cs', crlf (c :: cs) = c' :: cs' ∧
      SameSegment text (.front (byteLength front) c cs) (.front (byteLength (crlf front)) c' cs') ∧
      cs'.drop (scan c' cs').2 = crlf (cs.drop (scan c cs).2) := by
  have hsplit : text = front ++ (Segment.front (byteLength front) c cs).text ++
      cs.drop (scan c cs).2 := by
    rw [htext, Segment.text, Segment.front, List.append_assoc, List.cons_append,
      List.take_append_drop]
  by_cases hc : c = '\n'
  · subst hc
    exact ⟨'\r', '\n' :: crlf cs, rfl, .of_spelled hsplit rfl rfl rfl rfl (fun h => by cases h), rfl⟩
  · have hscan := scan_crlf hc hreturn cs
    refine ⟨c, crlf cs, crlf_cons hc, .of_spelled hsplit rfl rfl ?_ ?_ fun _ => rfl, ?_⟩
    · rw [Segment.front, hscan]
      rfl
    · rw [Segment.text, Segment.text, Segment.front, Segment.front, crlf_cons hc, hscan]
      exact congrArg (c :: ·) (take_crlf cs _)
    · rw [hscan]
      exact drop_crlf cs _

/-- **The segments of both texts are the same.** -/
theorem segments_crlf {pos : Nat} {cs : List Char} (htext : text = front ++ cs)
    (hpos : byteLength front = pos) (hreturn : '\r' ∉ cs) :
    List.Forall₂ (SameSegment text) (segments pos cs)
      (segments (byteLength (crlf front)) (crlf cs)) := by
  fun_induction segments pos cs generalizing front with
  | case1 =>
    rw [crlf_nil, segments]
    exact .nil
  | case2 pos c cs ih =>
    subst hpos
    obtain ⟨hc, hcs⟩ := List.ne_and_not_mem_of_not_mem_cons hreturn
    obtain ⟨c', cs', hcrlf, hsame, hdrop⟩ := front_crlf htext hc.symm
    have hbehind : text = (front ++ (Segment.front (byteLength front) c cs).text) ++
        cs.drop (scan c cs).2 := by
      rw [htext, Segment.text, Segment.front, List.append_assoc, List.cons_append,
        List.take_append_drop]
    have hrest := ih hbehind (byteLength_append _ _) fun h => hcs (List.mem_of_mem_drop h)
    have hstop : (Segment.front (byteLength (crlf front)) c' cs').stop =
        byteLength (crlf (front ++ (Segment.front (byteLength front) c cs).text)) := by
      rw [Segment.stop, hsame.spelled, crlf_append, byteLength_append]
      rfl
    rw [hcrlf, segments, hstop, hdrop]
    exact .cons hsame hrest

/-- A token of the same kind, spelled with the returns, is the same token. -/
theorem token?_crlf {k : Piece} {cs : List Char} (hreturn : '\r' ∉ cs)
    (hplain : k = .word ∨ k = .number → '\n' ∉ cs) :
    (k.token? (crlf cs)).map Token.withoutReturns = k.token? cs := by
  have hback : withoutReturns (crlf cs) = cs := withoutReturns_crlf hreturn
  have hspelling : String.ofList (withoutReturns (String.ofList (crlf cs)).toList) =
      String.ofList cs := by
    rw [String.toList_ofList, hback]
  cases k with
  | word =>
    rw [crlf_of_not_mem (hplain (.inl rfl))] at hspelling ⊢
    simp only [Piece.token?, Option.map_some, Lexer.wordToken]
    split
    · rfl
    · simp only [Token.withoutReturns, hspelling]
  | number =>
    rw [crlf_of_not_mem (hplain (.inr rfl))] at hspelling ⊢
    simp only [Piece.token?, Option.map_some, Token.withoutReturns, hspelling]
  | rune => simp only [Piece.token?, Option.map_some, Token.withoutReturns, hspelling]
  | string => simp only [Piece.token?, Option.map_some, Token.withoutReturns, hspelling]
  | rawString => simp only [Piece.token?, Option.map_some, Token.withoutReturns, hspelling]
  | _ => rfl

namespace SameSegment

variable {pos : Nat} {c : Char} {cs : List Char} {s s' : Segment}

/-- A segment is the same token in both texts. -/
theorem token?_eq (h : SameSegment text (.front pos c cs) s') (hreturn : '\r' ∉ c :: cs) :
    s'.token?.map Token.withoutReturns = (Segment.front pos c cs).token? := by
  have hspelled : '\r' ∉ (Segment.front pos c cs).text := fun hmem => by
    refine hreturn ?_
    rcases List.mem_cons.1 hmem with rfl | hmem
    · exact List.mem_cons_self
    · exact List.mem_cons_of_mem c (List.mem_of_mem_take hmem)
  rw [Segment.token?, Segment.token?, h.fault, h.kind, h.spelled]
  cases (Segment.front pos c cs).fault? with
  | some f => rfl
  | none => exact token?_crlf hspelled fun hk => (scan_isPiece c cs).not_mem_feed hk

/-- A line end counts in both texts or in neither. -/
theorem isSome_lineEnd? (h : SameSegment text s s') :
    s'.lineEnd?.isSome = s.lineEnd?.isSome := by
  unfold Segment.lineEnd?
  rw [h.kind, h.spelled]
  split
  · rfl
  · rw [Option.isSome_map, Option.isSome_map, Lexer.isSome_lineEndOffset?,
      Lexer.isSome_lineEndOffset?, any_crlf rfl]
  · rfl

theorem comment?_eq (h : SameSegment text s s') : s'.comment? = s.comment? := by
  unfold Segment.comment?
  rw [h.kind]

end SameSegment

/-! ## Runs -/

/-- The tokens are the same but for the returns in them, and at the same places if
    they are tokens of the text. -/
structure SameToken (text : List Char) (t t' : Lexeme) : Prop where
  token : t'.token.withoutReturns = t.token
  inserted : t'.isInserted = t.isInserted
  place : t.isInserted = false → SameStretch text t.start t.stop t'.start t'.stop

namespace SameToken

theorem of_inserted (p p' : Nat) : SameToken text (.inserted p) (.inserted p') := by
  have hinserted (q : Nat) : (Lexeme.inserted q).isInserted = true := by
    simp [Lexeme.inserted, Lexeme.isInserted]
  constructor
  case token => rfl
  case inserted => rw [hinserted, hinserted]
  case place => exact fun h => absurd h (by simp [hinserted])

theorem of_segment {s s' : Segment} (h : SameSegment text s s') (t : Token) :
    SameToken text ⟨s.start, t.withoutReturns, s.stop⟩ ⟨s'.start, t, s'.stop⟩ := by
  have hreal (s : Segment) (u : Token) : Lexeme.isInserted ⟨s.start, u, s.stop⟩ = false :=
    Bool.and_eq_false_iff.2 (.inr (beq_eq_false_iff_ne.2 (Nat.ne_of_lt s.start_lt_stop)))
  exact ⟨rfl, by rw [hreal, hreal], fun _ => h.place⟩

end SameToken

namespace Lexer

variable {l l' : Lexer} {c c' : Char} {cs cs' : List Char}

/-- Settling gives the same semicolon, if any, wherever the line ends. -/
theorem settle_crlf {q q' : Option Nat} (hq : q'.isSome = q.isSome) (hdue : l'.canEnd = l.canEnd) :
    List.Forall₂ (SameToken text) (l.settle q).1.toList (l'.settle q').1.toList ∧
      (l'.settle q').2.canEnd = (l.settle q).2.canEnd := by
  cases q with
  | none =>
    obtain rfl := Option.isNone_iff_eq_none.1 (Option.isSome_eq_false_iff.1 hq)
    rw [settle_none, settle_none]
    exact ⟨.nil, hdue⟩
  | some p =>
    obtain ⟨p', rfl⟩ := Option.isSome_iff_exists.1 hq
    obtain ⟨htoken, hcanEnd⟩ := l.settle_eq p
    obtain ⟨htoken', hcanEnd'⟩ := l'.settle_eq p'
    rw [htoken, htoken', hcanEnd, hcanEnd', hdue]
    cases l.canEnd with
    | false => exact ⟨.nil, rfl⟩
    | true => exact ⟨.cons (.of_inserted p p') .nil, rfl⟩

/-- **Reading a segment gives the same** in both texts. -/
theorem read_crlf (hsame : SameSegment text (.front l.pos c cs) (.front l'.pos c' cs'))
    (hreturn : '\r' ∉ c :: cs) (hdue : l'.canEnd = l.canEnd) :
    List.Forall₂ (SameToken text) (l.read c cs).1.toList (l'.read c' cs').1.toList ∧
      (l'.read c' cs').2.canEnd = (l.read c cs).2.canEnd := by
  have htoken := hsame.token?_eq hreturn
  rw [read_eq, read_eq, Segment.lexeme?, Segment.lexeme?, ← htoken]
  cases ht : (Segment.front l'.pos c' cs').token? with
  | none => exact settle_crlf hsame.isSome_lineEnd? hdue
  | some t =>
    have hends : t.endsStatement = t.withoutReturns.endsStatement :=
      t.endsStatement_withoutReturns.symm
    exact ⟨.cons (.of_segment hsame t) .nil, hends⟩

/-- **A run gives the same tokens** in both texts, but for the returns in them. -/
theorem run_tokens_crlf (htext : text = front ++ l.rest) (hreturn : '\r' ∉ l.rest)
    (hpos : byteLength front = l.pos) (hpos' : byteLength (crlf front) = l'.pos)
    (hrest : l'.rest = crlf l.rest) (hdue : l'.canEnd = l.canEnd) :
    List.Forall₂ (SameToken text) l.run.1 l'.run.1 := by
  induction l using induction_on generalizing front l' with
  | nil l h =>
    have h' : l'.rest = [] := by rw [hrest, h, crlf_nil]
    rw [run_of_nil h, run_of_nil h', hdue]
    cases l.canEnd with
    | false => exact .nil
    | true => exact .cons (.of_inserted _ _) .nil
  | piece l c cs h ih =>
    rw [h] at htext hreturn hrest
    obtain ⟨hc, hcs⟩ := List.ne_and_not_mem_of_not_mem_cons hreturn
    obtain ⟨c', cs', hcrlf, hsame, hdrop⟩ := front_crlf htext hc.symm
    rw [hpos, hpos'] at hsame
    rw [hcrlf] at hrest
    obtain ⟨htokens, hcanEnd⟩ := read_crlf hsame hreturn hdue
    have hbehind : text = (front ++ (Segment.front l.pos c cs).text) ++ (l.read c cs).2.rest := by
      rw [htext, read_rest, Segment.text, Segment.front, List.append_assoc, List.cons_append,
        List.take_append_drop]
    have hmore : '\r' ∉ (l.read c cs).2.rest := by
      rw [read_rest]
      exact fun hmem => hcs (List.mem_of_mem_drop hmem)
    have hnext : byteLength (front ++ (Segment.front l.pos c cs).text) = (l.read c cs).2.pos := by
      rw [byteLength_append, hpos, read_pos]
      rfl
    have hnext' : byteLength (crlf (front ++ (Segment.front l.pos c cs).text)) =
        (l'.read c' cs').2.pos := by
      rw [crlf_append, byteLength_append, hpos', read_pos, ← hsame.spelled]
      rfl
    have hrest' : (l'.read c' cs').2.rest = crlf (l.read c cs).2.rest := by
      rw [read_rest, read_rest, hdrop]
    rw [run_of_cons h, run_of_cons hrest]
    exact List.rel_append htokens (ih hbehind hmore hnext hnext' hrest' hcanEnd)

end Lexer

/-! ## What this means for the two texts -/

/-- A comment of the text and one of the text with carriage returns. -/
structure SameRemark (text : List Char) (n n' : Remark) : Prop where
  kind : n'.kind = n.kind
  place : SameStretch text n.start n.stop n'.start n'.stop

theorem segments_ofText_crlf (h : '\r' ∉ text) :
    List.Forall₂ (SameSegment text) (segments 0 text) (segments 0 (crlf text)) := by
  have hfront : text = [] ++ text := rfl
  exact segments_crlf hfront rfl h

/-- The comments are the same. -/
theorem remarks_crlf (h : '\r' ∉ text) :
    List.Forall₂ (SameRemark text) ((segments 0 text).filterMap Segment.remark?)
      ((segments 0 (crlf text)).filterMap Segment.remark?) := by
  refine List.rel_filterMap (fun s s' hs => ?_) (segments_ofText_crlf h)
  rw [Segment.remark?, Segment.remark?, hs.comment?_eq]
  cases s.comment? with
  | none => exact .none
  | some k => exact .some ⟨rfl, hs.place⟩

/-- The faults are the same. -/
theorem faults_crlf (h : '\r' ∉ text) :
    (Lexer.ofText (crlf text)).run.2.diagnostics.map (·.fault) =
      (Lexer.ofText text).run.2.diagnostics.map (·.fault) := by
  have hsame : List.Forall₂ (fun d d' : Diagnostic => d.fault = d'.fault)
      ((segments 0 text).filterMap Segment.diagnostic?)
      ((segments 0 (crlf text)).filterMap Segment.diagnostic?) := by
    refine List.rel_filterMap (fun s s' hs => ?_) (segments_ofText_crlf h)
    rw [Segment.diagnostic?, Segment.diagnostic?, hs.fault]
    cases s.fault? with
    | none => exact .none
    | some f => exact .some rfl
  have hrun (text : List Char) : (Lexer.ofText text).run.2.diagnostics =
      (segments 0 text).filterMap Segment.diagnostic? := (Lexer.ofText text).run_diagnostics
  rw [hrun, hrun, ← List.forall₂_eq_eq_eq, List.forall₂_map_left_iff, List.forall₂_map_right_iff]
  exact hsame.flip.imp fun _ _ h => h.symm

/-- Stretches of a text and of the text with carriage returns that cover the same
    characters, but for the returns, and begin and end on the same lines. -/
structure Matching (text : List Char) (lines lines' : Layout) (a b a' b' : Nat) : Prop where
  covered : ∃ cs, slice? (crlf text) a' b' = some cs ∧ slice? text a b = some (withoutReturns cs)
  firstLine : lines'.line a' = lines.line a
  lastLine : lines'.line b' = lines.line b

theorem SameStretch.matching {a b a' b' : Nat} (h : SameStretch text a b a' b')
    (hreturn : '\r' ∉ text) (ts ts' : List Lexeme) (cs cs' : List Comment) :
    Matching text (.of text ts cs) (.of (crlf text) ts' cs') a b a' b' :=
  ⟨h.slice hreturn, h.first.line_eq ts ts' cs cs', h.last.line_eq ts ts' cs cs'⟩

/-- **Carriage returns before the line feeds do not matter to the lexer.**  With them
    a text has the same tokens, inserted semicolons included, the same faults and the
    same comments, but for the returns in them; and the tokens and comments begin and
    end on the same lines.  Comments are recorded as spans hold them, which is where
    they stand if the text is not too long for that. -/
theorem run_crlf {text : List Char} (h : '\r' ∉ text) :
    let run := (Lexer.ofText text).run
    let run' := (Lexer.ofText (crlf text)).run
    let lines := Layout.of text run.1 run.2.comments
    let lines' := Layout.of (crlf text) run'.1 run'.2.comments
    List.Forall₂ (fun t t' => t'.token.withoutReturns = t.token ∧ t'.isInserted = t.isInserted ∧
      (t.isInserted = false → Matching text lines lines' t.start t.stop t'.start t'.stop))
      run.1 run'.1 ∧
    run'.2.diagnostics.map (·.fault) = run.2.diagnostics.map (·.fault) ∧
    ∃ ns ns', run.2.comments = ns.map Remark.comment ∧ run'.2.comments = ns'.map Remark.comment ∧
      (byteLength text ≤ Span.limit → ∀ n ∈ ns, n.comment.span = ⟨n.start, n.stop⟩) ∧
      (byteLength (crlf text) ≤ Span.limit → ∀ n ∈ ns', n.comment.span = ⟨n.start, n.stop⟩) ∧
      List.Forall₂ (fun n n' => n'.kind = n.kind ∧
        Matching text lines lines' n.start n.stop n'.start n'.stop) ns ns' := by
  intro run run' lines lines'
  have hfront : text = [] ++ (Lexer.ofText text).rest := rfl
  have htokens : List.Forall₂ (SameToken text) run.1 run'.1 :=
    Lexer.run_tokens_crlf hfront h rfl rfl rfl rfl
  refine ⟨htokens.imp fun t t' ht => ⟨ht.token, ht.inserted, fun hreal => ?_⟩, faults_crlf h,
    _, _, (Lexer.ofText text).run_comments, (Lexer.ofText (crlf text)).run_comments,
    fun hlimit _ => span_of_remark hlimit, fun hlimit _ => span_of_remark hlimit,
    (remarks_crlf h).imp fun n n' hn => ⟨hn.kind, ?_⟩⟩
  · exact (ht.place hreal).matching h _ _ _ _
  · exact hn.place.matching h _ _ _ _

/-- Lines end within a comment, within a raw string and behind a backslash. -/
theorem run_crlf_raw :
    let text := "a /* x\n */ `q\nr` '\\\n".toList
    '\r' ∉ text ∧ crlf text = "a /* x\r\n */ `q\r\nr` '\\\r\n".toList ∧
      (Lexer.ofText (crlf text)).run.1.map (·.token) =
        [.ident "a", .punct .semi, .rawString "\x60q\r\nr\x60", .error, .error] ∧
      (Lexer.ofText (crlf text)).run.2.diagnostics.map (·.fault) =
        (Lexer.ofText text).run.2.diagnostics.map (·.fault) := by
  intro text
  have hreturn : '\r' ∉ text := by decide
  refine ⟨hreturn, by decide +kernel, by decide +kernel, (run_crlf hreturn).2.1⟩

end GoDecls
