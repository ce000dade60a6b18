/-
  A text cut into its pieces, and what the lexer makes of each.

  * `segments` are the pieces of a text in order, each with its place; nothing is
    lost between them (`flatMap_text_segments`);
  * a segment may be a token (`Segment.token?`), be a comment
    (`Segment.comment?`), be at fault (`Segment.fault?`) and hold a line end that
    counts (`Segment.lineEnd?`);
  * `read_eq`: reading a piece does with the segment what these four say, whatever
    its kind;
  * `filter_run`, `run_comments` and `run_diagnostics`: the tokens of the text, the
    comments and the diagnostics of a run are those of the segments;
  * `errorsIn`: the tokens at fault, whose spans the diagnostics have.
-/
import GoDecls.Proofs.Token.Semicolons
import Mathlib.Data.List.Basic

namespace GoDecls

open Scan Text

/-! ## Segments -/

/-- The token that a piece with the text `cs` is, if it is one without a fault. -/
def Piece.token? (cs : List Char) : Piece → Option Token
  | .word => some (Lexer.wordToken cs)
  | .number => some (.number (numberKind cs) (String.ofList cs))
  | .rune => some (.rune (String.ofList cs))
  | .string => some (.string (String.ofList cs))
  | .rawString => some (.rawString (String.ofList cs))
  | .punct p => some (.punct p)
  | _ => none

/-- A comment and where it stands, at any place of a text. -/
structure Remark where
  kind : CommentKind
  start : Nat
  stop : Nat

/-- The comment as it is recorded. -/
def Remark.comment (n : Remark) : Comment := ⟨n.kind, .ofOffsets n.start n.stop⟩

/-- A piece of a text, and the byte where it begins.  It has a first character. -/
structure Segment where
  start : Nat
  kind : Piece
  head : Char
  tail : List Char

namespace Segment

/-- The characters of the segment. -/
def text (s : Segment) : List Char := s.head :: s.tail

/-- The byte behind the segment. -/
def stop (s : Segment) : Nat := s.start + byteLength s.text

theorem start_lt_stop (s : Segment) : s.start < s.stop := by
  have := Char.utf8Size_pos s.head
  simp only [stop, text, byteLength_cons]
  omega

/-- The segment at `c`, behind which `cs` is left of the text. -/
def front (pos : Nat) (c : Char) (cs : List Char) : Segment :=
  ⟨pos, (scan c cs).1, c, cs.take (scan c cs).2⟩

/-- What is wrong with the segment. -/
def fault? (s : Segment) : Option LexFault :=
  match s.kind with
  | .orderMark => if s.start = 0 then none else some .invalidToken
  | .blockComment false => some .unterminatedComment
  | .stray => some (strayFault s.head)
  | _ => none

/-- The kind of the comment that the segment is. -/
def comment? (s : Segment) : Option CommentKind :=
  match s.kind with
  | .lineComment => some .line
  | .blockComment _ => some .block
  | _ => none

/-- The token that the segment is; what is at fault counts as one. -/
def token? (s : Segment) : Option Token :=
  match s.fault? with
  | some _ => some .error
  | none => s.kind.token? s.text

/-- The byte where a line ends that counts: in a token none does. -/
def lineEnd? (s : Segment) : Option Nat :=
  match s.kind with
  | .lineEnd => some s.start
  | .blockComment true => (Lexer.lineEndOffset? s.text).map (s.start + ·)
  | _ => none

/-- The token where it stands. -/
def lexeme? (s : Segment) : Option Lexeme := s.token?.map (⟨s.start, ·, s.stop⟩)

/-- The comment where it stands. -/
def remark? (s : Segment) : Option Remark := s.comment?.map (⟨·, s.start, s.stop⟩)

/-- The diagnostic of the fault. -/
def diagnostic? (s : Segment) : Option Diagnostic :=
  s.fault?.map (⟨.ofOffsets s.start s.stop, .lex ·⟩)

end Segment

/-- The pieces of a text that begins at byte `pos`. -/
def segments (pos : Nat) : List Char → List Segment
  | [] => []
  | c :: cs =>
    .front pos c cs :: segments (Segment.front pos c cs).stop (cs.drop (scan c cs).2)
termination_by cs => cs.length
decreasing_by
  rw [List.length_drop, List.length_cons]
  omega

/-- Nothing is lost between the pieces. -/
theorem flatMap_text_segments (pos : Nat) (cs : List Char) :
    (segments pos cs).flatMap (·.text) = cs := by
  fun_induction segments pos cs with
  | case1 => rfl
  | case2 pos c cs ih =>
    rw [List.flatMap_cons, ih]
    simp [Segment.front, Segment.text]

/-! ## The lexer -/

namespace Lexer

variable {l : Lexer} {c : Char} {cs : List Char}

/-- The lexer behind a piece, with what is recorded of it. -/
def behind (l : Lexer) (c : Char) (cs : List Char) : Lexer :=
  let s := Segment.front l.pos c cs
  { l with
    rest := cs.drop (scan c cs).2
    pos := s.stop
    comments := l.comments ++ (s.remark?.map Remark.comment).toList
    diagnostics := l.diagnostics ++ s.diagnostic?.toList }

/-- **Reading by segments.**  A segment that is a token gives it, and any other
    settles the semicolon that is due at its line end; comments and faults are
    recorded in both cases. -/
theorem read_eq (l : Lexer) (c : Char) (cs : List Char) :
    l.read c cs = match (Segment.front l.pos c cs).lexeme? with
      | some t => (some t, { l.behind c cs with canEnd := t.token.endsStatement })
      | none => (l.behind c cs).settle (Segment.front l.pos c cs).lineEnd? := by
  simp only [read, behind, Segment.front, Segment.lexeme?, Segment.token?, Segment.fault?,
    Segment.remark?, Segment.comment?, Segment.diagnostic?, Segment.lineEnd?]
  split <;> rename_i h <;>
    simp only [h, Segment.text, Segment.stop, Remark.comment, Piece.token?, Option.map_none,
      Option.map_some, Option.toList_none, Option.toList_some, List.append_nil, settle_none, note,
      emit, reject]
  -- only a byte order mark is judged by its place
  by_cases hpos : l.pos = 0 <;> simp [hpos]

theorem settle_comments (l : Lexer) (p : Option Nat) : (l.settle p).2.comments = l.comments := by
  unfold settle
  split <;> rfl

theorem settle_diagnostics (l : Lexer) (p : Option Nat) :
    (l.settle p).2.diagnostics = l.diagnostics := by
  unfold settle
  split <;> rfl

theorem read_comments (l : Lexer) (c : Char) (cs : List Char) :
    (l.read c cs).2.comments =
      l.comments ++ ((Segment.front l.pos c cs).remark?.map Remark.comment).toList := by
  rw [read_eq]
  split
  · rfl
  · rw [settle_comments, behind]

theorem read_diagnostics (l : Lexer) (c : Char) (cs : List Char) :
    (l.read c cs).2.diagnostics = l.diagnostics ++ (Segment.front l.pos c cs).diagnostic?.toList := by
  rw [read_eq]
  split
  · rfl
  · rw [settle_diagnostics, behind]

/-- A semicolon that is settled is an inserted one. -/
theorem isInserted_of_settle {p : Option Nat} {t : Lexeme} (h : (l.settle p).1 = some t) :
    t.isInserted = true := by
  unfold settle at h
  split at h
  · cases h
    simp [Lexeme.isInserted, Lexeme.inserted]
  · cases h

/-- A segment is no inserted semicolon. -/
theorem not_isInserted_of_lexeme? {s : Segment} {t : Lexeme} (h : s.lexeme? = some t) :
    t.isInserted = false := by
  obtain ⟨u, -, rfl⟩ := Option.map_eq_some_iff.1 h
  have := s.start_lt_stop
  simp only [Lexeme.isInserted, Bool.and_eq_false_iff, beq_eq_false_iff_ne]
  exact .inr (Nat.ne_of_lt this)

/-- The token of the text that reading a piece gives, if it gives one. -/
theorem filter_read (l : Lexer) (c : Char) (cs : List Char) :
    (l.read c cs).1.toList.filter (!·.isInserted) =
      (Segment.front l.pos c cs).lexeme?.toList := by
  rw [read_eq]
  split
  · next t ht =>
    rw [ht]
    simp [not_isInserted_of_lexeme? ht]
  · next ht =>
    rw [ht]
    cases hs : ((l.behind c cs).settle (Segment.front l.pos c cs).lineEnd?).1 with
    | none => rfl
    | some t => simp [isInserted_of_settle hs]

/-! ## Runs -/

theorem run_last_of_next (l : Lexer) : l.run.2 = match l.next with
    | (none, l') => l'
    | (some _, l') => l'.run.2 := by
  rw [run]
  split <;> next hn => rw [hn]

/-- The lexer at the end of a text that is at its end. -/
theorem run_last_of_nil (h : l.rest = []) : l.run.2 = { l with canEnd := false } := by
  have hlast : next { l with canEnd := false } = (none, { l with canEnd := false }) :=
    next_of_nil h
  rw [run_last_of_next, next_of_nil h]
  cases hc : l.canEnd with
  | false =>
    simp only [settle, hc]
    rw [← hc]
  | true =>
    simp only [settle, hc]
    rw [run_last_of_next, hlast]

/-- The lexer at the end of a text with a piece at its front. -/
theorem run_last_of_cons (h : l.rest = c :: cs) : l.run.2 = (l.read c cs).2.run.2 := by
  rw [run_last_of_next, next_of_cons h]
  obtain ⟨t | t, l'⟩ := l.read c cs
  · exact (run_last_of_next l').symm
  · rfl

/-- What holds at the end of a text, and before each piece if behind it, holds. -/
theorem induction_on {P : Lexer → Prop} (nil : ∀ l, l.rest = [] → P l)
    (piece : ∀ l c cs, l.rest = c :: cs → P (l.read c cs).2 → P l) (l : Lexer) : P l := by
  cases hrest : l.rest with
  | nil => exact nil l hrest
  | cons c cs => exact piece l c cs hrest (induction_on nil piece _)
termination_by l.rest.length
decreasing_by
  rw [read_rest, hrest, List.length_drop, List.length_cons]
  omega

theorem filterMap_cons_toList {α β : Type} (f : α → Option β) (a : α) (as : List α) :
    (a :: as).filterMap f = (f a).toList ++ as.filterMap f := by
  simp only [List.filterMap_eq_flatMap_toList, List.flatMap_cons]

/-- The segments behind the first. -/
theorem segments_of_cons (h : l.rest = c :: cs) : segments l.pos l.rest =
    .front l.pos c cs :: segments (l.read c cs).2.pos (l.read c cs).2.rest := by
  rw [h, segments, read_pos, read_rest]
  rfl

/-- **The comments of a run** are the segments that are comments. -/
theorem run_comments (l : Lexer) :
    l.run.2.comments =
      l.comments ++ ((segments l.pos l.rest).filterMap Segment.remark?).map Remark.comment := by
  induction l using induction_on with
  | nil l h =>
    rw [run_last_of_nil h, h, segments, List.filterMap_nil, List.map_nil, List.append_nil]
  | piece l c cs h ih =>
    rw [run_last_of_cons h, ih, read_comments, segments_of_cons h, List.append_assoc,
      filterMap_cons_toList, List.map_append]
    cases (Segment.front l.pos c cs).remark? <;> rfl

/-- **The diagnostics of a run** are the faults of the segments. -/
theorem run_diagnostics (l : Lexer) :
    l.run.2.diagnostics = l.diagnostics ++ (segments l.pos l.rest).filterMap Segment.diagnostic? := by
  induction l using induction_on with
  | nil l h => rw [run_last_of_nil h, h, segments, List.filterMap_nil, List.append_nil]
  | piece l c cs h ih =>
    rw [run_last_of_cons h, ih, read_diagnostics, segments_of_cons h, List.append_assoc,
      filterMap_cons_toList]

/-- **The tokens of the text** in a run are the segments that are tokens. -/
theorem filter_run (l : Lexer) :
    l.run.1.filter (!·.isInserted) = (segments l.pos l.rest).filterMap Segment.lexeme? := by
  induction l using induction_on with
  | nil l h =>
    rw [run_of_nil h, h, segments, List.filterMap_nil]
    split <;> simp [Lexeme.isInserted, Lexeme.inserted]
  | piece l c cs h ih =>
    rw [run_of_cons h, List.filter_append, ih, filter_read, segments_of_cons h,
      filterMap_cons_toList]

end Lexer

/-! ## Faults and the tokens at fault -/

/-- The tokens at fault. -/
def errorsIn (ts : List Lexeme) : List Lexeme := ts.filter (·.token = .error)

theorem Piece.token?_ne_error (k : Piece) (cs : List Char) : k.token? cs ≠ some .error := by
  cases k <;> simp only [Piece.token?, ne_eq, reduceCtorEq, not_false_eq_true, Option.some.injEq]
  unfold Lexer.wordToken
  split <;> simp

/-- What is at fault is a token at fault, with the same span. -/
theorem Segment.span_of_diagnostic? (s : Segment) :
    s.diagnostic?.toList.map (·.span) = (errorsIn s.lexeme?.toList).map Lexeme.span := by
  cases hfault : s.fault? with
  | some f =>
    have htoken : s.token? = some .error := by rw [token?, hfault]
    rw [diagnostic?, hfault, lexeme?, htoken]
    rfl
  | none =>
    have htoken : s.token? = s.kind.token? s.text := by rw [token?, hfault]
    have herror := s.kind.token?_ne_error s.text
    rw [diagnostic?, hfault, lexeme?, htoken]
    cases hkind : s.kind.token? s.text with
    | none => rfl
    | some t =>
      have ht : t ≠ .error := by
        rintro rfl
        exact herror hkind
      simp [errorsIn, ht]

theorem spans_of_diagnostics (ss : List Segment) :
    (ss.filterMap Segment.diagnostic?).map (·.span) =
      (errorsIn (ss.filterMap Segment.lexeme?)).map Lexeme.span := by
  induction ss with
  | nil => rfl
  | cons s ss ih =>
    rw [Lexer.filterMap_cons_toList, Lexer.filterMap_cons_toList, List.map_append, ih,
      s.span_of_diagnostic?, errorsIn, errorsIn, errorsIn, List.filter_append, List.map_append]

/-- No inserted semicolon is at fault. -/
theorem errorsIn_filter (ts : List Lexeme) : errorsIn (ts.filter (!·.isInserted)) = errorsIn ts := by
  rw [errorsIn, errorsIn, List.filter_filter]
  refine List.filter_congr fun t _ => ?_
  by_cases ht : t.token = .error
  · simp [ht, Lexeme.isInserted]
  · simp [ht]

/-- **The diagnostics of a run** have the spans of its tokens at fault. -/
theorem Lexer.spans_of_run (l : Lexer) : l.run.2.diagnostics.map (·.span) =
    l.diagnostics.map (·.span) ++ (errorsIn l.run.1).map Lexeme.span := by
  rw [run_diagnostics, List.map_append, spans_of_diagnostics, ← filter_run, errorsIn_filter]

end GoDecls
