/-
  A lexer that is asked for tokens, comments and diagnostics in any order.

  * `Session`: a lexer and what it has handed out so far, by `Session.step` for each
    call;
  * `Lexer.Passes l a l' ss`: on its way to the answer `a` the lexer passes the
    segments `ss` and records what they hold; `next_passes`: it does so for each
    token;
  * `Session.Kept`: what any call keeps, so what holds after any row of calls
    (`Session.kept_run`);
  * `session_account`: what this means for the text.
-/
import GoDecls.Proofs.Token.Account
import GoDecls.Proofs.Token.Lexemes

namespace GoDecls

open Scan Text

variable {text : List Char}

/-- A comment in which a line ends begins before that. -/
theorem start_lt_of_lineEnd? {pos p : Nat} {c : Char} {cs : List Char} {k : CommentKind}
    (hk : (Segment.front pos c cs).comment? = some k)
    (hp : (Segment.front pos c cs).lineEnd? = some p) : pos < p := by
  have hkind : (scan c cs).1 = .blockComment true := by
    cases hkind : (scan c cs).1 with
    | blockComment closed =>
      cases closed with
      | true => rfl
      | false => simp [Segment.lineEnd?, Segment.front, hkind] at hp
    | lineComment => simp [Segment.lineEnd?, Segment.front, hkind] at hp
    | _ => simp [Segment.comment?, Segment.front, hkind] at hk
  obtain ⟨rfl, -⟩ := blockComment_cases hkind
  simp only [Segment.lineEnd?, Segment.front, hkind, Segment.text, Option.map_eq_some_iff] at hp
  obtain ⟨n, hn, rfl⟩ := hp
  have hslash : isLineEnd '/' = false := rfl
  rw [Lexer.lineEndOffset?_cons, hslash] at hn
  obtain ⟨m, -, rfl⟩ := Option.map_eq_some_iff.1 hn
  have := Char.utf8Size_pos '/'
  omega

/-! ## One token -/

namespace Lexer

variable {l l' : Lexer} {a : Option Lexeme} {ss : List Segment} {c : Char} {cs : List Char}

/-- From `l` the answer `a` is found at `l'`, behind the segments `ss`. -/
structure Passes (l : Lexer) (a : Option Lexeme) (l' : Lexer) (ss : List Segment) : Prop where
  segments : segments l.pos l.rest = ss ++ segments l'.pos l'.rest
  comments : l'.comments = l.comments ++ (ss.filterMap Segment.remark?).map Remark.comment
  diagnostics : l'.diagnostics = l.diagnostics ++ ss.filterMap Segment.diagnostic?
  tokens : ss.filterMap Segment.lexeme? = a.toList.filter (!·.isInserted)
  pos_le : l.pos ≤ l'.pos
  stop_le : ∀ s ∈ ss, s.stop ≤ l'.pos
  within : ∀ t ∈ a, l.pos ≤ t.start ∧ t.start ≤ t.stop ∧ t.stop ≤ l'.pos
  /-- A comment on the way begins before the token, or it is that token. -/
  before : ∀ t ∈ a, ∀ s ∈ ss, s.comment? ≠ none → s.start < t.start ∨ s.lexeme? = some t
  /-- Without a token the text is at its end, and nothing is due there. -/
  at_end : a = none → l'.rest = [] ∧ l'.canEnd = false

/-- A comment begins before the semicolon that is settled in it. -/
theorem start_lt_or_of_read {t : Lexeme} (hr : (l.read c cs).1 = some t)
    (hk : (Segment.front l.pos c cs).comment? ≠ none) :
    l.pos < t.start ∨ (Segment.front l.pos c cs).lexeme? = some t := by
  rw [read_eq] at hr
  split at hr
  · next u hu =>
    cases hr
    exact .inr hu
  · obtain ⟨k, hk⟩ := Option.ne_none_iff_exists'.1 hk
    cases hp : (Segment.front l.pos c cs).lineEnd? with
    | none =>
      rw [hp, settle_none] at hr
      cases hr
    | some p =>
      rw [hp, (settle_eq _ p).1] at hr
      split at hr
      · cases hr
        exact .inl (start_lt_of_lineEnd? hk hp)
      · cases hr

/-- At the end of the text there is the semicolon that is due, and then nothing. -/
theorem passes_nil (h : l.rest = []) :
    l.Passes (l.settle (some l.pos)).1 (l.settle (some l.pos)).2 [] := by
  obtain ⟨htoken, hdue⟩ := l.settle_eq l.pos
  have hpos := l.settle_pos (some l.pos)
  have hrest := l.settle_rest (some l.pos)
  constructor
  case segments => rw [hpos, hrest, List.nil_append]
  case comments => rw [settle_comments, List.filterMap_nil, List.map_nil, List.append_nil]
  case diagnostics => rw [settle_diagnostics, List.filterMap_nil, List.append_nil]
  case tokens =>
    rw [htoken]
    split <;> simp [Lexeme.isInserted, Lexeme.inserted]
  case pos_le => exact Nat.le_of_eq hpos.symm
  case stop_le => exact List.forall_mem_nil _
  case within =>
    intro t ht
    rw [htoken] at ht
    split at ht
    · cases ht
      exact ⟨Nat.le_refl _, Nat.le_refl _, Nat.le_of_eq hpos.symm⟩
    · cases ht
  case before => exact fun t _ => List.forall_mem_nil _
  case at_end => exact fun _ => ⟨hrest.trans h, hdue⟩

/-- A piece that gives a token is all that is passed. -/
theorem passes_token {t : Lexeme} (h : l.rest = c :: cs) (hr : l.read c cs = (some t, l')) :
    l.Passes (some t) l' [.front l.pos c cs] := by
  obtain ⟨htoken, rfl⟩ := Prod.ext_iff.1 hr
  have hpos := l.read_pos c cs
  constructor
  case segments => exact segments_of_cons h
  case comments =>
    rw [read_comments, filterMap_cons_toList, List.filterMap_nil, List.append_nil]
    cases (Segment.front l.pos c cs).remark? <;> rfl
  case diagnostics =>
    rw [read_diagnostics, filterMap_cons_toList, List.filterMap_nil, List.append_nil]
  case tokens =>
    rw [filterMap_cons_toList, List.filterMap_nil, List.append_nil, ← filter_read, htoken]
  case pos_le => exact hpos ▸ Nat.le_add_right _ _
  case stop_le =>
    refine List.forall_mem_singleton.2 ?_
    exact Nat.le_of_eq hpos.symm
  case within =>
    rintro _ ⟨⟩
    exact read_within htoken
  case before =>
    rintro _ ⟨⟩
    refine List.forall_mem_singleton.2 ?_
    exact start_lt_or_of_read htoken
  case at_end => exact nofun

/-- A piece that gives nothing is passed on the way. -/
theorem Passes.gap (h : l.rest = c :: cs) (hnone : (l.read c cs).1 = none)
    (hp : (l.read c cs).2.Passes a l' ss) : l.Passes a l' (.front l.pos c cs :: ss) := by
  have hpos := l.read_pos c cs
  have hstop : (Segment.front l.pos c cs).stop = (l.read c cs).2.pos := hpos.symm
  have hle : l.pos ≤ (l.read c cs).2.pos := hpos ▸ Nat.le_add_right _ _
  have hlexeme : (Segment.front l.pos c cs).lexeme? = none := by
    have := filter_read l c cs
    rw [hnone] at this
    exact Option.toList_eq_nil_iff.1 this.symm
  constructor
  case segments => rw [segments_of_cons h, hp.segments, List.cons_append]
  case comments =>
    rw [hp.comments, read_comments, filterMap_cons_toList, List.append_assoc, List.map_append]
    cases (Segment.front l.pos c cs).remark? <;> rfl
  case diagnostics =>
    rw [hp.diagnostics, read_diagnostics, filterMap_cons_toList, List.append_assoc]
  case tokens => rw [List.filterMap_cons_none hlexeme, hp.tokens]
  case pos_le => exact Nat.le_trans hle hp.pos_le
  case stop_le => exact List.forall_mem_cons.2 ⟨hstop ▸ hp.pos_le, hp.stop_le⟩
  case within =>
    intro t ht
    obtain ⟨hstart, hwithin⟩ := hp.within t ht
    exact ⟨Nat.le_trans hle hstart, hwithin⟩
  case before =>
    intro t ht
    refine List.forall_mem_cons.2 ⟨fun _ => .inl ?_, hp.before t ht⟩
    have hlt := (Segment.front l.pos c cs).start_lt_stop
    exact Nat.lt_of_lt_of_le hlt (hstop ▸ (hp.within t ht).1)
  case at_end => exact hp.at_end

/-- **What a call for a token passes.** -/
theorem next_passes (l : Lexer) : ∃ ss, l.Passes l.next.1 l.next.2 ss := by
  induction l using induction_on with
  | nil l h =>
    rw [next_of_nil h]
    exact ⟨[], passes_nil h⟩
  | piece l c cs h ih =>
    rw [next_of_cons h]
    rcases hr : l.read c cs with ⟨_ | t, l'⟩
    · obtain ⟨ss, hss⟩ := ih
      have hgap := hss.gap h (by rw [hr])
      rw [hr] at hgap
      exact ⟨_, hgap⟩
    · exact ⟨_, passes_token h hr⟩

/-- The next token is the first of those that are left. -/
theorem next_eq_head? (l : Lexer) : l.next.1 = l.run.1.head? := by
  rw [run_of_next]
  rcases l.next with ⟨_ | t, l'⟩ <;> rfl

/-- The others are left behind it. -/
theorem run_next (l : Lexer) : l.next.2.run.1 = l.run.1.tail := by
  have hrun := l.run_of_next
  rcases hn : l.next with ⟨_ | t, l'⟩
  · rw [hn] at hrun
    obtain ⟨ss, hp⟩ := l.next_passes
    rw [hn] at hp
    obtain ⟨hrest, hdue⟩ := hp.at_end rfl
    rw [run_of_nil hrest, hdue, hrun]
    rfl
  · rw [hn] at hrun
    rw [hrun]
    rfl

/-- What is recorded does not matter for the tokens. -/
theorem run_congr (hrest : l.rest = l'.rest) (hpos : l.pos = l'.pos) (hdue : l.canEnd = l'.canEnd) :
    l.run.1 = l'.run.1 := by
  rw [run_eq_lexemes, run_eq_lexemes, hrest, hpos, hdue]

end Lexer

/-! ## Any row of calls -/

/-- What a lexer may be asked for. -/
inductive Lexer.Call where
  | next
  | takeComments
  | takeDiagnostics
deriving DecidableEq, Repr

/-- A lexer, and what it has handed out so far: an answer for each token that was asked
    for, comments and diagnostics. -/
structure Session where
  lexer : Lexer
  answers : List (Option Lexeme)
  comments : List Comment
  diagnostics : List Diagnostic

namespace Session

/-- A session at the front of a text. -/
def ofText (text : List Char) : Session := ⟨.ofText text, [], [], []⟩

/-- The session behind a call. -/
def step (s : Session) : Lexer.Call → Session
  | .next => { s with lexer := s.lexer.next.2, answers := s.answers ++ [s.lexer.next.1] }
  | .takeComments =>
    { s with lexer := s.lexer.takeComments.2, comments := s.comments ++ s.lexer.takeComments.1 }
  | .takeDiagnostics =>
    { s with
      lexer := s.lexer.takeDiagnostics.2
      diagnostics := s.diagnostics ++ s.lexer.takeDiagnostics.1 }

/-- The session behind a row of calls. -/
def run (s : Session) (calls : List Lexer.Call) : Session := calls.foldl step s

/-- The comment begins before the last token that was handed out, or is that token; once
    the end was reported, it is any comment. -/
def Reached (text : List Char) (answers : List (Option Lexeme)) (n : Remark) : Prop :=
  match answers.getLast? with
  | none => False
  | some none => True
  | some (some t) => n.start < t.start ∨ t = ⟨n.start, .error, n.stop⟩ ∧ n.Unterminated text

/-- What is handed out and what is held answer for the text, whose comments are `ns`. -/
structure Accounts (text : List Char) (ns : List Remark) (calls : List Lexer.Call) (s : Session) : Prop where
  /-- The answers are the tokens of a run, and behind the last of them there is none. -/
  answers : s.answers = (List.range (calls.count .next)).map fun i => (Lexer.ofText text).run.1[i]?
  comments : ∃ seen unseen, ns = seen ++ unseen ∧
    s.comments ++ s.lexer.comments = seen.map Remark.comment ∧
    (∀ n ∈ seen, Reached text s.answers n) ∧ ∀ n ∈ unseen, ¬ Reached text s.answers n
  diagnostics : (s.diagnostics ++ s.lexer.diagnostics).map (·.span) =
    (errorsIn (s.answers.filterMap id)).map Lexeme.span

/-- What a call keeps: `ss` are the segments that were passed. -/
structure Kept (text : List Char) (ss : List Segment) (s : Session) : Prop where
  answers : s.answers = (List.range s.answers.length).map fun i => (Lexer.ofText text).run.1[i]?
  left : s.lexer.run.1 = (Lexer.ofText text).run.1.drop s.answers.length
  segments : segments 0 text = ss ++ segments s.lexer.pos s.lexer.rest
  stop_le : ∀ u ∈ ss, u.stop ≤ s.lexer.pos
  comments : s.comments ++ s.lexer.comments = (ss.filterMap Segment.remark?).map Remark.comment
  diagnostics : (s.diagnostics ++ s.lexer.diagnostics).map (·.span) =
    (errorsIn (s.answers.filterMap id)).map Lexeme.span
  reached : ∀ n ∈ ss.filterMap Segment.remark?, Reached text s.answers n
  unreached : ∀ n ∈ (GoDecls.segments s.lexer.pos s.lexer.rest).filterMap Segment.remark?,
    ¬ Reached text s.answers n

theorem kept_ofText (text : List Char) : Kept text [] (ofText text) where
  answers := rfl
  left := rfl
  segments := rfl
  stop_le := List.forall_mem_nil _
  comments := rfl
  diagnostics := rfl
  reached := List.forall_mem_nil _
  unreached := fun _ _ h => h

variable {s : Session} {ss : List Segment}

theorem reached_append (answers : List (Option Lexeme)) (a : Option Lexeme) (n : Remark) :
    Reached text (answers ++ [a]) n ↔
      ∀ t ∈ a, n.start < t.start ∨ t = ⟨n.start, .error, n.stop⟩ ∧ n.Unterminated text := by
  rw [Reached, List.getLast?_concat]
  cases a with
  | none => simp
  | some t => simp

/-- **A call for a token keeps it.** -/
theorem Kept.next (h : Kept text ss s) : ∃ ss', Kept text ss' (s.step .next) := by
  obtain ⟨us, hp⟩ := s.lexer.next_passes
  have hsegments : GoDecls.segments 0 text =
      (ss ++ us) ++ GoDecls.segments s.lexer.next.2.pos s.lexer.next.2.rest := by
    rw [h.segments, hp.segments, List.append_assoc]
  refine ⟨ss ++ us, ?_⟩
  constructor
  case answers =>
    have hnext : s.lexer.next.1 = (Lexer.ofText text).run.1[s.answers.length]? := by
      rw [Lexer.next_eq_head?, h.left, List.head?_drop]
    simp only [step, List.length_append, List.length_singleton, List.range_succ, List.map_append,
      List.map_singleton]
    rw [← h.answers, hnext]
  case left =>
    simp only [step, List.length_append, List.length_singleton]
    rw [Lexer.run_next, h.left, List.tail_drop]
  case segments => exact hsegments
  case stop_le =>
    refine List.forall_mem_append.2 ⟨fun u hu => ?_, hp.stop_le⟩
    exact Nat.le_trans (h.stop_le u hu) hp.pos_le
  case comments =>
    simp only [step]
    rw [hp.comments, ← List.append_assoc, h.comments, List.filterMap_append, List.map_append]
  case diagnostics =>
    simp only [step]
    rw [hp.diagnostics, ← List.append_assoc, List.map_append, h.diagnostics,
      spans_of_diagnostics, hp.tokens, errorsIn_filter, List.filterMap_append, errorsIn, errorsIn,
      errorsIn, List.filter_append, List.map_append]
    cases s.lexer.next.1 <;> rfl
  case reached =>
    intro n hn
    obtain ⟨u, hu, hun⟩ := List.mem_filterMap.1 hn
    obtain ⟨k, hk, rfl⟩ := Option.map_eq_some_iff.1 hun
    refine (reached_append _ _ _).2 fun t ht => ?_
    rcases List.mem_append.1 hu with hu' | hu'
    · refine .inl (Nat.lt_of_lt_of_le u.start_lt_stop ?_)
      exact Nat.le_trans (h.stop_le u hu') (hp.within t ht).1
    · refine (hp.before t ht u hu' (by rw [hk]; exact Option.some_ne_none k)).imp_right fun hlexeme => ?_
      have hmem : u ∈ GoDecls.segments 0 text := hsegments ▸ List.mem_append_left _ hu
      obtain ⟨tok, htok, rfl⟩ := Option.map_eq_some_iff.1 hlexeme
      -- a comment that is a token is one without an end marker
      obtain ⟨hnone, -⟩ | ⟨herror, hun⟩ := unterminated_of_comment? hmem hk
      · rw [hnone] at htok
        cases htok
      · rw [herror] at htok
        cases htok
        exact ⟨rfl, hun⟩
  case unreached =>
    intro n hn hreached
    have hreached := (reached_append _ _ _).1 hreached
    obtain ⟨u, hu, hun⟩ := List.mem_filterMap.1 hn
    obtain ⟨k, -, rfl⟩ := Option.map_eq_some_iff.1 hun
    have hbehind : s.lexer.next.2.pos ≤ u.start := (segments_within hu).1
    have hlt := u.start_lt_stop
    cases hnext : s.lexer.next.1 with
    | none =>
      simp only [step, (hp.at_end hnext).1, GoDecls.segments] at hu
      cases hu
    | some t =>
      obtain ⟨-, hle, hstop⟩ := hp.within t hnext
      rcases hreached t hnext with hstart | ⟨rfl, -⟩
      · simp only at hstart
        omega
      · simp only at hstop
        omega

/-- Taking the comments keeps it. -/
theorem Kept.takeComments (h : Kept text ss s) : Kept text ss (s.step .takeComments) where
  answers := h.answers
  left := by
    simp only [step]
    rw [← h.left]
    exact Lexer.run_congr rfl rfl rfl
  segments := h.segments
  stop_le := h.stop_le
  comments := (List.append_nil _).trans h.comments
  diagnostics := h.diagnostics
  reached := h.reached
  unreached := h.unreached

/-- Taking the diagnostics keeps it. -/
theorem Kept.takeDiagnostics (h : Kept text ss s) : Kept text ss (s.step .takeDiagnostics) where
  answers := h.answers
  left := by
    simp only [step]
    rw [← h.left]
    exact Lexer.run_congr rfl rfl rfl
  segments := h.segments
  stop_le := h.stop_le
  comments := h.comments
  diagnostics := (congrArg _ (List.append_nil _)).trans h.diagnostics
  reached := h.reached
  unreached := h.unreached

/-- **Any row of calls keeps it.** -/
theorem kept_run (h : Kept text ss s) (calls : List Lexer.Call) : ∃ ss', Kept text ss' (s.run calls) := by
  induction calls generalizing s ss with
  | nil => exact ⟨ss, h⟩
  | cons call calls ih =>
    cases call with
    | next =>
      obtain ⟨ss', h'⟩ := h.next
      exact ih h'
    | takeComments => exact ih h.takeComments
    | takeDiagnostics => exact ih h.takeDiagnostics

/-- Each call for a token has its answer. -/
theorem length_answers (s : Session) (calls : List Lexer.Call) :
    (s.run calls).answers.length = s.answers.length + calls.count .next := by
  induction calls generalizing s with
  | nil => rfl
  | cons call calls ih =>
    rw [run, List.foldl_cons, ← run, ih, List.count_cons]
    cases call with
    | next =>
      simp [step]
      omega
    | takeComments => simp [step]
    | takeDiagnostics => simp [step]

end Session

/-- **The lexer answers for a text in any order of calls.**  The comments `ns` are those of
    the text: each is written as one, and with the tokens they account for all of it.  The
    tokens that are handed out are those of a run without other calls, and behind the last of
    them there is none, however often it is asked for.  At any moment the comments handed out
    and those held are just those that are reached, in the order of the text, and the
    diagnostics handed out and held have the spans of the tokens at fault. -/
theorem session_account (text : List Char) : ∃ ns : List Remark,
    Account text (Lexer.ofText text).run.1 ns ∧ (∀ n ∈ ns, n.Written text) ∧
    (Lexer.ofText text).run.2.comments = ns.map Remark.comment ∧
    ∀ calls, ((Session.ofText text).run calls).Accounts text ns calls := by
  refine ⟨(segments 0 text).filterMap Segment.remark?, account_segments text, ?_,
    (Lexer.ofText text).run_comments, ?_⟩
  · intro n hn
    obtain ⟨s, hs, k, hk, rfl⟩ := mem_remarks.1 hn
    exact written_of_comment? hs hk
  · intro calls
    obtain ⟨ss, h⟩ := Session.kept_run (Session.kept_ofText text) calls
    have hlength : ((Session.ofText text).run calls).answers.length = calls.count .next := by
      rw [Session.length_answers]
      exact Nat.zero_add _
    refine ⟨hlength ▸ h.answers, ⟨_, _, ?_, h.comments, h.reached, h.unreached⟩, h.diagnostics⟩
    rw [h.segments, List.filterMap_append]

/-- A text with a comment over two lines, which holds back the semicolon before it, and with a
    comment without an end marker, which is a token at fault too. -/
theorem session_account_commented :
    let text := "a /* b\n c */ d /* e".toList
    let calls : List Lexer.Call := [.next, .takeComments, .next, .next, .takeDiagnostics, .next]
    ∃ ns : List Remark,
      ns.map Remark.comment = [⟨.block, ⟨2, 12⟩⟩, ⟨.block, ⟨15, 19⟩⟩] ∧
      Account text (Lexer.ofText text).run.1 ns ∧ (∀ n ∈ ns, n.Written text) ∧
      ((Session.ofText text).run calls).Accounts text ns calls ∧
      ((Session.ofText text).run calls).answers = [some ⟨0, .ident "a", 1⟩,
        some ⟨6, .punct .semi, 6⟩, some ⟨13, .ident "d", 14⟩, some ⟨15, .error, 19⟩] := by
  intro text calls
  obtain ⟨ns, haccount, hwritten, hcomments, hcalls⟩ := session_account text
  refine ⟨ns, ?_, haccount, hwritten, hcalls calls, ?_⟩
  · rw [← hcomments]
    decide +kernel
  · rw [(hcalls calls).answers]
    decide +kernel

end GoDecls
