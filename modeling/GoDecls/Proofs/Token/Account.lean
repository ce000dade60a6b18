/-
  The lexer accounts for every byte of a text.

  * `mem_segments`, `segments_ordered` and `exists_segment`: the pieces of a text
    stand side by side, and every character is in one;
  * `closeExtent_eq_none` and `closeExtent_eq_some`: what a comment without an end
    marker is;
  * `Account text ts ns`: tokens and comments as they have to stand in the text;
  * `run_account`: those of a run do.
-/
import Mathlib.Data.List.Pairwise
import GoDecls.Proofs.Token.Beginnings
import GoDecls.Proofs.Token.Segments

namespace GoDecls

open Scan Text

variable {text cs front back : List Char} {c : Char} {pos n : Nat} {s : Segment}

/-! ## Where segments stand -/

theorem front_stop :
    (Segment.front pos c cs).stop = pos + byteLength (c :: cs.take (scan c cs).2) := rfl

/-- A segment is the piece at its place. -/
theorem mem_segments (h : s ∈ segments pos cs) :
    ∃ front c back, cs = front ++ c :: back ∧ s = .front (pos + byteLength front) c back := by
  fun_induction segments pos cs with
  | case1 => cases h
  | case2 pos c cs ih =>
    rcases List.mem_cons.1 h with rfl | h
    · exact ⟨[], c, cs, rfl, rfl⟩
    · obtain ⟨front, d, back, hcs, rfl⟩ := ih h
      refine ⟨(c :: cs.take (scan c cs).2) ++ front, d, back, ?_, ?_⟩
      · rw [List.append_assoc, ← hcs, List.cons_append, List.take_append_drop]
      · rw [front_stop, byteLength_append, Nat.add_assoc]

theorem segments_within (h : s ∈ segments pos cs) :
    pos ≤ s.start ∧ s.stop ≤ pos + byteLength cs := by
  obtain ⟨front, c, back, rfl, rfl⟩ := mem_segments h
  have hsplit : byteLength (c :: back) = byteLength (c :: back.take (scan c back).2) +
      byteLength (back.drop (scan c back).2) := by
    rw [← byteLength_append, List.cons_append, List.take_append_drop]
  rw [front_stop, byteLength_append, hsplit]
  constructor
  · exact Nat.le_add_right _ _
  · omega

/-- Segments stand one behind the other. -/
theorem segments_ordered (pos : Nat) (cs : List Char) :
    (segments pos cs).Pairwise (·.stop ≤ ·.start) := by
  fun_induction segments pos cs with
  | case1 => exact .nil
  | case2 pos c cs ih => exact .cons (fun s hs => (segments_within hs).1) ih

/-- Every character is in a segment. -/
theorem exists_segment (pos : Nat) (h : cs = front ++ c :: back) :
    ∃ s ∈ segments pos cs, s.start ≤ pos + byteLength front ∧
      pos + byteLength front + c.utf8Size ≤ s.stop ∧ c ∈ s.text := by
  fun_induction segments pos cs generalizing front with
  | case1 => simp at h
  | case2 pos d ds ih =>
    have hsplit : d :: ds = (d :: ds.take (scan d ds).2) ++ ds.drop (scan d ds).2 := by
      rw [List.cons_append, List.take_append_drop]
    have hbehind : ∀ front', front = (d :: ds.take (scan d ds).2) ++ front' →
        ds.drop (scan d ds).2 = front' ++ c :: back → ∃ s ∈ Segment.front pos d ds ::
          segments (Segment.front pos d ds).stop (ds.drop (scan d ds).2),
            s.start ≤ pos + byteLength front ∧ pos + byteLength front + c.utf8Size ≤ s.stop ∧
              c ∈ s.text := by
      rintro front' rfl hdrop
      obtain ⟨s, hs, hstart, hstop, hmem⟩ := ih hdrop
      rw [front_stop] at hstart hstop
      refine ⟨s, List.mem_cons_of_mem _ hs, ?_, ?_, hmem⟩ <;> rw [byteLength_append] <;> omega
    rw [hsplit] at h
    rcases List.append_eq_append_iff.1 h with ⟨front', hfront, hdrop⟩ | ⟨piece, hpiece, hback⟩
    · exact hbehind front' hfront hdrop
    · cases piece with
      | nil => exact hbehind [] (by simpa using hpiece.symm) hback.symm
      | cons e piece =>
        obtain ⟨rfl, -⟩ := List.cons.inj hback
        refine ⟨_, List.mem_cons_self, Nat.le_add_right _ _, ?_, ?_⟩
        · rw [front_stop, hpiece, byteLength_append, byteLength_cons]
          omega
        · rw [Segment.front, Segment.text, hpiece]
          simp

/-- The text under a segment. -/
theorem slice?_segment (h : s ∈ segments 0 text) : slice? text s.start s.stop = some s.text := by
  obtain ⟨front, c, back, rfl, rfl⟩ := mem_segments h
  have hslice := slice?_append front (c :: back.take (scan c back).2) (back.drop (scan c back).2)
  rw [List.append_assoc, List.cons_append, List.take_append_drop, byteLength_append] at hslice
  rw [Nat.zero_add]
  exact hslice

/-! ## Boundaries -/

/-- Where a text is parted, the number of bytes before tells the parts. -/
theorem append_inj_of_byteLength {front back front' back' : List Char}
    (h : front ++ back = front' ++ back') (hlength : byteLength front = byteLength front') :
    front = front' ∧ back = back' := by
  have hcut := cut?_append front back
  rw [h, hlength, cut?_append] at hcut
  cases hcut
  exact ⟨rfl, rfl⟩

/-- At this byte of the text a character begins, or the text ends. -/
def IsBoundary (text : List Char) (p : Nat) : Prop :=
  ∃ front back, text = front ++ back ∧ byteLength front = p

theorem IsBoundary.of_append (front back : List Char) :
    IsBoundary (front ++ back) (byteLength front) :=
  ⟨front, back, rfl, rfl⟩

theorem IsBoundary.le {p : Nat} (h : IsBoundary text p) : p ≤ byteLength text := by
  obtain ⟨front, back, rfl, rfl⟩ := h
  rw [byteLength_append]
  exact Nat.le_add_right _ _

theorem IsBoundary.append_left {p : Nat} (h : IsBoundary cs p) (front : List Char) :
    IsBoundary (front ++ cs) (byteLength front + p) := by
  obtain ⟨front', back, rfl, rfl⟩ := h
  exact ⟨front ++ front', back, by rw [List.append_assoc], byteLength_append _ _⟩

theorem IsBoundary.append_right {p : Nat} (h : IsBoundary cs p) (back : List Char) :
    IsBoundary (cs ++ back) p := by
  obtain ⟨front, back', rfl, rfl⟩ := h
  exact ⟨front, back' ++ back, by rw [List.append_assoc], rfl⟩

theorem LineEndAt.isBoundary {p : Nat} (h : LineEndAt text p) : IsBoundary text p := by
  obtain ⟨front, c, back, rfl, rfl, -⟩ := h
  exact .of_append _ _

/-- Between two boundaries in this order there is a text. -/
theorem slice?_isSome {a b : Nat} (ha : IsBoundary text a) (hb : IsBoundary text b) (hab : a ≤ b) :
    (slice? text a b).isSome = true := by
  obtain ⟨front, back, rfl, rfl⟩ := ha
  obtain ⟨front', back', htext, rfl⟩ := hb
  rcases List.append_eq_append_iff.1 htext with ⟨mid, rfl, rfl⟩ | ⟨mid, rfl, rfl⟩
  · rw [← List.append_assoc, slice?_append]
    rfl
  · -- the second boundary is no earlier, so nothing is between
    have hmid : mid = [] := by
      rw [byteLength_append] at hab
      exact byteLength_eq_zero.1 (by omega)
    subst hmid
    have hslice := slice?_append (front') [] back
    rw [List.append_nil] at hslice ⊢
    rw [hslice]
    rfl

/-! ## Comments -/

theorem closeExtent_eq_some (h : closeExtent cs = some n) :
    ∃ body rest, cs = body ++ '*' :: '/' :: rest ∧ n = body.length + 2 := by
  fun_induction closeExtent cs generalizing n with
  | case1 => cases h
  | case2 c cs hc =>
    obtain ⟨rest, rfl⟩ := List.head?_eq_some_iff.1 hc.2
    cases h
    exact ⟨[], rest, by rw [hc.1]; rfl, rfl⟩
  | case3 c cs hc ih =>
    obtain ⟨m, hm, rfl⟩ := Option.map_eq_some_iff.1 h
    obtain ⟨body, rest, rfl, rfl⟩ := ih hm
    exact ⟨c :: body, rest, rfl, rfl⟩

theorem closeExtent_eq_none (h : closeExtent cs = none) : ¬ ['*', '/'] <:+: cs := by
  rintro ⟨body, rest, rfl⟩
  induction body with
  | nil => simp [closeExtent] at h
  | cons c body ih =>
    rw [List.cons_append, List.cons_append, closeExtent] at h
    split at h
    · cases h
    · exact ih (Option.map_eq_none_iff.1 h)

/-- What a line comment is. -/
theorem lineComment_cases {d : Char} (h : (scan d cs).1 = .lineComment) :
    ∃ body, d :: cs.take (scan d cs).2 = '/' :: '/' :: body := by
  have hpiece := scan_isPiece d cs
  generalize scan d cs = p at h hpiece ⊢
  obtain ⟨k, n⟩ := p
  obtain rfl : k = .lineComment := h
  cases hpiece with
  | comment hd hcomment =>
    obtain ⟨-, ds, rfl, rfl⟩ | ⟨_, h⟩ := scanComment_kind hcomment
    · rw [hd]
      exact ⟨_, rfl⟩
    · cases h
  | quoted hquoted => rcases scanQuoted_kind hquoted with h | h | h <;> cases h
  | punct hpunct =>
    obtain ⟨_, h⟩ := scanPunct_kind hpunct
    cases h

/-- What a block comment is. -/
theorem blockComment_cases {closed : Bool} (h : (scan c cs).1 = .blockComment closed) :
    c = '/' ∧ ∃ ds, cs = '*' :: ds ∧
      ((closed = true ∧ ∃ body rest, ds = body ++ '*' :: '/' :: rest ∧
          cs.take (scan c cs).2 = '*' :: (body ++ ['*', '/'])) ∨
        (closed = false ∧ ¬ ['*', '/'] <:+: ds ∧ (scan c cs).2 = cs.length)) := by
  have hpiece := scan_isPiece c cs
  generalize hscan : scan c cs = p at h hpiece ⊢
  obtain ⟨k, n⟩ := p
  obtain rfl : k = .blockComment closed := h
  simp only at hpiece ⊢
  cases hpiece with
  | comment hc hcomment =>
    refine ⟨hc, ?_⟩
    unfold scanComment at hcomment
    split at hcomment
    · cases hcomment
    · next ds =>
      refine ⟨ds, rfl, ?_⟩
      split at hcomment
      · next m hm =>
        cases hcomment
        obtain ⟨body, rest, rfl, rfl⟩ := closeExtent_eq_some hm
        refine .inl ⟨rfl, body, rest, rfl, ?_⟩
        have hsplit : body ++ '*' :: '/' :: rest = (body ++ ['*', '/']) ++ rest := by simp
        rw [List.take_succ_cons, hsplit, List.take_left' (by simp)]
      · next hm =>
        cases hcomment
        exact .inr ⟨rfl, closeExtent_eq_none hm, rfl⟩
    · cases hcomment
  | quoted hquoted => rcases scanQuoted_kind hquoted with h | h | h <;> cases h
  | punct hpunct =>
    obtain ⟨_, h⟩ := scanPunct_kind hpunct
    cases h

/-! ## The account -/

/-- A comment without an end marker: it reaches to the end of the text. -/
def Remark.Unterminated (text : List Char) (n : Remark) : Prop :=
  n.kind = .block ∧ n.stop = byteLength text ∧
    ∃ body, slice? text n.start n.stop = some ('/' :: '*' :: body) ∧ ¬ ['*', '/'] <:+: body

/-- The comment is written with the marker of its kind. -/
def Remark.Written (text : List Char) (n : Remark) : Prop :=
  ∃ body, slice? text n.start n.stop =
    some ('/' :: (match n.kind with | .line => '/' | .block => '*') :: body)

/-- A stretch of the text that is not empty, between two characters each. -/
structure Stretch (text : List Char) (start stop : Nat) : Prop where
  start_lt : start < stop
  stop_le : stop ≤ byteLength text
  slice : (slice? text start stop).isSome = true

/-- The tokens and comments account for the text. -/
structure Account (text : List Char) (ts : List Lexeme) (ns : List Remark) : Prop where
  /-- Tokens stand one behind the other, and inserted ones between their neighbours. -/
  tokens_ordered : ts.Pairwise (·.stop ≤ ·.start)
  comments_ordered : ns.Pairwise (·.stop ≤ ·.start)
  /-- All tokens stand between characters of the text. -/
  boundary : ∀ t ∈ ts, IsBoundary text t.start ∧ IsBoundary text t.stop
  token_stretch : ∀ t ∈ ts, t.isInserted = false → Stretch text t.start t.stop
  comment_stretch : ∀ n ∈ ns, Stretch text n.start n.stop
  /-- A token that carries a text carries its own. -/
  token_text : ∀ t ∈ ts, ∀ s, t.token.text? = some s → slice? text t.start t.stop = some s.toList
  /-- Only a comment without an end marker is also a token. -/
  disjoint : ∀ t ∈ ts, t.isInserted = false → ∀ n ∈ ns,
    t.stop ≤ n.start ∨ n.stop ≤ t.start ∨ t = ⟨n.start, .error, n.stop⟩ ∧ n.Unterminated text
  unterminated : ∀ n ∈ ns, n.Unterminated text → ⟨n.start, .error, n.stop⟩ ∈ ts
  /-- What is in no token or comment is a blank, a line end or a mark at the front. -/
  gaps : ∀ front c back, text = front ++ c :: back →
    (∃ t ∈ ts, t.start ≤ byteLength front ∧ byteLength front + c.utf8Size ≤ t.stop) ∨
    (∃ n ∈ ns, n.start ≤ byteLength front ∧ byteLength front + c.utf8Size ≤ n.stop) ∨
    c ∈ blanks ∨ (front = [] ∧ c = orderMark)

/-! ## Tokens in order -/

namespace Lexer

variable {l : Lexer} {t : Lexeme}

/-- A token lies within the piece that gives it. -/
theorem read_within (h : (l.read c cs).1 = some t) :
    l.pos ≤ t.start ∧ t.start ≤ t.stop ∧ t.stop ≤ (l.read c cs).2.pos := by
  rcases l.read_cases c cs with ⟨hnone, -, -⟩ | ⟨k, hk, -, htoken⟩ | ⟨u, -, htoken⟩
  · rw [hnone] at h
    cases h
  · have hlt := hk.isLineEnd.lt
    have hmove := l.read_pos c cs
    rw [htoken] at h
    split at h
    · cases h
      exact ⟨Nat.le_add_right _ _, Nat.le_refl _, by simp only [Lexeme.inserted]; omega⟩
    · cases h
  · have hmove := l.read_pos c cs
    rw [htoken] at h
    cases h
    exact ⟨Nat.le_refl _, by simp only; omega, Nat.le_refl _⟩

/-- The tokens of a run stand one behind the other, up to the end of the text. -/
theorem run_ordered (l : Lexer) : l.run.1.Pairwise (·.stop ≤ ·.start) ∧
    ∀ t ∈ l.run.1, l.pos ≤ t.start ∧ t.start ≤ t.stop ∧ t.stop ≤ l.pos + byteLength l.rest := by
  induction l using induction_on with
  | nil l h =>
    rw [run_of_nil h, h]
    split
    · refine ⟨List.pairwise_singleton _ _, fun t ht => ?_⟩
      rw [List.mem_singleton.1 ht]
      exact ⟨Nat.le_refl _, Nat.le_refl _, Nat.le_refl _⟩
    · exact ⟨.nil, nofun⟩
  | piece l c cs h ih =>
    have hmove := l.read_pos c cs
    have hsize : byteLength l.rest = byteLength (c :: cs.take (scan c cs).2) +
        byteLength (l.read c cs).2.rest := by
      rw [read_rest, ← byteLength_append, List.cons_append, List.take_append_drop, h]
    rw [run_of_cons h]
    refine ⟨List.pairwise_append.2 ⟨?_, ih.1, fun t ht u hu => ?_⟩, fun t ht => ?_⟩
    · cases (l.read c cs).1 <;> simp
    · have := (read_within (Option.mem_toList.1 ht)).2.2
      have := (ih.2 u hu).1
      omega
    · rcases List.mem_append.1 ht with ht | ht
      · have := read_within (Option.mem_toList.1 ht)
        omega
      · have := ih.2 t ht
        omega

/-- A token starts before the end of the piece that gives it. -/
theorem read_start_lt (h : (l.read c cs).1 = some t) : t.start < (l.read c cs).2.pos := by
  have hmove := l.read_pos c cs
  have hsize := Char.utf8Size_pos c
  rcases l.read_cases c cs with ⟨hnone, -, -⟩ | ⟨k, hk, -, htoken⟩ | ⟨u, -, htoken⟩
  · rw [hnone] at h
    cases h
  · have hlt := hk.isLineEnd.lt
    rw [htoken] at h
    split at h
    · cases h
      simp only [Lexeme.inserted]
      omega
    · cases h
  · rw [htoken] at h
    cases h
    rw [byteLength_cons] at hmove
    simp only
    omega

/-- **Tokens start one behind the other**, inserted ones too. -/
theorem run_starts (l : Lexer) : l.run.1.Pairwise (·.start < ·.start) := by
  induction l using induction_on with
  | nil l h =>
    rw [run_of_nil h]
    split
    · exact List.pairwise_singleton _ _
    · exact .nil
  | piece l c cs h ih =>
    rw [run_of_cons h]
    refine List.pairwise_append.2 ⟨?_, ih, fun t ht u hu => ?_⟩
    · cases (l.read c cs).1 <;> simp
    · have hlt := read_start_lt (Option.mem_toList.1 ht)
      exact Nat.lt_of_lt_of_le hlt ((l.read c cs).2.run_ordered.2 u hu).1

/-- A token begins and ends where a character of the text does. -/
theorem read_boundary (htext : text = front ++ c :: cs) (hpos : byteLength front = l.pos)
    (h : (l.read c cs).1 = some t) : IsBoundary text t.start ∧ IsBoundary text t.stop := by
  have hsplit : text = front ++ ((c :: cs.take (scan c cs).2) ++ cs.drop (scan c cs).2) := by
    rw [htext, List.cons_append, List.take_append_drop]
  have hwithin : ∀ {k}, IsBoundary (c :: cs.take (scan c cs).2) k →
      IsBoundary text (l.pos + k) := by
    intro k hk
    rw [hsplit, ← hpos]
    exact (hk.append_right _).append_left front
  rcases l.read_cases c cs with ⟨hnone, -, -⟩ | ⟨k, hk, -, htoken⟩ | ⟨u, -, htoken⟩
  · rw [hnone] at h
    cases h
  · rw [htoken] at h
    split at h
    · cases h
      exact ⟨hwithin hk.isLineEnd.isBoundary, hwithin hk.isLineEnd.isBoundary⟩
    · cases h
  · rw [htoken] at h
    cases h
    refine ⟨?_, ?_⟩
    · rw [htext, ← hpos]
      exact .of_append _ _
    · rw [read_pos]
      exact hwithin ⟨_, [], (List.append_nil _).symm, rfl⟩

/-- Tokens, inserted ones too, stand between characters of the text. -/
theorem run_boundary (l : Lexer) : ∀ {front : List Char}, text = front ++ l.rest →
    byteLength front = l.pos → ∀ t ∈ l.run.1, IsBoundary text t.start ∧ IsBoundary text t.stop := by
  induction l using induction_on with
  | nil l h =>
    intro front htext hpos t ht
    rw [h, List.append_nil] at htext
    rw [run_of_nil h] at ht
    split at ht
    · rw [List.mem_singleton.1 ht, htext]
      have hend : IsBoundary front l.pos := ⟨front, [], (List.append_nil _).symm, hpos⟩
      exact ⟨hend, hend⟩
    · cases ht
  | piece l c cs h ih =>
    intro front htext hpos t ht
    rw [h] at htext
    rw [run_of_cons h] at ht
    rcases List.mem_append.1 ht with ht | ht
    · exact read_boundary htext hpos (Option.mem_toList.1 ht)
    · refine ih (?_ : _ = (front ++ c :: cs.take (scan c cs).2) ++ _) ?_ t ht
      · rw [read_rest, List.append_assoc, List.cons_append, List.take_append_drop, htext]
      · rw [byteLength_append, hpos, read_pos]

end Lexer

/-- Tokens of a text stand between its characters. -/
theorem boundary_of_mem_run {t : Lexeme} (ht : t ∈ (Lexer.ofText text).run.1) :
    IsBoundary text t.start ∧ IsBoundary text t.stop :=
  (Lexer.ofText text).run_boundary (List.nil_append text).symm rfl t ht

/-! ## The account of a run -/

/-- Segments stand between characters. -/
theorem boundary_segment (h : s ∈ segments 0 text) :
    IsBoundary text s.start ∧ IsBoundary text s.stop := by
  obtain ⟨front, c, back, rfl, rfl⟩ := mem_segments h
  rw [Nat.zero_add]
  refine ⟨.of_append front _, ?_⟩
  have hstop := IsBoundary.of_append (c :: back.take (scan c back).2) (back.drop (scan c back).2)
  rw [List.cons_append, List.take_append_drop] at hstop
  exact hstop.append_left front

theorem stretch_segment (h : s ∈ segments 0 text) : Stretch text s.start s.stop := by
  refine ⟨s.start_lt_stop, ?_, ?_⟩
  · have := (segments_within h).2
    rwa [Nat.zero_add] at this
  · rw [slice?_segment h]
    rfl

/-- The text that a segment's token carries is the segment's. -/
theorem text_of_token? {t : Token} (h : s.token? = some t) {u : String} (hu : t.text? = some u) :
    u.toList = s.text := by
  unfold Segment.token? at h
  split at h
  · cases h
    cases hu
  · unfold Piece.token? at h
    split at h <;> cases h
    · unfold Lexer.wordToken at hu
      split at hu <;> cases hu
      exact String.toList_ofList
    all_goals cases hu
    all_goals exact String.toList_ofList

/-- A segment whose token is a name is spelled as one. -/
theorem isName_of_token? (hs : s ∈ segments pos cs) {u : String} (h : s.token? = some (.ident u)) :
    IsName u.toList := by
  have hword : s.kind = .word := by
    unfold Segment.token? at h
    split at h
    · cases h
    · unfold Piece.token? at h
      split at h <;> first | assumption | cases h
  obtain ⟨front, c, back, -, rfl⟩ := mem_segments hs
  have hpiece := scan_isPiece c back
  rw [show (scan c back).1 = .word from hword] at hpiece
  rw [text_of_token? h rfl]
  exact hpiece.isName

/-- Two segments are the same or stand apart. -/
theorem segments_apart {s s' : Segment} (hs : s ∈ segments 0 text) (hs' : s' ∈ segments 0 text) :
    s = s' ∨ s.stop ≤ s'.start ∨ s'.stop ≤ s.start := by
  have hordered := segments_ordered 0 text
  refine List.Pairwise.forall_of_forall_of_flip
    (R := fun s s' => s = s' ∨ s.stop ≤ s'.start ∨ s'.stop ≤ s.start)
    (fun _ _ => .inl rfl) (hordered.imp ?_) (hordered.imp ?_) hs hs'
  · exact fun h => .inr (.inl h)
  · exact fun h => .inr (.inr h)

/-- Of the comments just those without an end marker are tokens, and these are at
    fault. -/
theorem unterminated_of_comment? (h : s ∈ segments 0 text) {k : CommentKind}
    (hk : s.comment? = some k) :
    (s.token? = none ∧ ¬ Remark.Unterminated text ⟨k, s.start, s.stop⟩) ∨
      (s.token? = some .error ∧ Remark.Unterminated text ⟨k, s.start, s.stop⟩) := by
  have hslice := slice?_segment h
  obtain ⟨front, c, back, rfl, rfl⟩ := mem_segments h
  cases hkind : (scan c back).1 with
  | lineComment =>
    simp only [Segment.comment?, Segment.front, hkind, Option.some.injEq] at hk
    subst hk
    refine .inl ⟨?_, fun hun => by cases hun.1⟩
    simp [Segment.token?, Segment.fault?, Segment.front, hkind, Piece.token?]
  | blockComment closed =>
    simp only [Segment.comment?, Segment.front, hkind, Option.some.injEq] at hk
    subst hk
    obtain ⟨rfl, ds, rfl, ⟨rfl, body, rest, rfl, htake⟩ | ⟨rfl, hopen, hlength⟩⟩ :=
      blockComment_cases hkind
    · refine .inl ⟨?_, ?_⟩
      · simp [Segment.token?, Segment.fault?, Segment.front, hkind, Piece.token?]
      · rintro ⟨-, -, body', hbody', hopen⟩
        rw [hslice, Segment.text, Segment.front, htake] at hbody'
        cases hbody'
        exact hopen (List.suffix_append body ['*', '/']).isInfix
    · refine .inr ⟨?_, rfl, ?_, ds, ?_, hopen⟩
      · simp [Segment.token?, Segment.fault?, Segment.front, hkind]
      · simp only [front_stop, hlength, List.take_length, byteLength_append, Nat.zero_add]
      · rw [hslice, Segment.text, Segment.front, hlength, List.take_length]
  | _ => simp [Segment.comment?, Segment.front, hkind] at hk

/-- A comment is written with its marker. -/
theorem written_of_comment? (h : s ∈ segments 0 text) {k : CommentKind} (hk : s.comment? = some k) :
    Remark.Written text ⟨k, s.start, s.stop⟩ := by
  have hslice := slice?_segment h
  obtain ⟨front, c, back, rfl, rfl⟩ := mem_segments h
  cases hkind : (scan c back).1 with
  | lineComment =>
    simp only [Segment.comment?, Segment.front, hkind, Option.some.injEq] at hk
    subst hk
    obtain ⟨body, hbody⟩ := lineComment_cases hkind
    exact ⟨body, hslice.trans (congrArg some hbody)⟩
  | blockComment closed =>
    simp only [Segment.comment?, Segment.front, hkind, Option.some.injEq] at hk
    subst hk
    obtain ⟨rfl, ds, rfl, ⟨-, body, rest, -, htake⟩ | ⟨-, -, hlength⟩⟩ := blockComment_cases hkind
    · exact ⟨_, hslice.trans (congrArg (fun ds => some ('/' :: ds)) htake)⟩
    · refine ⟨ds, hslice.trans ?_⟩
      rw [Segment.text, Segment.front, hlength, List.take_length]
  | _ => simp [Segment.comment?, Segment.front, hkind] at hk

/-- A segment that is neither a token nor a comment holds blanks or line ends, or is
    a byte order mark at the front. -/
theorem gap_of_none (h : s ∈ segments 0 text) (ht : s.token? = none) (hk : s.comment? = none) :
    (∀ d ∈ s.text, d ∈ blanks) ∨ s.text = [orderMark] ∧ s.start = 0 := by
  have hfault : s.fault? = none := by
    cases hfault : s.fault? with
    | none => rfl
    | some f => simp [Segment.token?, hfault] at ht
  rw [Segment.token?, hfault] at ht
  obtain ⟨front, c, back, rfl, rfl⟩ := mem_segments h
  have hgap : isGap (scan c back).1 = true := by
    cases hkind : (scan c back).1 <;>
      simp_all [Segment.front, Segment.comment?, Segment.fault?, Piece.token?, isGap]
  rcases (scan_isPiece c back).gap_cases hgap with ⟨-, hall⟩ | ⟨-, hall⟩ | ⟨hkind, rfl, hn⟩
  · exact .inl fun d hd => mem_blanks_of_isSpace (hall d hd)
  · exact .inl fun d hd => mem_blanks_of_isLineEnd (hall d hd)
  · refine .inr ⟨by rw [Segment.text, Segment.front, hn, List.take_zero], ?_⟩
    simpa [Segment.fault?, Segment.front, hkind] using hfault

theorem mem_run {t : Lexeme} : (t ∈ (Lexer.ofText text).run.1 ∧ t.isInserted = false) ↔
    ∃ s ∈ segments 0 text, s.lexeme? = some t := by
  have h := (Lexer.ofText text).filter_run
  have hmem : t ∈ (Lexer.ofText text).run.1.filter (!·.isInserted) ↔
      t ∈ (segments 0 text).filterMap Segment.lexeme? := by rw [h]; rfl
  rw [List.mem_filterMap, List.mem_filter] at hmem
  simpa using hmem

/-- A token that starts at a character that ends no line is the piece there. -/
theorem lexeme?_of_start {t : Lexeme}
    (ht : t ∈ (Lexer.ofText (front ++ c :: back)).run.1) (hstart : t.start = byteLength front)
    (hc : isLineEnd c = false) : (Segment.front (byteLength front) c back).lexeme? = some t := by
  have hlaid : Laid (front ++ c :: back) false 0 (Lexer.ofText (front ++ c :: back)).run.1 := by
    have hfront : front ++ c :: back = [] ++ (Lexer.ofText (front ++ c :: back)).rest := rfl
    exact Lexer.laid_run hfront rfl
  have hreal : t.isInserted = false := by
    rw [← Bool.not_eq_true]
    intro hinserted
    have hpos := Char.utf8Size_pos c
    rcases hlaid.lineEndAt_of_inserted t ht hinserted with hline | hend
    · rw [hstart, ← Nat.add_zero (byteLength front), lineEndAt_append_right, lineEndAt_cons] at hline
      rcases hline with ⟨-, hline⟩ | ⟨q, hq, -⟩
      · rw [hc] at hline
        cases hline
      · omega
    · rw [hstart, byteLength_append, byteLength_cons] at hend
      omega
  obtain ⟨s, hs, hlexeme⟩ := mem_run.1 ⟨ht, hreal⟩
  obtain ⟨front', c', back', hsplit, rfl⟩ := mem_segments hs
  obtain ⟨u, -, rfl⟩ := Option.map_eq_some_iff.1 hlexeme
  have hlength : byteLength front = byteLength front' := by
    simpa [Segment.front] using hstart.symm
  obtain ⟨rfl, hback⟩ := append_inj_of_byteLength hsplit hlength
  cases hback
  rw [Nat.zero_add] at hlexeme ⊢
  exact hlexeme

/-- The tokens of a run before and behind one of them. -/
theorem run_split {t : Lexeme} (ht : t ∈ (Lexer.ofText text).run.1) :
    ∃ us ws, (Lexer.ofText text).run.1 = us ++ t :: ws ∧ (∀ u ∈ us, u.stop ≤ t.start) ∧
      ∀ w ∈ ws, t.stop ≤ w.start := by
  obtain ⟨us, ws, hsplit⟩ := List.append_of_mem ht
  have hordered := (Lexer.ofText text).run_ordered.1
  rw [hsplit, List.pairwise_append, List.pairwise_cons] at hordered
  exact ⟨us, ws, hsplit, fun u hu => hordered.2.2 u hu t List.mem_cons_self, hordered.2.1.1⟩

theorem mem_remarks {n : Remark} : n ∈ (segments 0 text).filterMap Segment.remark? ↔
    ∃ s ∈ segments 0 text, ∃ k, s.comment? = some k ∧ n = ⟨k, s.start, s.stop⟩ := by
  simp only [List.mem_filterMap, Segment.remark?, Option.map_eq_some_iff, @eq_comm _ n]

/-- A comment stands where its span says, if the text is not too long for spans. -/
theorem span_of_remark (hlimit : byteLength text ≤ Span.limit) {n : Remark}
    (hn : n ∈ (segments 0 text).filterMap Segment.remark?) :
    n.comment.span = ⟨n.start, n.stop⟩ := by
  obtain ⟨s, hs, _, -, rfl⟩ := mem_remarks.1 hn
  obtain ⟨hstart, hstop⟩ := boundary_segment hs
  exact Span.ofOffsets_of_le (Nat.le_trans hstart.le hlimit) (Nat.le_trans hstop.le hlimit)

/-- What is true of every token of the text and where it stands. -/
theorem forall_run {P : Lexeme → Prop}
    (h : ∀ s ∈ segments 0 text, ∀ t, s.token? = some t → P ⟨s.start, t, s.stop⟩) :
    ∀ t ∈ (Lexer.ofText text).run.1, t.isInserted = false → P t := by
  intro t ht hreal
  obtain ⟨s, hs, hlexeme⟩ := mem_run.1 ⟨ht, hreal⟩
  obtain ⟨u, hu, rfl⟩ := Option.map_eq_some_iff.1 hlexeme
  exact h s hs u hu

/-- A token that carries a text is a segment. -/
theorem segment_of_text? {t : Lexeme} (ht : t ∈ (Lexer.ofText text).run.1) {u : String}
    (hu : t.token.text? = some u) :
    ∃ s ∈ segments 0 text, s.token? = some t.token ∧ s.start = t.start ∧ s.stop = t.stop := by
  have hreal : t.isInserted = false := by
    rw [Lexeme.isInserted, Bool.and_eq_false_iff, beq_eq_false_iff_ne]
    refine .inl fun h => ?_
    rw [h] at hu
    cases hu
  exact forall_run (P := fun t => ∃ s ∈ segments 0 text,
    s.token? = some t.token ∧ s.start = t.start ∧ s.stop = t.stop)
    (fun s hs t ht => ⟨s, hs, ht, rfl, rfl⟩) t ht hreal

/-- A token that carries a text carries its own. -/
theorem text_of_mem_run {t : Lexeme} (ht : t ∈ (Lexer.ofText text).run.1) {u : String}
    (hu : t.token.text? = some u) : slice? text t.start t.stop = some u.toList := by
  obtain ⟨s, hs, htoken, hstart, hstop⟩ := segment_of_text? ht hu
  rw [← hstart, ← hstop, slice?_segment hs, text_of_token? htoken hu]

theorem mem_run_of_token? {t : Token} (hs : s ∈ segments 0 text) (ht : s.token? = some t) :
    ⟨s.start, t, s.stop⟩ ∈ (Lexer.ofText text).run.1 :=
  (mem_run.2 ⟨s, hs, by rw [Segment.lexeme?, ht]; rfl⟩).1

/-- A token and a comment stand apart, unless the comment has no end marker and is
    the token. -/
theorem token_apart {s' : Segment} (hs : s ∈ segments 0 text) (hs' : s' ∈ segments 0 text)
    {t : Token} (ht : s.token? = some t) {k : CommentKind} (hk : s'.comment? = some k) :
    s.stop ≤ s'.start ∨ s'.stop ≤ s.start ∨
      s = s' ∧ t = .error ∧ Remark.Unterminated text ⟨k, s'.start, s'.stop⟩ := by
  rcases segments_apart hs hs' with rfl | hapart
  · obtain ⟨hnone, -⟩ | ⟨herror, hun⟩ := unterminated_of_comment? hs hk
    · rw [hnone] at ht
      cases ht
    · rw [herror] at ht
      cases ht
      exact .inr (.inr ⟨rfl, rfl, hun⟩)
  · exact hapart.imp_right .inl

/-- A character is in a token or a comment, or it is a blank or a line end, or the
    byte order mark at the front. -/
theorem exists_segment_or_gap (h : text = front ++ c :: back) :
    (∃ s ∈ segments 0 text, s.start ≤ byteLength front ∧ byteLength front + c.utf8Size ≤ s.stop ∧
      ((∃ t, s.token? = some t) ∨ ∃ k, s.comment? = some k)) ∨
    c ∈ blanks ∨ (front = [] ∧ c = orderMark) := by
  obtain ⟨s, hs, hstart, hstop, hmem⟩ := exists_segment 0 h
  rw [Nat.zero_add] at hstart hstop
  cases ht : s.token? with
  | some t => exact .inl ⟨s, hs, hstart, hstop, .inl ⟨t, ht⟩⟩
  | none =>
    cases hk : s.comment? with
    | some k => exact .inl ⟨s, hs, hstart, hstop, .inr ⟨k, hk⟩⟩
    | none =>
      refine .inr ?_
      rcases gap_of_none hs ht hk with hall | ⟨hmark, hzero⟩
      · exact .inl (hall c hmem)
      · rw [hmark] at hmem
        obtain rfl := List.mem_singleton.1 hmem
        refine .inr ⟨byteLength_eq_zero.1 ?_, rfl⟩
        rw [Segment.stop, hmark, hzero, byteLength_cons, byteLength_nil] at hstop
        omega

/-- The tokens and the comments among the segments account for the text. -/
theorem account_segments (text : List Char) :
    Account text (Lexer.ofText text).run.1 ((segments 0 text).filterMap Segment.remark?) := by
  have hordered := (Lexer.ofText text).run_ordered
  constructor
  case tokens_ordered => exact hordered.1
  case comments_ordered =>
    refine List.pairwise_filterMap.2 ((segments_ordered 0 text).imp fun h n hn n' hn' => ?_)
    obtain ⟨_, -, rfl⟩ := Option.map_eq_some_iff.1 hn
    obtain ⟨_, -, rfl⟩ := Option.map_eq_some_iff.1 hn'
    exact h
  case boundary => exact fun t => boundary_of_mem_run
  case token_stretch => exact forall_run fun s hs t _ => stretch_segment hs
  case comment_stretch =>
    intro n hn
    obtain ⟨s, hs, k, -, rfl⟩ := mem_remarks.1 hn
    exact stretch_segment hs
  case token_text => exact fun t ht u hu => text_of_mem_run ht hu
  case disjoint =>
    refine forall_run fun s hs t ht n hn => ?_
    obtain ⟨s', hs', k, hk, rfl⟩ := mem_remarks.1 hn
    obtain h | h | ⟨rfl, rfl, hun⟩ := token_apart hs hs' ht hk
    · exact .inl h
    · exact .inr (.inl h)
    · exact .inr (.inr ⟨rfl, hun⟩)
  case unterminated =>
    intro n hn hun
    obtain ⟨s, hs, k, hk, rfl⟩ := mem_remarks.1 hn
    obtain ⟨-, hno⟩ | ⟨herror, -⟩ := unterminated_of_comment? hs hk
    · exact absurd hun hno
    · exact mem_run_of_token? hs herror
  case gaps =>
    intro front c back htext
    obtain ⟨s, hs, hstart, hstop, ⟨t, ht⟩ | ⟨k, hk⟩⟩ | hgap := exists_segment_or_gap htext
    · exact .inl ⟨_, mem_run_of_token? hs ht, hstart, hstop⟩
    · exact .inr (.inl ⟨_, mem_remarks.2 ⟨s, hs, k, hk, rfl⟩, hstart, hstop⟩)
    · exact .inr (.inr hgap)

/-- **The lexer accounts for every byte of a text.**  Its comments are recorded as
    spans hold them, which is where they stand if the text is not too long for that. -/
theorem run_account (text : List Char) : ∃ ns : List Remark,
    (Lexer.ofText text).run.2.comments = ns.map Remark.comment ∧
    (byteLength text ≤ Span.limit → ∀ n ∈ ns, n.comment.span = ⟨n.start, n.stop⟩) ∧
    Account text (Lexer.ofText text).run.1 ns := by
  refine ⟨(segments 0 text).filterMap Segment.remark?, (Lexer.ofText text).run_comments, ?_,
    account_segments text⟩
  intro hlimit n hn
  obtain ⟨s, hs, k, -, rfl⟩ := mem_remarks.1 hn
  have hstretch := stretch_segment hs
  have hstop := Nat.le_trans hstretch.stop_le hlimit
  exact Span.ofOffsets_of_le (Nat.le_trans (Nat.le_of_lt hstretch.start_lt) hstop) hstop

end GoDecls
