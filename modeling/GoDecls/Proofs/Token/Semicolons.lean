/-
  Where semicolons are inserted.

  * `Laid text due n ts`: behind byte `n` the tokens `ts` stand as they should,
    where `due` says that the token before `n` may end a statement.  A semicolon
    stands at the first line end behind such a token, or at the end of the text,
    and nowhere else;
  * `laid_run`: the tokens of the lexer stand so, by one step for each piece
    (`read_cases`, `laid_read`);
  * `run_semicolons`: what this means for the gap between two tokens of the text,
    and behind the last.
-/
import GoDecls.Proofs.Token.LineEnds
import GoDecls.Proofs.Token.Pieces

namespace GoDecls

open Scan Text

variable {text front : List Char} {due : Bool} {n m : Nat} {t : Lexeme} {ts : List Lexeme}

/-! ## Tokens as they should stand -/

/-- Behind byte `n`, where a semicolon is due if the token before may end a
    statement, the tokens stand as they should. -/
inductive Laid (text : List Char) : (due : Bool) → Nat → List Lexeme → Prop where
  | done {n : Nat} : Laid text false n []
  | atEnd {n : Nat} (h : LastLine text n) : Laid text true n [.inserted (byteLength text)]
  | atLineEnd {n p : Nat} {ts : List Lexeme} (h : FirstLineEnd text n p)
    (hts : Laid text false (p + 1) ts) : Laid text true n (.inserted p :: ts)
  | token {due : Bool} {n : Nat} {t : Lexeme} {ts : List Lexeme} (hreal : t.isInserted = false)
    (hn : n ≤ t.start) (hline : due = true → ¬ LineEndWithin text n t.start)
    (hts : Laid text t.token.endsStatement t.stop ts) : Laid text due n (t :: ts)

namespace Laid

/-- Text may be passed over in which no line ends, or any if no semicolon is due. -/
theorem skip (h : Laid text due m ts) (hnm : n ≤ m) (hline : due = true → ¬ LineEndWithin text n m) :
    Laid text due n ts := by
  have hafter : due = true → ∀ q, n ≤ q → LineEndAt text q → m ≤ q := fun hdue q hq hat =>
    Nat.le_of_not_lt fun hlt => hline hdue ⟨q, hq, hlt, hat⟩
  cases h with
  | done => exact .done
  | atEnd h => exact .atEnd fun q hq hat => h q (hafter rfl q hq hat) hat
  | atLineEnd h hts =>
    exact .atLineEnd ⟨Nat.le_trans hnm h.le, h.isLineEnd,
      fun q hq hat => h.first q (hafter rfl q hq hat) hat⟩ hts
  | token hreal hn hline' hts =>
    refine .token hreal (Nat.le_trans hnm hn) (fun hdue => ?_) hts
    rintro ⟨q, hq, hlt, hat⟩
    exact hline' hdue ⟨q, hafter hdue q hq hat, hlt, hat⟩

/-- Where no semicolon is due, the next token is one of the text. -/
theorem head?_not_inserted (h : Laid text false n ts) : ∀ t ∈ ts.head?, t.isInserted = false := by
  cases h with
  | done => exact nofun
  | token hreal _ _ _ =>
    rintro _ ⟨⟩
    exact hreal

/-- Behind a token of the text the others stand as they should. -/
theorem behind : ∀ {front : List Lexeme} {due : Bool} {n : Nat} {a : Lexeme},
    Laid text due n (front ++ a :: ts) → a.isInserted = false →
      Laid text a.token.endsStatement a.stop ts
  | [], _, _, _, h, ha => by
    cases h with
    | atEnd => simp [Lexeme.isInserted, Lexeme.inserted] at ha
    | atLineEnd => simp [Lexeme.isInserted, Lexeme.inserted] at ha
    | token _ _ _ hts => exact hts
  | t :: front, _, _, _, h, ha => by
    rw [List.cons_append] at h
    generalize hrest : front ++ _ :: ts = rest at h
    cases h with
    | atEnd => simp at hrest
    | atLineEnd _ hts => exact behind (hrest ▸ hts) ha
    | token _ _ _ hts => exact behind (hrest ▸ hts) ha

/-- Where no semicolon is due, none is inserted. -/
theorem eq_nil_of_inserted {mid : List Lexeme} (h : Laid text false n (mid ++ ts))
    (hmid : ∀ t ∈ mid, t.isInserted = true) : mid = [] := by
  cases mid with
  | nil => rfl
  | cons t mid =>
    have := h.head?_not_inserted t rfl
    rw [hmid t List.mem_cons_self] at this
    cases this

/-- The semicolons before the next token of the text: one at the first line end
    if one is due and a line ends before that token, and otherwise none. -/
theorem before_token {mid : List Lexeme} {b : Lexeme} (h : Laid text due n (mid ++ b :: ts))
    (hmid : ∀ t ∈ mid, t.isInserted = true) (hb : b.isInserted = false) :
    (due = true ∧ LineEndWithin text n b.start →
      ∃ p, FirstLineEnd text n p ∧ mid = [.inserted p]) ∧
    (¬ (due = true ∧ LineEndWithin text n b.start) → mid = []) := by
  cases mid with
  | nil =>
    refine ⟨fun ⟨hdue, hwithin⟩ => ?_, fun _ => rfl⟩
    cases h with
    | atEnd => simp [Lexeme.isInserted, Lexeme.inserted] at hb
    | atLineEnd => simp [Lexeme.isInserted, Lexeme.inserted] at hb
    | token _ _ hline _ => exact absurd hwithin (hline hdue)
  | cons t mid =>
    have ht := hmid t List.mem_cons_self
    have hmid' : ∀ t ∈ mid, t.isInserted = true := fun t h => hmid t (List.mem_cons_of_mem _ h)
    rw [List.cons_append] at h
    generalize hrest : mid ++ b :: ts = rest at h
    cases h with
    | atEnd => simp at hrest
    | token hreal =>
      rw [ht] at hreal
      cases hreal
    | @atLineEnd _ p _ hfirst hts =>
      rw [← hrest] at hts
      -- no further semicolon is due, so the gap holds just this one
      obtain rfl := hts.eq_nil_of_inserted hmid'
      have hwithin : LineEndWithin text n b.start := by
        cases hts with
        | token _ hn _ _ => exact ⟨p, hfirst.le, hn, hfirst.isLineEnd⟩
      exact ⟨fun _ => ⟨p, hfirst, rfl⟩, fun hno => absurd ⟨rfl, hwithin⟩ hno⟩

/-- The semicolons where no token of the text follows: one if one is due. -/
theorem at_end {mid : List Lexeme} (h : Laid text due n mid)
    (hmid : ∀ t ∈ mid, t.isInserted = true) :
    (due = true → ∃ p, mid = [.inserted p] ∧
      (FirstLineEnd text n p ∨ p = byteLength text ∧ LastLine text n)) ∧
    (due = false → mid = []) := by
  cases h with
  | done => exact ⟨nofun, fun _ => rfl⟩
  | atEnd h => exact ⟨fun _ => ⟨_, rfl, .inr ⟨rfl, h⟩⟩, nofun⟩
  | @atLineEnd _ p mid hfirst hts =>
    refine ⟨fun _ => ⟨p, ?_, .inl hfirst⟩, nofun⟩
    rw [← List.append_nil mid] at hts
    rw [hts.eq_nil_of_inserted fun t h => hmid t (List.mem_cons_of_mem _ h)]
  | token hreal =>
    rw [hmid _ List.mem_cons_self] at hreal
    cases hreal

/-- An inserted semicolon stands at a line end, or at the end of the text. -/
theorem lineEndAt_of_inserted (h : Laid text due n ts) : ∀ t ∈ ts, t.isInserted = true →
      LineEndAt text t.start ∨ t.start = byteLength text := by
  induction h with
  | done => exact List.forall_mem_nil _
  | atEnd _ =>
    rintro t ht -
    rw [List.mem_singleton.1 ht]
    exact .inr rfl
  | atLineEnd hfirst _ ih => exact List.forall_mem_cons.2 ⟨fun _ => .inl hfirst.isLineEnd, ih⟩
  | token hreal _ _ _ ih =>
    refine List.forall_mem_cons.2 ⟨fun h => ?_, ih⟩
    rw [hreal] at h
    cases h

end Laid

/-! ## The lexer -/

namespace Lexer

variable {l : Lexer} {c : Char} {cs : List Char}

theorem settle_eq (l : Lexer) (p : Nat) :
    (l.settle (some p)).1 = (if l.canEnd then some (.inserted p) else none) ∧
      (l.settle (some p)).2.canEnd = false := by
  unfold settle
  cases h : l.canEnd <;> simp [h]

theorem settle_none (l : Lexer) : l.settle none = (none, l) := by
  unfold settle
  split
  · next h => cases h
  · rfl

theorem settle_pos (l : Lexer) (p : Option Nat) : (l.settle p).2.pos = l.pos := by
  unfold settle
  split <;> rfl

/-- Reading moves past the piece. -/
theorem read_pos (l : Lexer) (c : Char) (cs : List Char) :
    (l.read c cs).2.pos = l.pos + byteLength (c :: cs.take (scan c cs).2) := by
  simp only [read]
  split <;> simp only [settle_pos, note, emit, reject]
  split <;> rfl

/-- **What reading a piece does.**  A piece in which no line ends gives nothing; a
    line end settles the semicolon that is due; and a token stands where its
    piece stands. -/
theorem read_cases (l : Lexer) (c : Char) (cs : List Char) :
    ((l.read c cs).1 = none ∧ (l.read c cs).2.canEnd = l.canEnd ∧
        ∀ p, ¬ LineEndAt (c :: cs.take (scan c cs).2) p) ∨
      (∃ k, FirstLineEnd (c :: cs.take (scan c cs).2) 0 k ∧ (l.read c cs).2.canEnd = false ∧
        (l.read c cs).1 = if l.canEnd then some (.inserted (l.pos + k)) else none) ∨
      ∃ t, (l.read c cs).2.canEnd = t.endsStatement ∧
        (l.read c cs).1 = some ⟨l.pos, t, (l.read c cs).2.pos⟩ := by
  have hpiece := scan_isPiece c cs
  have hwithin : isWithinLine (scan c cs).1 = true → ∀ p, ¬ LineEndAt (c :: cs.take (scan c cs).2) p :=
    fun hw p => not_lineEndAt_of_forall (hpiece.not_isLineEnd hw)
  simp only [read]
  split
  · next h => exact .inl ⟨rfl, rfl, hwithin (by rw [h]; rfl)⟩
  · next h =>
    rw [h] at hpiece
    refine .inr (.inl ⟨0, ?_, (settle_eq _ _).2, (settle_eq _ _).1⟩)
    exact ⟨Nat.le_refl 0, lineEndAt_cons.2 (.inl ⟨rfl, hpiece.isLineEnd⟩), fun q hq _ => hq⟩
  · next h =>
    split
    · exact .inl ⟨rfl, rfl, hwithin (by rw [h]; rfl)⟩
    · exact .inr (.inr ⟨.error, rfl, rfl⟩)
  · next h => exact .inl ⟨rfl, rfl, hwithin (by rw [h]; rfl)⟩
  · next h =>
    cases hk : lineEndOffset? (c :: cs.take (scan c cs).2) with
    | none =>
      rw [Option.map_none, settle_none]
      exact .inl ⟨rfl, rfl, lineEndOffset?_eq_none hk⟩
    | some k => exact .inr (.inl ⟨k, lineEndOffset?_eq_some hk, (settle_eq _ _).2, (settle_eq _ _).1⟩)
  all_goals exact .inr (.inr ⟨_, rfl, rfl⟩)

theorem next_of_nil (h : l.rest = []) : l.next = l.settle (some l.pos) := by
  rw [next]
  split
  · rfl
  · next h' => rw [h] at h'; cases h'

theorem next_of_cons (h : l.rest = c :: cs) : l.next = match l.read c cs with
    | (some t, l') => (some t, l')
    | (none, l') => l'.next := by
  rw [next]
  split
  · next h' => rw [h] at h'; cases h'
  · next h' =>
    rw [h] at h'
    cases h'
    split <;> next hr => rw [hr]

theorem run_of_next (l : Lexer) : l.run.1 = match l.next with
    | (none, _) => []
    | (some t, l') => t :: l'.run.1 := by
  rw [run]
  split <;> next hn => rw [hn]

/-- The tokens of a text that is at its end. -/
theorem run_of_nil (h : l.rest = []) : l.run.1 = if l.canEnd then [.inserted l.pos] else [] := by
  rw [run_of_next, next_of_nil h]
  cases hc : l.canEnd with
  | false => simp [settle, hc]
  | true =>
    have hlast : Lexer.next { l with canEnd := false } = (none, { l with canEnd := false }) :=
      next_of_nil h
    simp only [settle, hc, if_true]
    rw [run_of_next, hlast]

/-- The tokens of a text with a piece at its front. -/
theorem run_of_cons (h : l.rest = c :: cs) :
    l.run.1 = (l.read c cs).1.toList ++ (l.read c cs).2.run.1 := by
  rw [run_of_next, next_of_cons h]
  obtain ⟨t | t, l'⟩ := l.read c cs
  · exact (run_of_next l').symm
  · rfl

/-- What is laid out behind a piece is laid out before it, with what the piece
    gives. -/
theorem laid_read (htext : text = front ++ c :: cs) (hpos : byteLength front = l.pos)
    (h : Laid text (l.read c cs).2.canEnd (l.read c cs).2.pos ts) :
    Laid text l.canEnd l.pos ((l.read c cs).1.toList ++ ts) := by
  have hmove := l.read_pos c cs
  have hsplit : text = front ++ ((c :: cs.take (scan c cs).2) ++ cs.drop (scan c cs).2) := by
    rw [htext, List.cons_append, List.take_append_drop]
  have hsize : 0 < byteLength (c :: cs.take (scan c cs).2) := by
    have := Char.utf8Size_pos c
    rw [byteLength_cons]
    omega
  rcases l.read_cases c cs with ⟨hnone, hdue, hline⟩ | ⟨k, hk, hdue, htoken⟩ | ⟨t, hdue, htoken⟩
  · rw [hnone]
    rw [hdue, hmove] at h
    refine h.skip (Nat.le_add_right _ _) fun _ => ?_
    rw [hsplit, ← hpos]
    exact not_lineEndWithin_middle hline
  · rw [hdue, hmove] at h
    have hlt := hk.isLineEnd.lt
    have hfirst : FirstLineEnd text l.pos (l.pos + k) := by
      rw [hsplit, ← hpos]
      exact hk.middle
    rw [htoken]
    cases l.canEnd with
    | true => exact .atLineEnd hfirst (h.skip (by omega) nofun)
    | false => exact h.skip (Nat.le_add_right _ _) nofun
  · rw [htoken]
    rw [hdue] at h
    refine .token ?_ (Nat.le_refl _) (fun _ => ?_) h
    · simp only [Lexeme.isInserted, Bool.and_eq_false_iff, beq_eq_false_iff_ne]
      exact .inr (by omega)
    · rintro ⟨q, hq, hlt, -⟩
      exact absurd hq (Nat.not_le_of_lt hlt)

/-- **The tokens of the lexer stand as they should.** -/
theorem laid_run {l : Lexer} {front : List Char} (htext : text = front ++ l.rest)
    (hpos : byteLength front = l.pos) : Laid text l.canEnd l.pos l.run.1 := by
  cases hrest : l.rest with
  | nil =>
    rw [hrest, List.append_nil] at htext
    rw [run_of_nil hrest]
    cases l.canEnd with
    | true =>
      rw [← hpos, ← htext]
      exact .atEnd fun q hq hat => absurd hat.lt (Nat.not_lt_of_le hq)
    | false => exact .done
  | cons c cs =>
    rw [hrest] at htext
    have htext' : text = (front ++ c :: cs.take (scan c cs).2) ++ (l.read c cs).2.rest := by
      rw [htext, read_rest, List.append_assoc, List.cons_append, List.take_append_drop]
    have hpos' : byteLength (front ++ c :: cs.take (scan c cs).2) = (l.read c cs).2.pos := by
      rw [byteLength_append, hpos, read_pos]
    rw [run_of_cons hrest]
    exact laid_read htext hpos (laid_run htext' hpos')
termination_by l.rest.length
decreasing_by
  rw [read_rest, hrest, List.length_drop, List.length_cons]
  omega

end Lexer

/-! ## What this means for the text -/

/-- **Where semicolons are inserted.**  None stands before the first token of the
    text.  Between two tokens of the text with no other between them there is one,
    at the first line end behind the first of them, if that one may end a statement
    and a line ends before the second, and there is none otherwise.  Behind the
    last token of the text there is one if that token may end a statement, at the
    first line end behind it or, if there is none, at the end of the text. -/
theorem run_semicolons (text : List Char) :
    (∀ t ∈ (Lexer.ofText text).run.1.head?, t.isInserted = false) ∧
    (∀ front a mid b back, (Lexer.ofText text).run.1 = front ++ a :: (mid ++ b :: back) →
      a.isInserted = false → b.isInserted = false → (∀ t ∈ mid, t.isInserted = true) →
        (a.token.endsStatement = true ∧ LineEndWithin text a.stop b.start →
          ∃ p, FirstLineEnd text a.stop p ∧ mid = [.inserted p]) ∧
        (¬ (a.token.endsStatement = true ∧ LineEndWithin text a.stop b.start) → mid = [])) ∧
    ∀ front a mid, (Lexer.ofText text).run.1 = front ++ a :: mid →
      a.isInserted = false → (∀ t ∈ mid, t.isInserted = true) →
        (a.token.endsStatement = true → ∃ p, mid = [.inserted p] ∧
          (FirstLineEnd text a.stop p ∨ p = byteLength text ∧ LastLine text a.stop)) ∧
        (a.token.endsStatement = false → mid = []) := by
  have hlaid : Laid text false 0 (Lexer.ofText text).run.1 := by
    have hfront : text = [] ++ (Lexer.ofText text).rest := rfl
    exact Lexer.laid_run hfront rfl
  refine ⟨hlaid.head?_not_inserted, ?_, ?_⟩
  · intro front a mid b back hrun ha hb hmid
    rw [hrun] at hlaid
    exact (hlaid.behind ha).before_token hmid hb
  · intro front a mid hrun ha hmid
    rw [hrun] at hlaid
    exact (hlaid.behind ha).at_end hmid

end GoDecls
