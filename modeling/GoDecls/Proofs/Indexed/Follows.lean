/-
  Readers by index that do what the readers of cursors do.

  * `At toks c p`: the position `p` among the tokens is that of the cursor `c`;
  * `Takes m c a d`: at `c` the reader ends with the value `a` and is at `d`;
  * `Follows m d o`: at `d` the reader ends with the value or the diagnostic of the outcome
    `o` and is where that is.  There is one rule for each way of putting outcomes together;
  * single tokens, names and array lengths, and the rounds of loops;
  * `memberLoop_follows`, `listLoop_follows`: a loop does what that of cursors does, because
    the reader of its items does.
-/
import GoDecls.Indexed.Basic
import GoDecls.Proofs.Tree.Balance
import GoDecls.Proofs.Tree.Loops

namespace GoDecls.Indexed

open Tree

/-! ## Runs -/

namespace Read

variable {α β : Type}

theorem run_bind (m : Read α) (f : α → Read β) (p : Position) :
    (m >>= f).run p = (m.run p).bind fun r =>
      match r with
      | (.ok a, q) => (f a).run q
      | (.error s, q) => some (.error s, q) := by
  change (m.run p >>= _) = _
  rw [Option.bind_eq_bind]
  congr 1
  funext r
  obtain ⟨_ | _, _⟩ := r <;> rfl

theorem run_bind_ok {m : Read α} {f : α → Read β} {p q : Position} {a : α}
    (h : m.run p = some (.ok a, q)) : (m >>= f).run p = (f a).run q := by
  rw [run_bind, h]
  rfl

theorem run_bind_error {m : Read α} {f : α → Read β} {p q : Position} {s : Stop}
    (h : m.run p = some (.error s, q)) : (m >>= f).run p = some (.error s, q) := by
  rw [run_bind, h]
  rfl

theorem run_tryCatch (m : Read α) (f : Stop → Read α) (p : Position) :
    (tryCatch m f).run p = (m.run p).bind fun r =>
      match r with
      | (.ok a, q) => some (.ok a, q)
      | (.error s, q) => (f s).run q := by
  change (m.run p >>= _) = _
  rw [Option.bind_eq_bind]
  congr 1
  funext r
  obtain ⟨_ | _, _⟩ := r <;> rfl

theorem run_index (p : Position) : index.run p = some (.ok p.index, p) := rfl

theorem run_modify (f : Position → Position) (p : Position) :
    (modify f : Read Unit).run p = some (.ok (), f p) := rfl

end Read

/-! ## Positions -/

/-- The position is that of the cursor. -/
structure At (toks : Tokens) (c : Cursor) (p : Position) : Prop where
  index_le : p.index ≤ toks.list.length
  rest : c.rest = toks.list.drop p.index
  last : c.last = p.last
  size : c.size = toks.size

variable {α β : Type} {toks : Tokens} {c d e : Cursor} {p : Position}

theorem At.left_eq (h : At toks c p) : c.left = toks.list.length - p.index := by
  rw [Cursor.left, h.rest, List.length_drop]

theorem At.getElem? (h : At toks c p) (n : Nat) : toks.list[p.index + n]? = c.rest[n]? := by
  rw [h.rest, List.getElem?_drop]

/-- At `c` the reader ends with the value `a` and is at `d`. -/
def Takes (toks : Tokens) (m : Read α) (c : Cursor) (a : α) (d : Cursor) : Prop :=
  ∀ p, At toks c p → ∃ q, m.run p = some (.ok a, q) ∧ At toks d q

/-- What an outcome is, and where. -/
def result : Outcome α c → Except Stop α × Cursor
  | .ok a d _ => (.ok a, d)
  | .error f d _ => (.error (.refused f), d)

/-- At `d` the reader ends with what the outcome is, and where that is. -/
def Follows (toks : Tokens) (m : Read α) (d : Cursor) (o : Outcome α c) : Prop :=
  ∀ p, At toks d p → ∃ q, m.run p = some ((result o).1, q) ∧ At toks (result o).2 q

namespace Takes

variable {m : Read α} {f : α → Read β} {a : α} {b : β}

theorem pure (a : α) (c : Cursor) : Takes toks (pure a) c a c := fun p hp => ⟨p, rfl, hp⟩

theorem bind (h : Takes toks m c a d) (hf : Takes toks (f a) d b e) :
    Takes toks (m >>= f) c b e := by
  intro p hp
  obtain ⟨q, hm, hq⟩ := h p hp
  rw [Read.run_bind_ok hm]
  exact hf q hq

end Takes

namespace Follows

variable {m : Read α} {f : α → Read β} {a : α} {o : Outcome α c}

theorem pure {k : d.left < c.left} (a : α) :
    Follows toks (pure a) d (.ok a d k : Outcome α c) :=
  Takes.pure a d

theorem lift {o : Outcome α c} {k : c.left ≤ e.left} (h : Follows toks m d o) :
    Follows toks m d (o.lift k) := by
  cases o <;> exact h

theorem after {o : Outcome α c} {k : c.left < e.left} (h : Follows toks m d o) :
    Follows toks m d (o.after k) :=
  h.lift

theorem assoc {γ : Type} {g : β → Read γ} {o : Outcome γ c}
    (h : Follows toks (m >>= fun a => f a >>= g) d o) : Follows toks (m >>= f >>= g) d o := by
  rwa [bind_assoc]

/-- What comes first only moves on. -/
theorem takes {o : Outcome β c} (h : Takes toks m d a e) (hf : Follows toks (f a) e o) :
    Follows toks (m >>= f) d o := by
  intro p hp
  obtain ⟨q, hm, hq⟩ := h p hp
  rw [Read.run_bind_ok hm]
  exact hf q hq

theorem andThen {g : (a : α) → (e : Cursor) → e.left < c.left → Outcome β c}
    (h : Follows toks m d o) (hf : ∀ a e k, Follows toks (f a) e (g a e k)) :
    Follows toks (m >>= f) d (o.andThen g) := by
  intro p hp
  obtain ⟨q, hm, hq⟩ := h p hp
  cases o with
  | ok a e k =>
    rw [Read.run_bind_ok hm]
    exact hf a e k q hq
  | error fault e k => exact ⟨q, Read.run_bind_error hm, hq⟩

theorem bind {g : (a : α) → (e : Cursor) → e.left < c.left → Outcome β e}
    (h : Follows toks m d o) (hf : ∀ a e k, Follows toks (f a) e (g a e k)) :
    Follows toks (m >>= f) d (o.bind g) :=
  h.andThen fun a e k => (hf a e k).after

theorem map {g : α → Cursor → β} (h : Follows toks m d o)
    (hf : ∀ a e, Takes toks (f a) e (g a e) e) : Follows toks (m >>= f) d (o.map g) :=
  h.andThen fun a e _ => hf a e

end Follows

/-! ## Single tokens -/

theorem takes_nth (n : Nat) :
    Takes toks (toks.nth n) c (c.rest[n]?.map (·.token)) c := by
  intro p hp
  refine ⟨p, ?_, hp⟩
  rw [← hp.getElem? n]
  rfl

theorem takes_tok : Takes toks toks.tok c c.token? c := by
  rw [Cursor.token?, List.head?_eq_getElem?]
  exact takes_nth 0

theorem takes_tok_eq {t : Option Token} (h : c.token? = t) : Takes toks toks.tok c t c :=
  h ▸ takes_tok

theorem takes_second : Takes toks (toks.nth 1) c c.second? c := by
  have hsecond : c.second? = c.rest[1]?.map (·.token) := by
    rw [Cursor.second?, List.head?_eq_getElem?, List.getElem?_tail]
  rw [hsecond]
  exact takes_nth 1

theorem takes_second_eq {t : Option Token} (h : c.second? = t) :
    Takes toks (toks.nth 1) c t c :=
  h ▸ takes_second

theorem takes_isAt (t : Token) :
    Takes toks (toks.isAt t) c (decide (c.token? = some t)) c :=
  takes_tok.bind (.pure _ _)

theorem At.run_span (h : At toks c p) : toks.span.run p = some (.ok c.span, p) := by
  have hhead := h.getElem? 0
  rw [Tokens.span, Read.run_bind_ok (Read.run_index p), ← Nat.add_zero p.index, hhead, Cursor.span]
  cases c.rest with
  | nil => rw [h.size]; rfl
  | cons l ls => rfl

theorem takes_span : Takes toks toks.span c c.span c := fun p hp => ⟨p, hp.run_span, hp⟩

theorem takes_start : Takes toks toks.start c c.start c :=
  takes_span.bind (.pure _ _)

theorem takes_lastEnd : Takes toks lastEnd c c.last c := fun p hp => ⟨p, by rw [hp.last]; rfl, hp⟩

theorem takes_spanFrom (start : Nat) : Takes toks (spanFrom start) c (c.spanFrom start) c :=
  takes_lastEnd.bind (.pure _ _)

theorem isEmpty_ofOffsets (n : Nat) : (Span.ofOffsets n n).isEmpty = true := by
  rw [Span.isEmpty, Span.length, Span.ofOffsets, Nat.sub_self]
  rfl

theorem takes_bump : Takes toks toks.bump c c.span c.advance := by
  intro p hp
  have hrun : toks.bump.run p = some (.ok c.span,
      ⟨if p.index < toks.list.length then p.index + 1 else p.index,
        if c.span.isEmpty then p.last else c.span.stop⟩) := by
    rw [Tokens.bump, Read.run_bind_ok hp.run_span, Read.run_bind_ok (Read.run_modify _ _)]
    rfl
  refine ⟨_, hrun, ?_⟩
  have hrest := hp.rest
  have hlast := hp.last
  cases hc : c.rest with
  | nil =>
    have hend : ¬ p.index < toks.list.length := by
      rw [hc] at hrest
      exact Nat.not_lt.2 (List.drop_eq_nil_iff.1 hrest.symm)
    have hadvance : c.advance = c := by rw [Cursor.advance, hc]
    have hspan : c.span.isEmpty = true := by
      rw [Cursor.span, hc]
      exact isEmpty_ofOffsets c.size
    rw [if_neg hend, if_pos hspan, hadvance]
    exact hp
  | cons l ls =>
    have hlt : p.index < toks.list.length := by
      have hlength := congrArg List.length hrest
      rw [hc, List.length_cons, List.length_drop] at hlength
      omega
    have hadvance : c.advance =
        { c with rest := ls, last := if l.span.isEmpty then c.last else l.span.stop } := by
      rw [Cursor.advance, hc]
    have hspan : c.span = l.span := by rw [Cursor.span, hc]
    rw [if_pos hlt, hadvance, hspan, hlast]
    refine ⟨hlt, ?_, rfl, hp.size⟩
    rw [← List.tail_drop, ← hrest, hc]
    rfl

theorem takes_eat {t : Token} (h : c.token? = some t) :
    Takes toks (toks.eat t) c (some c.span) c.advance := by
  refine (takes_isAt t).bind ?_
  rw [decide_eq_true h]
  exact takes_bump.bind (.pure _ _)

theorem takes_eat_none {t : Token} (h : c.token? ≠ some t) :
    Takes toks (toks.eat t) c none c := by
  refine (takes_isAt t).bind ?_
  rw [decide_eq_false h]
  exact .pure _ _

theorem found_eq (c : Cursor) : found c.span c.token? = c.found := by
  unfold Cursor.found Cursor.token? Cursor.span
  cases c.rest <;> rfl

theorem unexpected_follows (what : String) :
    Follows toks (toks.unexpected what) c (c.fails what : Outcome α c) := by
  refine .takes takes_span (.takes takes_tok fun p hp => ⟨p, ?_, hp⟩)
  rw [found_eq]
  rfl

theorem expect_follows (t : Token) (what : String) :
    Follows toks (toks.expect t what) c (c.expect t what) := by
  unfold Cursor.expect Tokens.expect
  split
  · next h => exact .takes (takes_eat h) (.pure _)
  · next h => exact .takes (takes_eat_none h) (unexpected_follows what)

theorem takes_expect {t : Token} (h : c.token? = some t) (what : String) :
    Takes toks (toks.expect t what) c c.span c.advance :=
  (takes_eat h).bind (.pure _ _)

theorem ident_follows (what : String) : Follows toks (toks.ident what) c (c.ident what) := by
  unfold Cursor.ident
  split
  · next s h =>
    exact .takes (takes_tok_eq h) (.takes takes_bump (.pure _))
  · next h =>
    refine .takes takes_tok ?_
    split
    · next s hs => exact absurd hs (h s)
    · exact unexpected_follows what

theorem takes_ident {s : String} (h : c.token? = some (.ident s)) (what : String) :
    Takes toks (toks.ident what) c ⟨s, c.span⟩ c.advance := by
  exact (takes_tok_eq h).bind (takes_bump.bind (.pure _ _))

theorem names_follows (c : Cursor) (what : String) :
    Follows toks (toks.names what) c (c.names what) := by
  rw [Cursor.names]
  refine (ident_follows what).andThen fun name d m => ?_
  rw [Tokens.moreNames]
  simp only [bind_assoc]
  split
  · next h =>
    refine .takes (takes_eat h) ?_
    have hmore := ((names_follows d.advance what).lift (k := d.advance_le)).after (k := m)
    have hnames := hmore.map (f := fun more => pure (name :: more)) fun more e => .pure _ _
    simpa only [Tokens.names, bind_assoc, pure_bind] using hnames
  · next h => exact .takes (takes_eat_none h) (.pure _)
termination_by c.left
decreasing_by exact Nat.lt_of_le_of_lt d.advance_le m

/-! ## Brackets -/

/-- What is behind the closing bracket, by the index of that. -/
theorem afterClose?_eq {ls : List Lexeme} {depth i : Nat} (h : ls = toks.list.drop i) :
    afterClose? depth ls = (closeFrom depth i ls).map fun j => toks.list.drop (j + 1) := by
  induction ls generalizing depth i with
  | nil => rfl
  | cons l ls ih =>
    have htail : ls = toks.list.drop (i + 1) := by
      rw [← List.tail_drop, ← h]
      rfl
    rw [afterClose?, closeFrom]
    by_cases hopens : l.token.opens = true
    · rw [if_pos hopens, nest_of_opens hopens, Token.closes_of_opens hopens]
      exact ih htail
    by_cases hcloses : l.token.closes = true
    · have hnest : nest depth l.token = depth - 1 := by rw [nest, if_neg hopens, if_pos hcloses]
      rw [if_neg hopens, if_pos hcloses, hcloses, hnest]
      by_cases hdepth : depth ≤ 1
      · rw [if_pos (by simpa using hdepth), if_pos (Nat.sub_eq_zero_of_le hdepth), htail]
        rfl
      · rw [if_neg (by simpa using hdepth), if_neg (by omega)]
        exact ih htail
    · have hnest : nest depth l.token = depth := by rw [nest, if_neg hopens, if_neg hcloses]
      rw [if_neg hopens, if_neg hcloses, Bool.eq_false_iff.2 hcloses, hnest]
      exact ih htail

theorem takes_bracketThenType :
    Takes toks (toks.bracketThenType 1) c (Tree.bracketThenType c.rest.tail) c := by
  intro p hp
  have hrest : c.rest.tail = toks.list.drop (p.index + 1) := by rw [hp.rest, List.tail_drop]
  refine ⟨p, ?_, hp⟩
  have hclose : (toks.matchingClose 1).run p =
      some (.ok (closeFrom 0 (p.index + 1) c.rest.tail), p) := by
    rw [hrest]
    rfl
  rw [Tokens.bracketThenType, Read.run_bind_ok hclose, Tree.bracketThenType, afterClose?_eq hrest]
  cases closeFrom 0 (p.index + 1) c.rest.tail with
  | none => rfl
  | some close =>
    rw [Option.map_some, Option.bind_some, List.head?_drop]
    rfl

/-! ## Array lengths -/

theorem Follows.stop {m : Read α} {f : α → Read β} {fault : Diagnostic} {k : e.left ≤ c.left}
    (h : Follows toks m d (.error fault e k : Outcome α c)) :
    Follows toks (m >>= f) d (.error fault e k : Outcome β c) := by
  intro p hp
  obtain ⟨q, hm, hq⟩ := h p hp
  exact ⟨q, Read.run_bind_error hm, hq⟩

theorem lengthExtent?_le {depth n : Nat} {ls : List Lexeme} (h : lengthExtent? depth ls = some n) :
    n ≤ ls.length := by
  induction ls generalizing depth n with
  | nil => cases h
  | cons l ls ih =>
    rw [lengthExtent?] at h
    split at h
    · cases h
      exact Nat.zero_le _
    · obtain ⟨m, hm, rfl⟩ := Option.map_eq_some_iff.1 h
      exact Nat.succ_le_succ (ih hm)

theorem takes_lengthEnd {depth n : Nat} (h : lengthExtent? depth c.rest = some n) :
    Takes toks (toks.lengthEnd depth) c () (c.skip n) := by
  induction hrest : c.rest generalizing c depth n with
  | nil =>
    rw [hrest] at h
    cases h
  | cons l ls ih =>
    have htok := Cursor.token?_of_rest hrest
    have htail := Cursor.rest_advance hrest
    rw [hrest, lengthExtent?] at h
    rw [Tokens.lengthEnd]
    refine (takes_tok_eq htok).bind ?_
    dsimp only
    split at h
    · next hstop =>
      cases h
      rw [if_pos hstop]
      exact .pure _ _
    · next hstop =>
      obtain ⟨m, hm, rfl⟩ := Option.map_eq_some_iff.1 h
      rw [if_neg hstop]
      exact takes_bump.bind (ih (htail ▸ hm) htail)

theorem lengthEnd_follows {depth : Nat} (h : lengthExtent? depth c.rest = none) :
    Follows toks (toks.lengthEnd depth) c (.error ((c.skip c.left).unexpected "']'")
      (c.skip c.left) (c.skip_le _) : Outcome Unit c) := by
  induction hrest : c.rest generalizing c depth with
  | nil =>
    have htok : c.token? = none := by rw [Cursor.token?, hrest]; rfl
    have hleft : c.left = 0 := by rw [Cursor.left, hrest]; rfl
    rw [Tokens.lengthEnd]
    simp only [hleft]
    exact .takes (takes_tok_eq htok) (unexpected_follows _)
  | cons l ls ih =>
    have htok := Cursor.token?_of_rest hrest
    have htail := Cursor.rest_advance hrest
    have hleft : c.left = c.advance.left + 1 := by
      rw [Cursor.left, Cursor.left, htail, hrest, List.length_cons]
    rw [hrest, lengthExtent?] at h
    split at h
    · cases h
    · next hstop =>
      rw [Tokens.lengthEnd]
      refine .takes (takes_tok_eq htok) ?_
      dsimp only
      rw [if_neg hstop]
      refine .takes takes_bump ?_
      have hmore := ih (htail ▸ Option.map_eq_none_iff.1 h) htail
      simp only [hleft]
      exact hmore

theorem run_tokenAt {i : Nat} {l : Lexeme} (h : toks.list[i]? = some l) (p : Position) :
    (toks.tokenAt i).run p = some (.ok l, p) := by
  rw [Tokens.tokenAt, h]
  rfl

theorem run_between {i n : Nat} (h : i + n ≤ toks.list.length) (p : Position) :
    (toks.between i (i + n)).run p = some (.ok ((toks.list.drop i).take n), p) := by
  rw [Tokens.between, if_pos ⟨Nat.le_add_right _ _, h⟩, List.drop_take, Nat.add_sub_cancel_left]
  rfl

/-- The tokens of an array length are at their indices. -/
theorem run_lengthBetween {n : Nat} (h : At toks c p) (hn : n ≤ c.left) (hpos : n ≠ 0)
    (q : Position) : (toks.lengthBetween p.index (p.index + n)).run q =
      some (.ok (.expr (stretch (c.rest.take n)) (lengthExpr ((c.rest.take n).map (·.token)))),
        q) := by
  have hleft := h.left_eq
  have hlength : (c.rest.take n).length = n := by
    rw [List.length_take]
    exact Nat.min_eq_left hn
  cases hls : c.rest.take n with
  | nil =>
    rw [hls] at hlength
    exact absurd hlength.symm hpos
  | cons l ls =>
    have hfirst : toks.list[p.index]? = some l := by
      have htake := List.getElem?_take_of_lt (l := c.rest) (Nat.pos_of_ne_zero hpos)
      rw [hls] at htake
      exact (h.getElem? 0).trans htake.symm
    have hlast : toks.list[p.index + n - 1]? =
        some ((l :: ls).getLast (List.cons_ne_nil l ls)) := by
      have htake := List.getElem?_take_of_lt (l := c.rest) (Nat.sub_one_lt hpos)
      rw [← List.getLast?_eq_some_getLast, List.getLast?_eq_getElem?, ← hls, hlength, htake,
        ← h.getElem?, Nat.add_sub_assoc (Nat.pos_of_ne_zero hpos)]
    have hbetween : (toks.between p.index (p.index + n)).run q = _ :=
      run_between (by have := h.index_le; omega) q
    rw [← h.rest, hls] at hbetween
    have hbefore : (toks.tokenBefore (p.index + n)).run q =
        some (.ok ((l :: ls).getLast (List.cons_ne_nil l ls)), q) := by
      rw [Tokens.tokenBefore, if_neg (by omega)]
      exact run_tokenAt hlast q
    rw [Tokens.lengthBetween, Read.run_bind_ok (run_tokenAt hfirst q), Read.run_bind_ok hbefore,
      Read.run_bind_ok hbetween]
    rfl

theorem arrayLength_follows : Follows toks toks.arrayLength c c.arrayLength := by
  unfold Cursor.arrayLength
  intro p hp
  rw [Tokens.arrayLength, Read.run_bind_ok (Read.run_index p)]
  split
  · next h => exact Follows.stop (lengthEnd_follows h) p hp
  · next n h =>
    obtain ⟨q, hend, hq⟩ := takes_lengthEnd h p hp
    have hn : n ≤ c.left := lengthExtent?_le h
    have hindex : q.index = p.index + n := by
      have hc := hp.left_eq
      have hd := hq.left_eq
      have hp' := hp.index_le
      have hq' := hq.index_le
      rw [Cursor.left_skip] at hd
      omega
    rw [Read.run_bind_ok hend, Read.run_bind_ok (Read.run_index q), hindex]
    by_cases hzero : n = 0
    · subst hzero
      rw [dif_pos (.inl rfl), if_pos (Nat.add_zero _)]
      exact unexpected_follows _ q hq
    · rw [dif_neg (by omega), if_neg (by omega)]
      exact ⟨q, run_lengthBetween hp hn hzero q, hq⟩

/-! ## Rounds -/

section

variable {close t : Token} {atEnd behind : String} {item : Read α} {f : Round α → Read β}
  {o : Outcome α c}

theorem memberRound_end (h : c.token? = none) :
    Follows toks (toks.memberRound close atEnd behind item >>= f) c
      (c.fails atEnd : Outcome β c) := by
  rw [Tokens.memberRound, bind_assoc]
  exact .takes (takes_tok_eq h) (.stop (unexpected_follows _))

theorem takes_memberRound_close (h : c.token? = some close) :
    Takes toks (toks.memberRound close atEnd behind item) c (.done none) c := by
  refine (takes_tok_eq h).bind ?_
  dsimp only
  rw [if_pos rfl]
  exact .pure _ _

theorem takes_memberRound_semi (h : c.token? = some (.punct .semi))
    (hclose : .punct .semi ≠ close) :
    Takes toks (toks.memberRound close atEnd behind item) c (.again none) c.advance := by
  refine (takes_tok_eq h).bind ?_
  dsimp only
  rw [if_neg hclose, if_pos rfl]
  exact takes_bump.bind (.pure _ _)

theorem memberRound_item {g : (a : α) → (d : Cursor) → Outcome β d} (h : c.token? = some t)
    (hclose : t ≠ close) (hsemi : t ≠ .punct .semi) (hitem : Follows toks item c o)
    (hnext : ∀ a d, d.left < c.left → Follows toks (f (.again (some a))) d (g a d)) :
    Follows toks (toks.memberRound close atEnd behind item >>= f) c
      (o.bind fun a d _ =>
        if d.token? = some close then g a d
        else (d.expect (.punct .semi) behind).bind fun _ e _ => g a e) := by
  rw [Tokens.memberRound, bind_assoc]
  refine .takes (takes_tok_eq h) ?_
  dsimp only
  rw [if_neg hclose, if_neg hsemi]
  simp only [bind_assoc]
  refine hitem.bind fun a d hd => .takes (takes_isAt close) ?_
  by_cases hend : d.token? = some close
  · rw [if_pos hend, decide_eq_true hend, if_pos rfl, pure_bind]
    exact hnext a d hd
  · rw [if_neg hend, decide_eq_false hend, if_neg (by decide), bind_assoc]
    refine (expect_follows _ _).bind fun _ e he => ?_
    rw [pure_bind]
    exact hnext a e (Nat.lt_trans he hd)

theorem takes_listRound_close (h : c.token? = some close) :
    Takes toks (toks.listRound close item) c (.done none) c := by
  refine (takes_isAt close).bind ?_
  rw [decide_eq_true h]
  exact .pure _ _

theorem listRound_item {g g' : (a : α) → (d : Cursor) → Outcome β d}
    (hclose : c.token? ≠ some close) (hitem : Follows toks item c o)
    (hnext : ∀ a d, d.left < c.left → Follows toks (f (.again (some a))) d.advance (g a d))
    (hlast : ∀ a d, d.left < c.left → Follows toks (f (.done (some a))) d (g' a d)) :
    Follows toks (toks.listRound close item >>= f) c
      (o.bind fun a d _ => if d.token? = some (.punct .comma) then g a d else g' a d) := by
  rw [Tokens.listRound, bind_assoc]
  refine .takes (takes_isAt close) ?_
  rw [decide_eq_false hclose, if_neg (by decide), bind_assoc]
  refine hitem.bind fun a d hd => ?_
  rw [bind_assoc]
  by_cases hcomma : d.token? = some (.punct .comma)
  · rw [if_pos hcomma]
    refine .takes (takes_eat hcomma) ?_
    rw [pure_bind]
    exact hnext a d hd
  · rw [if_neg hcomma]
    refine .takes (takes_eat_none hcomma) ?_
    rw [pure_bind]
    exact hlast a d hd

end

/-! ## Loops -/

/-- What follows a round of the loop. -/
def Read.next (loop : Read (List α)) : Round α → Read (List α)
  | .done a => return a.toList
  | .again a => return a.toList ++ (← loop)

theorem Read.rounds_eq (round : Read (Round α)) : round.rounds = round >>= round.rounds.next :=
  (Read.rounds.eq_def round).trans (bind_congr fun r => by cases r <;> rfl)

section

variable {S : ListShape α β} {item : (c : Cursor) → Outcome α c} {loop : (c : Cursor) → Outcome β c}
  {rounds : Read (List α)} {reader : Read α}

/-- Rounds over members, and the bracket behind them. -/
theorem memberLoop_follows (hloop : Cursor.ListLoop S item loop) (hsep : S.sep = .semi)
    {atEnd : String} (hatEnd : S.atEnd = some atEnd)
    (hrounds : rounds =
      toks.memberRound (.punct S.close) atEnd S.what reader >>= rounds.next)
    (c : Cursor) (hreader : ∀ d, d.left ≤ c.left → Follows toks reader d (item d)) :
    Follows toks (do
      let xs ← rounds
      let s ← toks.bump
      return S.make xs s) c (loop c) := by
  have hnext (d : Cursor) (hd : d.left < c.left) := memberLoop_follows hloop hsep hatEnd hrounds d
    fun e he => hreader e (Nat.le_trans he (Nat.le_of_lt hd))
  rw [hrounds, bind_assoc]
  cases htok : c.token? with
  | none =>
    obtain ⟨what, hwhat, h⟩ | ⟨hnone, -⟩ := hloop.at_end htok
    · cases hatEnd.symm.trans hwhat
      rw [h]
      exact memberRound_end htok
    · cases hatEnd.symm.trans hnone
  | some t =>
    by_cases hclose : t = .punct S.close
    · subst hclose
      rw [hloop.at_close htok]
      exact .takes (takes_memberRound_close htok) (.takes (.pure [] c) (.takes takes_bump (.pure _)))
    by_cases hsemi : t = .punct .semi
    · subst hsemi
      rw [hloop.at_semi hsep (hsep ▸ htok)]
      refine .takes (takes_memberRound_semi htok hclose) ?_
      simpa [Read.next] using (hnext c.advance (Cursor.advance_lt htok)).lift (k := c.advance_le)
    · rw [hloop.at_item htok hclose fun _ => hsep ▸ hsemi]
      simp only [Cursor.behind_eq_of_loop hloop.at_close, hsep]
      refine memberRound_item htok hclose hsemi (hreader c (Nat.le_refl _)) fun a d hd => ?_
      have hmore := (hnext d hd).map (f := fun b => pure (S.cons a b)) fun b e => .pure _ _
      simpa [Read.next, S.cons_make] using hmore
termination_by c.left

/-- Rounds over items, and the bracket that must stand behind them. -/
theorem listLoop_follows (hloop : Cursor.ListLoop S item loop) (hsep : S.sep = .comma)
    (hatEnd : S.atEnd = none)
    (hrounds : rounds = toks.listRound (.punct S.close) reader >>= rounds.next)
    (c : Cursor) (hreader : ∀ d, d.left ≤ c.left → Follows toks reader d (item d)) :
    Follows toks (do
      let xs ← rounds
      let s ← toks.expect (.punct S.close) S.what
      return S.make xs s) c (loop c) := by
  have hnext (d : Cursor) (hd : d.left < c.left) := listLoop_follows hloop hsep hatEnd hrounds d
    fun e he => hreader e (Nat.le_trans he (Nat.le_of_lt hd))
  rw [hrounds, bind_assoc]
  by_cases hclose : c.token? = some (.punct S.close)
  · rw [hloop.at_close hclose]
    refine .takes (takes_listRound_close hclose) (.takes (.pure [] c) ?_)
    exact .takes (takes_expect hclose _) (.pure _)
  have hitem : loop c = (item c).bind fun a d _ => d.behind S loop a := by
    cases htok : c.token? with
    | none =>
      obtain ⟨what, hwhat, -⟩ | ⟨-, h⟩ := hloop.at_end htok
      · cases hatEnd.symm.trans hwhat
      · exact h
    | some t =>
      exact hloop.at_item htok (fun ht => hclose (ht ▸ htok)) fun h => nomatch hsep.symm.trans h
  rw [hitem]
  simp only [Cursor.behind_eq_of_expect, hsep]
  refine listRound_item hclose (hreader c (Nat.le_refl _)) (fun a d hd => ?_) fun a d _ => ?_
  · have hlt := Nat.lt_of_le_of_lt d.advance_le hd
    have hmore := ((hnext d.advance hlt).lift (k := d.advance_le)).map
      (f := fun b => pure (S.cons a b)) fun b e => .pure _ _
    simpa [Read.next, S.cons_make] using hmore
  · refine .takes (.pure [a] d) ((expect_follows _ _).map fun s e => ?_)
    rw [S.cons_make]
    exact .pure _ _
termination_by c.left

end

end GoDecls.Indexed
