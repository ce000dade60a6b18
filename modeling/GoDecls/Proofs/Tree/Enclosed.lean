/-
  Texts with parentheses around a type.

  * `enclosed text s`: the text with parentheses around a stretch;
  * `tokensUnder text s`: the tokens under the stretch;
  * `Shifted text text' n m s s'`: the stretch `s` is found at `s'` in a text with a
    parenthesis put in at byte `n` and one at `m`;
  * `SourceFile.ofText_wrapped`: with parentheses around a type or a single result that
    may have them a file has the same declarations, but for these parentheses and places,
    and the comments of the same text.
-/
import GoDecls.Proofs.Comment.Parenthesis
import GoDecls.Proofs.Tree.Attached
import GoDecls.Proofs.Tree.EncloseFile

namespace GoDecls

open Text

/-- The text with parentheses around a stretch of it. -/
def enclosed (text : List Char) (s : Span) : List Char :=
  insertAt (insertAt text s.stop ')') s.start '('

/-- The tokens that reach into a stretch of a text. -/
def tokensUnder (text : List Char) (s : Span) : List Token :=
  ((Lexer.ofText text).run.1.filter fun l => s.start < l.stop && l.start < s.stop).map Lexeme.token

namespace Tree

/-- The stretch of the first text is found at the second one in the second text: there
    stands the same, one byte further on behind each of the places `n` and `m`. -/
structure Shifted (text text' : List Char) (n m : Nat) (s s' : Span) : Prop where
  place : s.start < s.stop → s' = (s.moved m).moved n
  text : s'.text? text' = s.text? text

/-- Tokens moved by one number of bytes are the twins of those moved by another. -/
theorem Twins.of_shifts {σ : Span → Span → Prop} {ls : List Lexeme} {k k' : Nat}
    (h : ∀ l ∈ ls, ∀ l' ∈ ls, σ (.ofOffsets (l.start + k) (l'.stop + k))
      (.ofOffsets (l.start + k') (l'.stop + k'))) :
    Twins σ (ls.map (Lexeme.shift k)) (ls.map (Lexeme.shift k')) where
  tokens := by
    rw [List.map_map, List.map_map]
    rfl
  stretch i n hn hle := by
    rw [List.length_map] at hle
    rw [← List.map_drop, ← List.map_take, ← List.map_drop, ← List.map_take]
    have hne : (ls.drop i).take n ≠ [] := by
      intro hnil
      have := congrArg List.length hnil
      rw [List.length_take, List.length_drop, List.length_nil] at this
      omega
    have hsub : (ls.drop i).take n ⊆ ls := fun l hl => List.mem_of_mem_drop (List.mem_of_mem_take hl)
    generalize (ls.drop i).take n = xs at hne hsub
    cases xs with
    | nil => exact absurd rfl hne
    | cons x xs =>
      have hstretch (j : Nat) : Tree.stretch ((x :: xs).map (Lexeme.shift j)) =
          .ofOffsets (x.start + j) (((x :: xs).getLast hne).stop + j) := by
        have hlast : ((x :: xs).map (Lexeme.shift j)).getLast (by simp) =
            ((x :: xs).getLast hne).shift j := List.getLast_map _
        exact congrArg (fun l : Lexeme => Span.ofOffsets (x.start + j) l.stop) hlast
      rw [hstretch, hstretch]
      exact h x (hsub List.mem_cons_self) _ (hsub (List.getLast_mem hne))

theorem map_shift_zero (ls : List Lexeme) : ls.map (Lexeme.shift 0) = ls := List.map_id ls

/-! ## Two parentheses -/

/-- The token reaches into the stretch, and not out of it. -/
structure Within (a b : Nat) (l : Lexeme) : Prop where
  start : a ≤ l.start
  stop : l.stop ≤ b
  startLt : l.start < b
  ltStop : a < l.stop

/-- The tokens of the text are those of `us`, `ms` and `ws`, and in the last text those of
    `ms` stand in parentheses: the closing one is put into the text at `m`, and into what
    comes of it the opening one at `n`. -/
structure Encloses (text mid text' : List Char) (us ms ws : List Lexeme) (n m : Nat) : Prop where
  closing : ∃ A C, Put text mid m true A C
  opening : ∃ A C, Put mid text' n false A C
  lt : n < m
  run : (Lexer.ofText text).run.1 = us ++ (ms ++ ws)
  run' : (Lexer.ofText text').run.1 = us ++ parenLexeme n false ::
    (ms.map (Lexeme.shift 1) ++ (parenLexeme m true).shift 1 :: ws.map (Lexeme.shift 2))
  before : ∀ l ∈ us, l.stop ≤ n
  inside : ∀ l ∈ ms, Within n m l
  behind : ∀ l ∈ ws, m ≤ l.start

section

variable {text : List Char} {us ms ws : List Lexeme} {first last : Lexeme}

/-- Tokens in order stand between the first of them and the last. -/
theorem within_of_ordered (hms : ms.Pairwise (·.stop ≤ ·.start)) (hle : ∀ l ∈ ms, l.start ≤ l.stop)
    (hfirst : ms.head? = some first) (hfirst_extent : first.start < first.stop)
    (hlast : ms.getLast? = some last) (hlast_extent : last.start < last.stop) :
    ∀ l ∈ ms, Within first.start last.stop l := by
  obtain ⟨tail, htail⟩ := List.head?_eq_some_iff.1 hfirst
  obtain ⟨init, hinit⟩ := List.getLast?_eq_some_iff.1 hlast
  intro l hl
  have hextent := hle l hl
  have hbegin : l = first ∨ first.stop ≤ l.start := by
    rw [htail] at hl hms
    exact (List.mem_cons.1 hl).imp id ((List.pairwise_cons.1 hms).1 l)
  have hend : l = last ∨ l.stop ≤ last.start := by
    rw [hinit] at hl hms
    refine (List.mem_append.1 hl).symm.imp List.mem_singleton.1 fun hl => ?_
    exact (List.pairwise_append.1 hms).2.2 l hl last (List.mem_singleton_self _)
  have hbounds : first.start ≤ l.start ∧ first.start < l.stop := by
    rcases hbegin with rfl | hbegin <;> omega
  have hbounds' : l.stop ≤ last.stop ∧ l.start < last.stop := by
    rcases hend with rfl | hend <;> omega
  exact ⟨hbounds.1, hbounds'.1, hbounds'.2, hbounds.2⟩

theorem not_isInserted {l : Lexeme} (h : l.token ≠ .punct .semi) : l.isInserted = false := by
  rw [Lexeme.isInserted, beq_eq_false_iff_ne.2 h, Bool.false_and]

theorem ne_semi_of_startsType {t : Token} (h : t.startsType = true) : t ≠ .punct .semi := by
  rintro rfl
  cases h

theorem ne_semi_of_endsStatement {t : Token} (h : t.endsStatement = true) : t ≠ .punct .semi := by
  rintro rfl
  cases h

/-- **Parentheses may be put around the tokens of a type.** -/
theorem exists_encloses (hlimit : byteLength text ≤ Span.limit)
    (hfaultless : ∀ s ∈ segments 0 text, s.fault? = none)
    (hrun : (Lexer.ofText text).run.1 = us ++ (ms ++ ws))
    (hus : ∃ u ∈ us, u.token ≠ .punct .semi) (hfirst : ms.head? = some first)
    (hstarts : first.token.startsType = true) (hlast : ms.getLast? = some last)
    (hends : last.token.endsStatement = true) :
    Encloses text (insertAt text last.stop ')') (enclosed text ⟨first.start, last.stop⟩) us ms ws
      first.start last.stop := by
  have hc := placed_run hlimit
  have hstands (l : Lexeme) (hl : l ∈ us ++ (ms ++ ws)) : Stands text l := hc.tokens l (hrun ▸ hl)
  have hordered : (us ++ (ms ++ ws)).Pairwise (·.stop ≤ ·.start) := hrun ▸ hc.ordered
  obtain ⟨-, hbehind, hbefore⟩ := List.pairwise_append.1 hordered
  obtain ⟨hms, -, hafter⟩ := List.pairwise_append.1 hbehind
  have hfirst_mem := List.mem_of_head? hfirst
  have hlast_mem := List.mem_of_getLast? hlast
  have hinside := within_of_ordered hms (fun l hl => (hstands l (by simp [hl])).le) hfirst
    ((hstands first (by simp [hfirst_mem])).extent (ne_semi_of_startsType hstarts)) hlast
    ((hstands last (by simp [hlast_mem])).extent (ne_semi_of_endsStatement hends))
  have hlt : first.start < last.stop := (hinside first hfirst_mem).startLt
  have hpos : 0 < first.start := by
    obtain ⟨u, hu, hsemi⟩ := hus
    have := (hstands u (by simp [hu])).extent hsemi
    have := hbefore u hu first (by simp [hfirst_mem])
    omega
  obtain ⟨tail, rfl⟩ := List.head?_eq_some_iff.1 hfirst
  obtain ⟨init, hinit⟩ := List.getLast?_eq_some_iff.1 hlast
  -- the closing parenthesis
  have hrun_last : (Lexer.ofText text).run.1 = (us ++ init) ++ last :: ws := by
    rw [hrun, hinit]
    simp
  obtain ⟨A, C, hput, hA⟩ := exists_put_closing hfaultless hrun_last
    (not_isInserted (ne_semi_of_endsStatement hends)) hends
  obtain ⟨us₁, ws₁, rfl, hrun₁, hrun_mid⟩ := hput.run_eq
  have hfront : (lexemes false A).1 = us ++ first :: tail := by
    rw [hA, hinit, List.append_assoc]
  rw [hfront] at hrun₁ hrun_mid
  obtain rfl : ws = ws₁ := by
    rw [hrun, List.append_assoc] at hrun₁
    exact List.append_cancel_left (List.append_cancel_left hrun₁)
  -- the opening one
  have hrun_first : (Lexer.ofText (insertAt text last.stop ')')).run.1 =
      us ++ first :: (tail ++ parenLexeme last.stop true :: ws.map (Lexeme.shift 1)) := by
    rw [hrun_mid]
    simp
  obtain ⟨A', C', hput', hA'⟩ := exists_put_opening hput.faultless' hrun_first
    (not_isInserted (ne_semi_of_startsType hstarts)) hstarts hpos
  obtain ⟨us₂, ws₂, rfl, hrun₂, hrun'⟩ := hput'.run_eq
  rw [hA'] at hrun₂ hrun'
  rw [hrun_first] at hrun₂
  rw [← List.append_cancel_left hrun₂] at hrun'
  refine ⟨⟨A, C, hput⟩, ⟨A', C', hput'⟩, hlt, hrun, ?_, ?_, hinside, ?_⟩
  · rw [enclosed, hrun']
    simp [List.map_append, Lexeme.shift, Function.comp_def]
  · exact fun l hl => hbefore l hl first (by simp)
  · exact fun l hl => hafter last hlast_mem l hl

theorem start_of_rest {c : Cursor} {l : Lexeme} {ls : List Lexeme} (h : c.rest = l :: ls) :
    c.start = l.span.start := by
  rw [Cursor.start, Cursor.span, h]

theorem isEmpty_eq_false {a b : Nat} (h : a < b) : (Span.mk a b).isEmpty = false := by
  rw [Span.isEmpty, Span.length, beq_eq_false_iff_ne]
  dsimp only
  omega

end

namespace Encloses

variable {text mid text' : List Char} {us ms ws : List Lexeme} {n m a b : Nat}
  (h : Encloses text mid text' us ms ws n m)

include h

theorem shifted_before (hb : b ≤ n) : Shifted text text' n m ⟨a, b⟩ ⟨a, b⟩ where
  place hab := by
    rw [moved_before hab (Nat.le_trans hb (Nat.le_of_lt h.lt)), moved_before hab hb]
  text := by
    obtain ⟨_, _, hclosing⟩ := h.closing
    obtain ⟨_, _, hopening⟩ := h.opening
    have hlt := h.lt
    exact (hopening.slice?_before hb).trans (hclosing.slice?_before (by omega))

theorem shifted_inside (ha : n ≤ a) (hb : b ≤ m) :
    Shifted text text' n m ⟨a, b⟩ ⟨a + 1, b + 1⟩ where
  place hab := by
    rw [moved_before hab hb, moved_behind hab ha]
  text := by
    obtain ⟨_, _, hclosing⟩ := h.closing
    obtain ⟨_, _, hopening⟩ := h.opening
    exact (hopening.slice?_behind ha).trans (hclosing.slice?_before hb)

theorem shifted_behind (ha : m ≤ a) : Shifted text text' n m ⟨a, b⟩ ⟨a + 2, b + 2⟩ where
  place hab := by
    have hn : n ≤ a + 1 := Nat.le_succ_of_le (Nat.le_trans (Nat.le_of_lt h.lt) ha)
    rw [moved_behind hab ha, moved_behind (Nat.succ_lt_succ hab) hn]
  text := by
    obtain ⟨_, _, hclosing⟩ := h.closing
    obtain ⟨_, _, hopening⟩ := h.opening
    have hn : n ≤ a + 1 := Nat.le_succ_of_le (Nat.le_trans (Nat.le_of_lt h.lt) ha)
    exact (hopening.slice?_behind hn).trans (hclosing.slice?_behind ha)

theorem byteLength_eq : byteLength text' = byteLength text + 2 := by
  obtain ⟨_, _, hclosing⟩ := h.closing
  obtain ⟨_, _, hopening⟩ := h.opening
  rw [hopening.byteLength_eq, hclosing.byteLength_eq]

variable (hlimit : byteLength text' ≤ Span.limit)

include hlimit

theorem span_ofOffsets {k : Nat} (hk : k ≤ 2) {l l' : Lexeme} (hl : Stands text l)
    (hl' : Stands text l') :
    Span.ofOffsets l.start l'.stop = ⟨l.start, l'.stop⟩ ∧
      Span.ofOffsets (l.start + k) (l'.stop + k) = ⟨l.start + k, l'.stop + k⟩ := by
  have := h.byteLength_eq
  have := hl.start.le
  have := hl'.stop.le
  exact ⟨Span.ofOffsets_of_le (by omega) (by omega), Span.ofOffsets_of_le (by omega) (by omega)⟩

/-- Tokens that are found as many bytes further on are the twins of those there were. -/
theorem twins_shift {ls : List Lexeme} {k : Nat} (hk : k ≤ 2)
    (hls : ls ⊆ (Lexer.ofText text).run.1)
    (hshifted : ∀ l ∈ ls, ∀ l' ∈ ls,
      Shifted text text' n m ⟨l.start, l'.stop⟩ ⟨l.start + k, l'.stop + k⟩) :
    Twins (Shifted text text' n m) ls (ls.map (Lexeme.shift k)) := by
  have htwins : Twins (Shifted text text' n m) (ls.map (Lexeme.shift 0))
      (ls.map (Lexeme.shift k)) := by
    refine .of_shifts fun l hl l' hl' => ?_
    obtain ⟨hspan, hspan'⟩ :=
      h.span_ofOffsets hlimit hk (stands_of_mem_run (hls hl)) (stands_of_mem_run (hls hl'))
    rw [Nat.add_zero, Nat.add_zero, hspan, hspan']
    exact hshifted l hl l' hl'
  rwa [map_shift_zero] at htwins

theorem twins_before : Twins (Shifted text text' n m) us us := by
  have hus : us ⊆ (Lexer.ofText text).run.1 := h.run ▸ List.subset_append_left _ _
  have htwins := h.twins_shift (k := 0) hlimit (Nat.zero_le 2) hus
    fun _ _ l' hl' => h.shifted_before (h.before l' hl')
  rwa [map_shift_zero] at htwins

theorem twins_inside : Twins (Shifted text text' n m) ms (ms.map (Lexeme.shift 1)) :=
  h.twins_shift hlimit (Nat.le_succ 1)
    (h.run ▸ fun _ hl => List.mem_append_right _ (List.mem_append_left _ hl))
    fun l hl l' hl' => h.shifted_inside (h.inside l hl).start (h.inside l' hl').stop

theorem twins_behind : Twins (Shifted text text' n m) ws (ws.map (Lexeme.shift 2)) :=
  h.twins_shift hlimit (Nat.le_refl 2)
    (h.run ▸ fun _ hl => List.mem_append_right _ (List.mem_append_right _ hl))
    fun l hl _ _ => h.shifted_behind (h.behind l hl)

/-! ## Comments -/

omit hlimit in
theorem mem_tokens {l : Lexeme} (hl : (Span.mk l.start l.stop) ∈ (Layout.ofText text).tokens) :
    ((Span.mk l.start l.stop).moved m) ∈ (Layout.ofText mid).tokens := by
  obtain ⟨_, _, hclosing⟩ := h.closing
  exact hclosing.mem_tokens.2 (.inr ⟨_, hl, rfl⟩)

/-- The token stands outside the parentheses. -/
def Outer (text : List Char) (n m : Nat) (l : Lexeme) : Prop :=
  Span.mk l.start l.stop ∈ (Layout.ofText text).tokens ∧ (l.stop ≤ n ∨ m ≤ l.start)

theorem lexeme_span {l l' : Lexeme} (hl : Outer text n m l)
    (hσ : Shifted text text' n m l.span l'.span) :
    l.start < l.stop ∧ l.span = ⟨l.start, l.stop⟩ ∧
      l'.span = ((Span.mk l.start l.stop).moved m).moved n := by
  obtain ⟨s, hs, -, hspan⟩ := Layout.mem_tokens_of_run.1 hl.1
  obtain ⟨hstart, hstop⟩ := Span.mk.inj hspan
  have hlt : l.start < l.stop := by
    have := s.start_lt_stop
    omega
  have hheld : l.stop ≤ Span.limit := by
    have := (boundary_segment hs).2.le
    have := h.byteLength_eq
    omega
  have hl_span : l.span = ⟨l.start, l.stop⟩ := Span.ofOffsets_of_le (by omega) hheld
  have hplace := hσ.place
  rw [hl_span] at hplace
  exact ⟨hlt, hl_span, hplace hlt⟩

/-- **The same groups belong to what stands outside the parentheses.** -/
theorem sameGroups : SameGroups (Shifted text text' n m) (Outer text n m) Eq
    (Layout.ofText text) (Layout.ofText text') := by
  obtain ⟨_, _, hclosing⟩ := h.closing
  obtain ⟨_, _, hopening⟩ := h.opening
  have hlt := h.lt
  have hlimit_mid : byteLength mid ≤ Span.limit := by
    have := hopening.byteLength_eq
    omega
  constructor
  · intro c c' l l' hc hc' hσ hl
    obtain ⟨hextent, hspan, hspan'⟩ := h.lexeme_span hlimit hl hσ
    obtain ⟨_, hrest⟩ := List.head?_eq_some_iff.1 hc
    obtain ⟨_, hrest'⟩ := List.head?_eq_some_iff.1 hc'
    have hout := hl.2
    have hstart : c.start = l.start := by rw [start_of_rest hrest, hspan]
    have hstart' : c'.start = movedStart n (movedStart m l.start) := by
      rw [start_of_rest hrest', hspan']
      rfl
    have hfirst : movedStart m l.start ≠ n := by
      unfold movedStart
      split <;> omega
    rw [hstart, hstart', hopening.docFor?_eq hlimit fun _ => hfirst,
      hclosing.docFor?_eq hlimit_mid (by rintro ⟨⟩)]
  · intro c c' l l' hc hc' hσ hl
    obtain ⟨hextent, hspan, hspan'⟩ := h.lexeme_span hlimit hl hσ
    obtain ⟨_, hrest⟩ := List.head?_eq_some_iff.1 hc
    obtain ⟨_, hrest'⟩ := List.head?_eq_some_iff.1 hc'
    have hout := hl.2
    have hlast : c.advance.last = l.stop := by
      rw [Cursor.last_advance hrest (hspan ▸ isEmpty_eq_false hextent), hspan]
    have hlast' : c'.advance.last = movedStop n ((Span.mk l.start l.stop).moved m).stop := by
      have hmoved : ((Span.mk l.start l.stop).moved m).start < ((Span.mk l.start l.stop).moved m).stop :=
        movedStart_lt_movedStop hextent
      rw [Cursor.last_advance hrest' (hspan' ▸ isEmpty_eq_false (movedStart_lt_movedStop hmoved)), hspan']
      rfl
    rw [hlast, hlast', hopening.lineCommentAfter?_eq hlimit (h.mem_tokens hl.1) (by rintro ⟨⟩)]
    exact (hclosing.lineCommentAfter?_eq hlimit_mid hl.1 fun _ => (by
      change l.stop ≠ m
      omega)).symm

/-- Behind the closing parenthesis stands the group that stood behind what it closes. -/
theorem closes {l : Lexeme} (hl : l ∈ ms) (hextent : l.start < l.stop) (hm : l.stop = m) :
    Closes (Layout.ofText text) (Layout.ofText text') Eq l ((parenLexeme m true).shift 1) := by
  obtain ⟨_, _, hclosing⟩ := h.closing
  obtain ⟨_, _, hopening⟩ := h.opening
  have hlt := h.lt
  have hlength := h.byteLength_eq
  have hlength_mid := hopening.byteLength_eq
  have hstop : l.stop ≤ byteLength text := by
    have hmem : l ∈ (Lexer.ofText text).run.1 := h.run ▸ by simp [hl]
    exact (stands_of_mem_run hmem).stop.le
  have hspan : l.span = ⟨l.start, l.stop⟩ := Span.ofOffsets_of_le (by omega) (by omega)
  have hspan' : ((parenLexeme m true).shift 1).span = ⟨m + 1, m + 2⟩ := by
    change Span.ofOffsets (m + 1) (m + 2) = _
    exact Span.ofOffsets_of_le (by omega) (by omega)
  have hparen : Span.mk m (m + 1) ∈ (Layout.ofText mid).tokens :=
    hclosing.mem_tokens.2 (.inl rfl)
  have hmoved : movedStop n (m + 1) = m + 2 := movedStop_of_lt (by omega)
  refine ⟨hspan ▸ isEmpty_eq_false hextent, hspan' ▸ isEmpty_eq_false (Nat.lt_succ_self _), ?_⟩
  have hline := hopening.lineCommentAfter?_eq hlimit hparen (by rintro ⟨⟩)
  rw [hspan, hspan', hm]
  dsimp only at hline ⊢
  rw [← hmoved, hline, hclosing.lineCommentAfter?_behind (by omega) rfl]

/-- **In the text the tokens stand in parentheses.** -/
theorem around {κ : Lexeme → Lexeme → Prop} (hbalanced : Balanced (ms.map Lexeme.token))
    (hκ : ∀ l ∈ ms.getLast?, κ l ((parenLexeme m true).shift 1)) :
    Cursor.Around (Shifted text text' n m) (Outer text n m) κ us ms ws
      ⟨(Lexer.ofText text').run.1, 0, byteLength text'⟩ (ws.map (Lexeme.shift 2)) where
  split := ⟨us, ms.map (Lexeme.shift 1), parenLexeme n false, (parenLexeme m true).shift 1, h.run',
    h.twins_before hlimit, rfl, h.twins_inside hlimit, rfl, hκ⟩
  behind := h.twins_behind hlimit
  balanced := hbalanced
  solid := by
    intro l hl hsemi
    have hmem : l ∈ (Lexer.ofText text).run.1 := by
      rw [h.run]
      rcases List.mem_append.1 hl with hl | hl <;> simp [hl]
    refine ⟨among_run _ l hmem (not_isInserted hsemi), ?_⟩
    exact (List.mem_append.1 hl).imp (h.before l) (h.behind l)

end Encloses

/-! ## The stretch of a type -/

section

variable {text : List Char} {us ms ws : List Lexeme} {s : Span}

/-- What covers the tokens reaches from the first of them to the last. -/
theorem span_of_covers {c : Cursor} (hc : c.Placed text) (hrest : c.rest = us ++ (ms ++ ws))
    (hs : Cursor.Covers s (c.skip us.length) (c.skip (us.length + ms.length))) {first last : Lexeme}
    (hfirst : ms.head? = some first) (hfirst_extent : first.start < first.stop)
    (hlast : ms.getLast? = some last) (hextent : last.start < last.stop) :
    s = ⟨first.start, last.stop⟩ := by
  have hplaced := (hc.skip_spec us.length).1
  have hrest₁ : (c.skip us.length).rest = ms ++ ws := by
    rw [Cursor.skip_rest, hrest, List.drop_left]
  rw [Cursor.Past.skip_add] at hs
  generalize c.skip us.length = c₁ at hs hplaced hrest₁
  have hrest₂ : (c₁.skip ms.length).rest = ws := by
    rw [Cursor.skip_rest, hrest₁, List.drop_left]
  obtain ⟨tail, hms⟩ := List.head?_eq_some_iff.1 hfirst
  obtain ⟨init, hms'⟩ := List.getLast?_eq_some_iff.1 hlast
  have hfirst_rest : c₁.rest = first :: (tail ++ ws) := by rw [hrest₁, hms]; rfl
  have hlast_rest : c₁.rest = init ++ last :: (c₁.skip ms.length).rest := by
    rw [hrest₁, hrest₂, hms', List.append_assoc]
    rfl
  have hspan : last.span = ⟨last.start, last.stop⟩ :=
    hplaced.span_eq (hplaced.tokens last (hrest₁ ▸ hms' ▸ by simp))
  have hlength : ms.length ≤ c₁.left := by
    rw [Cursor.left, hrest₁, List.length_append]
    exact Nat.le_add_right _ _
  obtain ⟨b, hb, hb'⟩ := (Cursor.Past.of_skip hlength).atLast hlast_rest
  have hend : (c₁.skip ms.length).last = last.stop := by
    rw [← hb', Cursor.last_advance hb (hspan ▸ isEmpty_eq_false hextent), hspan]
  have hstands (l : Lexeme) (hl : l ∈ ms) : Stands text l :=
    hplaced.tokens l (hrest₁ ▸ List.mem_append_left ws hl)
  have hspans {l l' : Lexeme} (hl : l ∈ ms) (hl' : l' ∈ ms) :
      Span.ofOffsets l.start l'.stop = ⟨l.start, l'.stop⟩ :=
    Span.ofOffsets_of_le (hplaced.boundary_le (hstands l hl).start)
      (hplaced.boundary_le (hstands l' hl').stop)
  have hfirst_mem := List.mem_of_head? hfirst
  have hlast_mem := List.mem_of_getLast? hlast
  rcases hs with rfl | ⟨hadvance, rfl⟩
  · have hwithin := within_of_ordered
      (List.Pairwise.sublist (hrest₁ ▸ List.sublist_append_left ms ws) hplaced.ordered)
      (fun l hl => (hstands l hl).le) hfirst hfirst_extent hlast hextent last hlast_mem
    rw [Cursor.spanFrom, hplaced.start_eq hfirst_rest, hend,
      Nat.max_eq_left (Nat.le_of_lt hwithin.ltStop), hspans hfirst_mem hlast_mem]
  · -- a single token
    have hone : ms = [first] := by
      have hlengths := congrArg List.length (hadvance ▸ hrest₂ : c₁.advance.rest = ws)
      rw [Cursor.advance_rest, hrest₁, hms] at hlengths
      have htail : tail = [] := List.length_eq_zero_iff.1 (by simpa using hlengths)
      rw [hms, htail]
    rw [hone] at hlast
    obtain rfl : first = last := by simpa using hlast
    rw [Cursor.span, hfirst_rest]
    exact hspans hfirst_mem hfirst_mem

theorem Encloses.tokensUnder_eq {mid text' : List Char} {n m : Nat}
    (h : Encloses text mid text' us ms ws n m) :
    tokensUnder text ⟨n, m⟩ = ms.map Lexeme.token := by
  have hus : us.filter (fun l => n < l.stop && l.start < m) = [] := by
    refine List.filter_eq_nil_iff.2 fun l hl => ?_
    have := h.before l hl
    simp
    omega
  have hms : ms.filter (fun l => n < l.stop && l.start < m) = ms := by
    refine List.filter_eq_self.2 fun l hl => ?_
    simp [(h.inside l hl).ltStop, (h.inside l hl).startLt]
  have hws : ws.filter (fun l => n < l.stop && l.start < m) = [] := by
    refine List.filter_eq_nil_iff.2 fun l hl => ?_
    have := h.behind l hl
    simp
    omega
  rw [tokensUnder, h.run, List.filter_append, List.filter_append, hus, hms, hws, List.nil_append,
    List.append_nil]

end

/-! ## Files -/

section

variable {text : List Char} {file : SourceFile} {S : TypeExpr} {s : Span}
  {σ : Span → Span → Prop} {ω : Lexeme → Prop} {κ : Lexeme → Lexeme → Prop}
  {Q : Cursor → List Lexeme → Prop}

/-- A file begins with its package clause. -/
theorem token?_of_read {layout : Layout} {c : Cursor} (h : (SourceFile.read layout c).2 = []) :
    c.token? = some (.keyword .package) := by
  obtain ⟨keyword, name, next, m, hclause⟩ := SourceFile.clause_of_read h
  obtain ⟨_, _, _, _, hexpect, -⟩ := Outcome.ok_of_bind hclause
  exact (Cursor.ok_of_expect hexpect).1

/-- The cursor at the front of a text. -/
def Cursor.ofText (text : List Char) : Cursor := ⟨(Lexer.ofText text).run.1, 0, byteLength text⟩

/-- Where parentheses may be put among the tokens, they may be put into the text. -/
theorem encloses_of_admits (hlimit : byteLength text ≤ Span.limit)
    (hfaultless : ∀ s ∈ segments 0 text, s.fault? = none)
    (htoken : (Cursor.ofText text).token? = some (.keyword .package))
    (h : (Cursor.ofText text).Admits σ ω κ s
      ((Cursor.ofText text).skip (Cursor.ofText text).left) Q) :
    ∃ us ms ws last,
      Encloses text (insertAt text s.stop ')') (enclosed text s) us ms ws s.start s.stop ∧
      ms.getLast? = some last ∧ last.start < last.stop ∧ last.stop = s.stop ∧
      ∀ c' ws', Cursor.Around σ ω κ us ms ws c' ws' → ∃ rs, Q c' rs := by
  obtain ⟨us, ms, mid, hrest, hs, hstarts, hends, hall⟩ := h
  obtain ⟨first, hfirst, hfirst_starts⟩ := (Option.any_eq_true _ _).1 hstarts
  obtain ⟨last, hlast, hlast_ends⟩ := (Option.any_eq_true _ _).1 hends
  have hplaced : (Cursor.ofText text).Placed text := placed_run hlimit
  have hstands {l : Lexeme} (hl : l ∈ ms) : Stands text l :=
    hplaced.tokens l (hrest ▸ by simp [hl])
  have hfirst_extent :=
    (hstands (List.mem_of_head? hfirst)).extent (ne_semi_of_startsType hfirst_starts)
  have hextent :=
    (hstands (List.mem_of_getLast? hlast)).extent (ne_semi_of_endsStatement hlast_ends)
  have hus : ∃ u ∈ us, u.token ≠ .punct .semi := by
    rw [Cursor.token?, hrest] at htoken
    cases us with
    | nil =>
      obtain ⟨tail, rfl⟩ := List.head?_eq_some_iff.1 hfirst
      have hkeyword : first.token = .keyword .package := Option.some.inj htoken
      rw [hkeyword] at hfirst_starts
      cases hfirst_starts
    | cons u us =>
      have hkeyword : u.token = .keyword .package := Option.some.inj htoken
      exact ⟨u, List.mem_cons_self, by simp [hkeyword]⟩
  obtain rfl := span_of_covers hplaced hrest hs hfirst hfirst_extent hlast hextent
  exact ⟨us, ms, _, last, exists_encloses hlimit hfaultless hrest hus hfirst hfirst_starts hlast hlast_ends,
    hlast, hextent, rfl, fun c' ws' haround => ⟨_, hall c' ws' haround⟩⟩

/-- The groups of a text with parentheses around a stretch are those that there were. -/
theorem Encloses.sameTexts {mid text' : List Char} {us ms ws : List Lexeme} {n m : Nat}
    (h : Encloses text mid text' us ms ws n m) (hlimit : byteLength text' ≤ Span.limit) :
    SameTexts text text' (Layout.ofText text).groups (Layout.ofText text').groups := by
  obtain ⟨_, _, hclosing⟩ := h.closing
  obtain ⟨_, _, hopening⟩ := h.opening
  have hlength := hopening.byteLength_eq
  exact (hclosing.sameTexts (by omega)).trans (hopening.sameTexts hlimit)

/-- **Parentheses around a type or a single result.**  With parentheses around what may
    stand in them, a file has the same declarations, but for these parentheses and for
    places, and the same comments belong to them. -/
theorem SourceFile.ofText_wrapped (h : SourceFile.ofText text = .ok file)
    (hS : WrappableIn S (file.decls.flatMap Decl.sites))
    (hbalanced : Balanced (tokensUnder text S.span)) (hlimit : byteLength text + 2 ≤ Span.limit) :
    ∃ file', SourceFile.ofText (enclosed text S.span) = .ok file' ∧
      file'.package = file.package ∧
      List.Forall₂ (Decl.Alike
        (Shifted text (enclosed text S.span) S.span.start S.span.stop) True Eq)
        file.decls file'.decls ∧
      SameTexts text (enclosed text S.span) file.comments file'.comments := by
  obtain ⟨hlex, hread⟩ := SourceFile.ofText_eq_ok_iff.1 h
  have hlimit_text : byteLength text ≤ Span.limit := by omega
  have hfaultless : ∀ s ∈ segments 0 text, s.fault? = none := fun s hs =>
    fault?_eq_none_of_run hlex hs
  have htoken := token?_of_read (congrArg Prod.snd hread)
  -- where the type stands does not depend on what is asked of the places
  obtain ⟨_, _, _, _, hencloses, -⟩ := encloses_of_admits hlimit_text hfaultless htoken
    (Cursor.read_admits (.any (Layout.ofText text) (Layout.ofText text)) (fun _ _ h => h) hread hS)
  have hlimit' : byteLength (enclosed text S.span) ≤ Span.limit := by
    rw [hencloses.byteLength_eq]
    exact hlimit
  obtain ⟨us, ms, ws, last, hencloses, hlast, hextent, hstop, hall⟩ :=
    encloses_of_admits hlimit_text hfaultless htoken
      (Cursor.read_admits (hencloses.sameGroups hlimit') (fun _ _ h => h) hread hS)
  have hcloses := hencloses.closes hlimit' (List.mem_of_getLast? hlast) hextent hstop
  obtain ⟨_, file', hread', hpackage, hdecls⟩ := hall _ _ (hencloses.around hlimit'
    (hencloses.tokensUnder_eq ▸ hbalanced) fun l hl => by
      rw [hlast] at hl
      exact Option.some.inj hl ▸ hcloses)
  obtain ⟨_, _, hopening⟩ := hencloses.opening
  refine ⟨file', SourceFile.ofText_eq_ok_iff.2 ⟨diagnostics_eq_nil hopening.faultless', hread'⟩,
    hpackage, hdecls, ?_⟩
  have hcomments := SourceFile.read_comments (Layout.ofText text) (Cursor.ofText text)
  have hcomments' := SourceFile.read_comments (Layout.ofText (enclosed text S.span))
    (Cursor.ofText (enclosed text S.span))
  rw [show SourceFile.read (Layout.ofText text) (Cursor.ofText text) = (file, []) from hread]
    at hcomments
  rw [show SourceFile.read (Layout.ofText (enclosed text S.span))
    (Cursor.ofText (enclosed text S.span)) = (file', []) from hread'] at hcomments'
  rw [hcomments, hcomments']
  exact hencloses.sameTexts hlimit'

/-- Parentheses around a type that may stand in them. -/
theorem SourceFile.ofText_enclosed (h : SourceFile.ofText text = .ok file)
    (hS : EnclosableIn S (file.decls.flatMap Decl.places))
    (hbalanced : Balanced (tokensUnder text S.span)) (hlimit : byteLength text + 2 ≤ Span.limit) :
    ∃ file', SourceFile.ofText (enclosed text S.span) = .ok file' ∧
      file'.package = file.package ∧
      List.Forall₂ (Decl.Alike
        (Shifted text (enclosed text S.span) S.span.start S.span.stop) True Eq)
        file.decls file'.decls ∧
      SameTexts text (enclosed text S.span) file.comments file'.comments :=
  ofText_wrapped h (wrappableIn_of_places hS) hbalanced hlimit

end

end Tree

end GoDecls
