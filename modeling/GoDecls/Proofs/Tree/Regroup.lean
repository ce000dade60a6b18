/-
  The specs of a file in other groups.

  * `SpecKind.Spells k s`: the text is a spec by itself;
  * `Declares k ss a`: the text declares the specs `ss`, one in a declaration or several
    between parentheses, with semicolons or line ends between them;
  * `Declares.passage`: its tokens are declarations of the tokens of the specs;
  * `SourceFile.regrouped_ofText`: with another such text of the same specs in its place a
    file has the same specs in other groups.
-/
import GoDecls.Proofs.Token.Parted
import GoDecls.Proofs.Tree.Enclosed
import GoDecls.Proofs.Tree.Rows

namespace GoDecls

open Scan Text

namespace Tree

open Outcome Cursor

/-! ## Specs by themselves -/

/-- The text is a spec and nothing else: it has no comments and faults, and its tokens are
    read as one up to the semicolon at its end. -/
structure SpecKind.Spells (k : SpecKind) (s : List Char) : Prop where
  unmarked : s.head? ≠ some Scan.orderMark
  comments : (Lexer.ofText s).run.2.comments = []
  faults : (Lexer.ofText s).run.2.diagnostics = []
  read : (k.read (Layout.of s (Lexer.ofText s).run.1 []) none
    ⟨(Lexer.ofText s).run.1, 0, byteLength s⟩).Gives (fun _ => True) [.inserted (byteLength s)]

/-- What is left behind a value. -/
def Outcome.rest? {α : Type} {c : Cursor} : Outcome α c → Option (List Lexeme)
  | .ok _ d _ => some d.rest
  | .error .. => none

theorem Outcome.rest?_eq_some_iff {α : Type} {c : Cursor} {o : Outcome α c} {rs : List Lexeme} :
    o.rest? = some rs ↔ o.Gives (fun _ => True) rs := by
  constructor
  · intro h
    cases o with
    | error => cases h
    | ok a d m => exact .ok trivial (Option.some.inj h)
  · rintro ⟨a, d, m, rfl, -, rfl⟩
    rfl

instance (k : SpecKind) (s : List Char) : Decidable (k.Spells s) :=
  decidable_of_iff (s.head? ≠ some Scan.orderMark ∧ (Lexer.ofText s).run.2.comments = [] ∧
      (Lexer.ofText s).run.2.diagnostics = [] ∧
      (k.read (Layout.of s (Lexer.ofText s).run.1 []) none
        ⟨(Lexer.ofText s).run.1, 0, byteLength s⟩).rest? = some [.inserted (byteLength s)])
    ⟨fun ⟨hunmarked, hcomments, hfaults, hread⟩ =>
        ⟨hunmarked, hcomments, hfaults, Outcome.rest?_eq_some_iff.1 hread⟩,
      fun h => ⟨h.unmarked, h.comments, h.faults, Outcome.rest?_eq_some_iff.2 h.read⟩⟩

/-- The tokens of a text by itself but for the semicolon at its end. -/
def ownTokens (s : List Char) : List Lexeme := (Lexer.ofText s).run.1.dropLast

section

variable {k : SpecKind} {s : List Char}

theorem SpecKind.Spells.passage (h : k.Spells s) : Passage [] false 0 s (ownTokens s) true ∧
    (Lexer.ofText s).run.1 = ownTokens s ++ [.inserted (byteLength s)] := by
  obtain ⟨ts, due, hpass, hrun⟩ := (Lexer.ofText s).exists_passage h.comments h.faults
  obtain ⟨v, d, m, hread, -, hd⟩ := h.read
  obtain ⟨us, -, -, -, -, -, -, hp, -⟩ := SpecKind.read_echo (x := [])
    (.any (Layout.of s (Lexer.ofText s).run.1 []) (Layout.of s (Lexer.ofText s).run.1 []))
    (.of_tokens rfl) (solid_any _ _) (by rintro _ ⟨⟩) none none v d m hread (Nat.zero_le _)
  have hlast : Lexeme.inserted (byteLength s) ∈ (Lexer.ofText s).run.1 := by
    have hmem : Lexeme.inserted (byteLength s) ∈ d.rest := by simp [hd]
    rw [hp.rest] at hmem
    exact List.mem_of_mem_drop hmem
  change Passage [] false 0 s ts due at hpass
  change (Lexer.ofText s).run.1 = ts ++ lastLexeme due (0 + byteLength s) at hrun
  rw [Nat.zero_add] at hrun
  cases due with
  | false =>
    -- the semicolon at the end is no token of the stretch
    rw [hrun] at hlast
    have := (hpass.within _ (by simpa [lastLexeme] using hlast)).2.1
    simp only [Lexeme.inserted] at this
    omega
  | true =>
    have hown : ownTokens s = ts := by
      rw [ownTokens, hrun]
      exact List.dropLast_concat
    rw [hown]
    exact ⟨hpass, hrun⟩

theorem SpecKind.Spells.readable (h : k.Spells s) : k.Readable ((ownTokens s).map Lexeme.token) := by
  obtain ⟨v, d, m, hread, -, hd⟩ := h.read
  refine SpecKind.readable_of_read hread (x := [.punct .semi]) ?_ ?_
  · rw [Cursor.tokens, h.passage.2, List.map_append]
    rfl
  · rw [Cursor.tokens, hd]
    rfl

end

/-- The tokens of the spec `s` where it stands in the text. -/
def SpecAt (text s : List Char) (us : List Lexeme) : Prop :=
  ∃ front back, text = front ++ (s ++ back) ∧
    us = (ownTokens s).map (Lexeme.shift (byteLength front))

/-- A spec is read before what ends a token. -/
theorem SpecKind.Spells.passage_at {k : SpecKind} {s back : List Char} (h : k.Spells s)
    (hback : BreakHead back) (pos : Nat) :
    Passage back false pos s ((ownTokens s).map (Lexeme.shift pos)) true := by
  have := (h.passage.1.before_break hback).shift (fun _ => h.unmarked) pos
  rwa [Nat.zero_add] at this

/-! ## Declarations of specs -/

/-- Between parentheses the text holds the specs. -/
inductive Listed : List (List Char) → List Char → Prop where
  | nil : Listed [] []
  | skip (gap : List Char) {ss : List (List Char)} {cs : List Char}
    (hgap : ∀ c ∈ gap, c ∈ separators) (h : Listed ss cs) : Listed ss (gap ++ cs)
  | last (s gap : List Char) (hgap : ∀ c ∈ gap, isSpace c = true) : Listed [s] (s ++ gap)
  | cons (s gap : List Char) {cs : List Char} {ss : List (List Char)} (hgap : Separates gap)
    (h : Listed ss cs) : Listed (s :: ss) (s ++ (gap ++ cs))

/-- The text declares the specs: one behind the keyword, several between parentheses, or
    with several declarations one behind the other. -/
inductive Declares (k : SpecKind) : List (List Char) → List Char → Prop where
  | single (gap s : List Char) (hgap : ∀ c ∈ gap, c ∈ blanks)
    (hword : ∀ c ∈ (gap ++ s).head?, isWordPart c = false) :
    Declares k [s] (k.keyword.text.toList ++ (gap ++ s))
  | group (gap : List Char) {body : List Char} {ss : List (List Char)} (hgap : ∀ c ∈ gap, c ∈ blanks)
    (h : Listed ss body) :
    Declares k ss (k.keyword.text.toList ++ (gap ++ '(' :: (body ++ [')'])))
  | append {ss ss' : List (List Char)} {a a' : List Char} (gap : List Char) (h : Declares k ss a)
    (hgap : Separates gap) (h' : Declares k ss' a') :
    Declares k (ss ++ ss') (a ++ (gap ++ a'))

section

variable {k : SpecKind} {ss : List (List Char)} {cs a : List Char}

/-- The tokens between parentheses are those of the specs. -/
theorem Listed.passage (h : Listed ss cs) (hss : ∀ s ∈ ss, k.Spells s) :
    ∀ (front : List Char) {back : List Char}, BreakHead back → ∃ uss ts due,
      Passage back false (byteLength front) cs ts due ∧ Listing uss ts ∧
      List.Forall₂ (SpecAt (front ++ (cs ++ back))) ss uss := by
  induction h with
  | nil =>
    intro front back _
    exact ⟨[], [], false, .done, .nil, .nil⟩
  | @skip gap ss cs hgap _ ih =>
    intro front back hback
    obtain ⟨uss, ts, due, hpass, hlisting, hat⟩ := ih hss (front ++ gap) hback
    obtain ⟨semis, due₁, hsemis_pass, hsemis, -, hdue⟩ :=
      Passage.exists_semis hgap (cs ++ back) false (byteLength front)
    obtain rfl := hdue rfl
    rw [byteLength_append] at hpass
    exact ⟨uss, _, due, hsemis_pass.append hpass, hlisting.semis hsemis, by simpa using hat⟩
  | @last s gap hgap =>
    intro front back hback
    have hs := hss s List.mem_cons_self
    have hgap_back : BreakHead (gap ++ back) := by
      cases gap with
      | nil => exact hback
      | cons c gap =>
        rintro _ ⟨⟩
        exact mem_breaks_of_mem_blanks (mem_blanks_of_isSpace (hgap c List.mem_cons_self))
    have hspaces : Passage back true (byteLength front + byteLength s) gap [] true := by
      rw [← List.append_nil gap]
      exact .spaces hgap .done
    have hpass := (hs.passage_at hgap_back (byteLength front)).append hspaces
    rw [List.append_nil] at hpass
    exact ⟨[_], _, true, hpass, .last, .cons ⟨front, gap ++ back, by simp, rfl⟩ .nil⟩
  | @cons s gap cs ss hgap _ ih =>
    intro front back hback
    obtain ⟨hs, hss⟩ := List.forall_mem_cons.1 hss
    obtain ⟨uss, ts, due, hpass, hlisting, hat⟩ := ih hss (front ++ (s ++ gap)) hback
    obtain ⟨semis, due₁, hsemis_pass, hsemis, hparts, -⟩ :=
      Passage.exists_semis hgap.1 (cs ++ back) true (byteLength front + byteLength s)
    obtain ⟨rfl, hne⟩ := hparts hgap.2
    have hspec := hs.passage_at (hgap.breakHead (cs ++ back)) (byteLength front)
    rw [byteLength_append, byteLength_append, ← Nat.add_assoc] at hpass
    rw [← List.append_assoc] at hspec
    have hall := hspec.append (hsemis_pass.append hpass)
    obtain ⟨l, ls, rfl⟩ := List.exists_cons_of_ne_nil (hne rfl)
    obtain ⟨hl, hls⟩ := List.forall_mem_cons.1 hsemis
    refine ⟨_ :: uss, _, due, hall, .cons hl (hlisting.semis hls), .cons ?_ ?_⟩
    · exact ⟨front, gap ++ (cs ++ back), by simp, rfl⟩
    · simpa using hat

theorem endsStatement_keyword (k : SpecKind) :
    (Token.keyword k.keyword).endsStatement = false := by
  cases k <;> rfl

/-- **The tokens of declarations of specs** are declarations of the tokens of the specs. -/
theorem Declares.passage (h : Declares k ss a) (hss : ∀ s ∈ ss, k.Spells s) :
    ∀ (front : List Char) {back : List Char} (due : Bool), BreakHead back → ∃ uss ts,
      Passage back due (byteLength front) a ts true ∧ Rows k uss ts ∧
      (∀ l ∈ ts.head?, l.start = byteLength front) ∧
      List.Forall₂ (SpecAt (front ++ (a ++ back))) ss uss := by
  induction h with
  | @single gap s hgap hword =>
    intro front back due hback
    have hs := hss s List.mem_cons_self
    have hspec := Passage.blanks hgap (hs.passage_at hback
      (byteLength front + byteLength k.keyword.text.toList + byteLength gap))
    rw [← endsStatement_keyword k] at hspec
    refine ⟨[_], _, .keyword k.keyword (fun c hc => ?_) hspec, .single rfl,
      by rintro _ ⟨⟩; rfl, .cons ?_ .nil⟩
    · cases hhead : gap ++ s with
      | nil =>
        rw [hhead] at hc
        exact isWordPart_breaks c (hback c hc)
      | cons d ds =>
        rw [hhead] at hc hword
        exact hword c hc
    · exact ⟨front ++ (k.keyword.text.toList ++ gap), back, by simp, by
        rw [byteLength_append, byteLength_append, Nat.add_assoc]⟩
  | @group gap body ss hgap hlisted =>
    intro front back due hback
    have hclose : BreakHead (')' :: back) := by
      rintro _ ⟨⟩
      decide
    obtain ⟨uss, ts, due₁, hbody, hlisting, hat⟩ :=
      hlisted.passage hss (front ++ (k.keyword.text.toList ++ (gap ++ ['(']))) hclose
    have hclose := hbody.append (.punct scan_rparen .done)
    rw [byteLength_append, byteLength_append, byteLength_append, ← Nat.add_assoc,
      ← Nat.add_assoc] at hclose
    have hopen := Passage.blanks hgap (.punct scan_lparen hclose)
    rw [← endsStatement_keyword k] at hopen
    refine ⟨uss, _, .keyword k.keyword ?_ hopen, .group rfl rfl rfl hlisting,
      by rintro _ ⟨⟩; rfl, by simpa using hat⟩
    cases gap with
    | nil =>
      rintro _ ⟨⟩
      decide
    | cons c gap =>
      rintro _ ⟨⟩
      exact isWordPart_breaks c (mem_breaks_of_mem_blanks (hgap c List.mem_cons_self))
  | @append ss ss' a a' gap _ hgap _ ih ih' =>
    intro front back due hback
    obtain ⟨hss, hss'⟩ := List.forall_mem_append.1 hss
    obtain ⟨uss, ts, hpass, hrows, hstart, hat⟩ :=
      ih hss front due (hgap.breakHead (a' ++ back))
    obtain ⟨semis, due₁, hsemis_pass, hsemis, hparts, -⟩ :=
      Passage.exists_semis hgap.1 (a' ++ back) true (byteLength front + byteLength a)
    obtain ⟨rfl, hne⟩ := hparts hgap.2
    obtain ⟨uss', ts', hpass', hrows', -, hat'⟩ :=
      ih' hss' (front ++ (a ++ gap)) false hback
    rw [byteLength_append, byteLength_append, ← Nat.add_assoc] at hpass'
    rw [← List.append_assoc] at hpass
    have hall := hpass.append (hsemis_pass.append hpass')
    refine ⟨_, _, hall, .append hrows (hne rfl) hsemis hrows', ?_, List.rel_append ?_ ?_⟩
    · obtain ⟨kw, ls, rfl, -⟩ := hrows.head?
      exact hstart
    · simpa using hat
    · simpa using hat'

end

/-! ## Texts -/

/-- Behind a declaration: spaces, and then a semicolon, a line end or nothing. -/
def DeclEnd (back : List Char) : Prop :=
  ∀ c ∈ (back.dropWhile isSpace).head?, c = ';' ∨ isLineEnd c = true

instance (back : List Char) : Decidable (DeclEnd back) :=
  inferInstanceAs (Decidable (∀ c ∈ (back.dropWhile isSpace).head?, c = ';' ∨ isLineEnd c = true))

theorem DeclEnd.of_cons {c : Char} {cs : List Char} (h : DeclEnd (c :: cs)) :
    isSpace c = true ∧ DeclEnd cs ∨ c = ';' ∨ isLineEnd c = true := by
  unfold DeclEnd at h
  rw [List.dropWhile_cons] at h
  split at h
  · next hc => exact .inl ⟨hc, h⟩
  · exact .inr (h c rfl)

theorem DeclEnd.breakHead {back : List Char} (h : DeclEnd back) : BreakHead back := by
  cases back with
  | nil => rintro _ ⟨⟩
  | cons c back =>
    rintro _ ⟨⟩
    rcases h.of_cons with ⟨hc, -⟩ | rfl | hc
    · exact mem_breaks_of_mem_blanks (mem_blanks_of_isSpace hc)
    · decide
    · exact mem_breaks_of_mem_blanks (mem_blanks_of_isLineEnd hc)

theorem DeclEnd.unmarked {back : List Char} (h : DeclEnd back) : back.head? ≠ some orderMark := by
  intro hhead
  exact absurd (h.breakHead _ hhead) (by decide)

section

variable {back cs text text' : List Char} {due due' : Bool} {pos : Nat} {ts us : List Lexeme}

/-- A declaration ends before the tokens of what is behind it. -/
theorem terminal_of_passage (h : Passage back true pos cs ts due') (hcs : DeclEnd cs) :
    Terminal (ts ++ lastLexeme due' (pos + byteLength cs)) := by
  generalize hdue : true = due at h
  induction h with
  | done =>
    subst hdue
    rintro _ ⟨⟩
    rfl
  | @fill due due' pos c cs ts hc _ ih =>
    rw [byteLength_cons, ← Nat.add_assoc]
    refine ih ?_ hdue
    rcases hcs.of_cons with ⟨-, hcs⟩ | rfl | hend
    · exact hcs
    · rcases hc with hc | ⟨-, hc⟩ <;> cases hc
    · rcases hc with hc | ⟨-, rfl⟩
      · simp only [isLineEnd, Bool.or_eq_true, beq_iff_eq] at hend
        rcases hend with rfl | rfl <;> cases hc
      · cases hend
  | lineEnd _ _ _ =>
    subst hdue
    rintro _ ⟨⟩
    rfl
  | @token due due' pos c t r k tok ts hscan htok _ _ =>
    have hblank := not_mem_blanks_of_scan hscan (by rw [htok]; rfl)
    rcases hcs.of_cons with ⟨hc, -⟩ | rfl | hc
    · exact absurd (mem_blanks_of_isSpace hc) hblank
    · obtain ⟨rfl, -⟩ := Prod.mk.inj (hscan.symm : (k, t.length) = (.punct .semi, 0))
      rintro _ ⟨⟩
      cases htok
      rfl
    · exact absurd (mem_blanks_of_isLineEnd hc) hblank

theorem Terminal.shift {n : Nat} (h : Terminal ts) : Terminal (ts.map (Lexeme.shift n)) := by
  intro l hl
  rw [List.head?_map] at hl
  obtain ⟨m, hm, rfl⟩ := Option.map_eq_some_iff.1 hl
  exact h m hm

/-- At the second stretch there stands in the second text what there does in the first
    text at the first one. -/
def SameAt (text text' : List Char) (s s' : Span) : Prop := s'.text? text' = s.text? text

/-- The tokens of a part of two texts are twins. -/
theorem twins_of_part {front front' back' : List Char} (htext : text = front ++ (cs ++ back))
    (htext' : text' = front' ++ (cs ++ back')) (hlimit : byteLength text ≤ Span.limit)
    (hlimit' : byteLength text' ≤ Span.limit)
    (hus : ∀ l ∈ us, l.start ≤ byteLength cs ∧ l.stop ≤ byteLength cs) :
    Twins (SameAt text text') (us.map (Lexeme.shift (byteLength front)))
      (us.map (Lexeme.shift (byteLength front'))) := by
  refine .of_shifts fun l hl l' hl' => ?_
  have hstart := (hus l hl).1
  have hstop := (hus l' hl').2
  have hlength : byteLength text = byteLength front + (byteLength cs + byteLength back) := by
    rw [htext, byteLength_append, byteLength_append]
  have hlength' : byteLength text' = byteLength front' + (byteLength cs + byteLength back') := by
    rw [htext', byteLength_append, byteLength_append]
  rw [Span.ofOffsets_of_le (by omega) (by omega), Span.ofOffsets_of_le (by omega) (by omega),
    SameAt, Span.text?, Span.text?, htext, htext']
  dsimp only
  rw [Nat.add_comm l.start, Nat.add_comm l'.stop, Nat.add_comm l.start, Nat.add_comm l'.stop,
    slice?_append_add, slice?_append_add, slice?_append_left hstop, slice?_append_left hstop]

end

/-! ## Files -/

section

variable {k : SpecKind} {ss : List (List Char)} {a a' front back cs : List Char}

theorem start_le_limit {text : List Char} (hlimit : byteLength text ≤ Span.limit) :
    ∀ l ∈ (Lexer.ofText text).run.1, l.start ≤ Span.limit := by
  intro l hl
  have := ((Lexer.ofText text).run_ordered.2 l hl).2
  change _ ∧ l.stop ≤ 0 + byteLength text at this
  omega

theorem layout_groups_nil (text : List Char) (ts : List Lexeme) :
    (Layout.of text ts []).groups = [] := rfl

/-- Declarations begin with the two characters that their keyword does. -/
theorem Declares.begins (h : Declares k ss a) :
    ∃ r, a = k.keyword.text.toList.take 2 ++ r := by
  induction h with
  | single gap s =>
    refine ⟨k.keyword.text.toList.drop 2 ++ (gap ++ s), ?_⟩
    rw [← List.append_assoc (List.take 2 _), List.take_append_drop]
  | @group gap body _ _ _ =>
    refine ⟨k.keyword.text.toList.drop 2 ++ (gap ++ '(' :: (body ++ [')'])), ?_⟩
    rw [← List.append_assoc (List.take 2 _), List.take_append_drop]
  | append _ _ _ _ ih _ =>
    obtain ⟨r, rfl⟩ := ih
    exact ⟨_, List.append_assoc ..⟩

theorem Declares.before_same (h : Declares k ss a) (h' : Declares k ss a') {cs : List Char}
    {due due' : Bool} {pos : Nat} {ts : List Lexeme}
    (hpass : Passage (a ++ back) due pos cs ts due') : Passage (a' ++ back) due pos cs ts due' := by
  obtain ⟨r, rfl⟩ := h.begins
  obtain ⟨r', rfl⟩ := h'.begins
  obtain ⟨c, d, hkeyword⟩ : ∃ c d, k.keyword.text.toList.take 2 = [c, d] := by
    cases k <;> exact ⟨_, _, rfl⟩
  rw [hkeyword] at hpass ⊢
  exact hpass.before_same _

theorem readable_of_specAt {text : List Char} (hss : ∀ s ∈ ss, k.Spells s)
    {uss : List (List Lexeme)} (hat : List.Forall₂ (SpecAt text) ss uss) :
    ∀ us ∈ uss, k.Readable (us.map Lexeme.token) := by
  induction hat with
  | nil => exact List.forall_mem_nil _
  | cons hat _ ih =>
    obtain ⟨hs, hss⟩ := List.forall_mem_cons.1 hss
    obtain ⟨_, _, -, rfl⟩ := hat
    refine List.forall_mem_cons.2 ⟨?_, ih hss⟩
    rw [List.map_map]
    exact hs.readable

/-- The specs are read alike where they stand in two texts. -/
theorem twins_of_specAt {text text' : List Char} (hss : ∀ s ∈ ss, k.Spells s)
    (hlimit : byteLength text ≤ Span.limit) (hlimit' : byteLength text' ≤ Span.limit) :
    ∀ {uss uss' : List (List Lexeme)}, List.Forall₂ (SpecAt text) ss uss →
      List.Forall₂ (SpecAt text') ss uss' →
      List.Forall₂ (Twins (SameAt text text')) uss uss' := by
  induction ss with
  | nil =>
    rintro _ _ ⟨⟩ ⟨⟩
    exact .nil
  | cons s ss ih =>
    obtain ⟨hs, hss⟩ := List.forall_mem_cons.1 hss
    rintro _ _ (_ | ⟨⟨f, b, htext, rfl⟩, hat⟩) (_ | ⟨⟨f', b', htext', rfl⟩, hat'⟩)
    refine .cons (twins_of_part htext htext' hlimit hlimit' fun l hl => ?_) (ih hss hat hat')
    have := hs.passage.1.within l hl
    omega

/-- The text parts into declarations of the specs, and what is in front of and behind
    them. -/
structure Parted (k : SpecKind) (text front : List Char) (ss : List (List Char))
    (back : List Char) : Prop where
  text : ∃ a, text = front ++ (a ++ back) ∧ Declares k ss a
  spells : ∀ s ∈ ss, k.Spells s
  back : DeclEnd back

/-- What stands in front of a declaration is a stretch. -/
theorem SourceFile.exists_front {file : SourceFile} {d : Decl}
    (h : SourceFile.ofText (front ++ cs) = .ok file)
    (hcomments : (Lexer.ofText (front ++ cs)).run.2.comments = []) (hd : d ∈ file.decls)
    (hstart : d.start = byteLength front) (hlimit : byteLength (front ++ cs) ≤ Span.limit) :
    ∃ us due, Passage cs false 0 front us due := by
  obtain ⟨hlex, hread⟩ := SourceFile.ofText_eq_ok_iff.1 h
  obtain ⟨ts, due, hpass, hrun⟩ := exists_passage_ofText hcomments hlex
  obtain ⟨l, hl, ⟨kw, hkw⟩, hl_start⟩ := SourceFile.exists_keyword hread hd
  have hreal : l.isInserted = false := not_isInserted (by simp [hkw])
  have hmem : l ∈ ts :=
    (List.mem_append.1 (hrun ▸ hl)).resolve_right (not_mem_lastLexeme hreal)
  have hplace : l.start = 0 + byteLength front := by
    rw [Nat.zero_add, ← hstart, ← hl_start]
    exact (Nat.min_eq_left (start_le_limit hlimit l hl)).symm
  obtain ⟨us, vs, due₁, -, hfront, -⟩ := hpass.split rfl ⟨l, hmem, hreal, hplace⟩
  rw [List.append_nil] at hfront
  exact ⟨us, due₁, hfront⟩

/-- **Declarations in other groups.**  In a file without comments, other declarations of
    the same specs may stand in the place of declarations: the file then has the same
    specs in other groups. -/
theorem SourceFile.regrouped_ofText {text : List Char} {file : SourceFile} {d : Decl}
    (h : SourceFile.ofText text = .ok file)
    (hcomments : (Lexer.ofText text).run.2.comments = []) (hparted : Parted k text front ss back)
    (hd : d ∈ file.decls) (hstart : d.start = byteLength front) (ha' : Declares k ss a')
    (hlimit : byteLength text ≤ Span.limit)
    (hlimit' : byteLength (front ++ (a' ++ back)) ≤ Span.limit) :
    ∃ file', SourceFile.ofText (front ++ (a' ++ back)) = .ok file' ∧
      (Lexer.ofText (front ++ (a' ++ back))).run.2.comments = [] ∧
      file'.package = file.package ∧
      Regrouped (SameAt text (front ++ (a' ++ back))) file.decls file'.decls := by
  obtain ⟨⟨a, rfl, ha⟩, hss, hback⟩ := hparted
  obtain ⟨us, due, hfront⟩ := SourceFile.exists_front h hcomments hd hstart hlimit
  obtain ⟨hlex, hread⟩ := SourceFile.ofText_eq_ok_iff.1 h
  rw [hcomments] at hread
  obtain ⟨uss, ts, hdecls, hrows, hts, hat⟩ :=
    ha.passage hss front due hback.breakHead
  obtain ⟨uss', ts', hdecls', hrows', -, hat'⟩ :=
    ha'.passage hss front due hback.breakHead
  -- what is in front of the declarations and what is behind them is the same in both texts
  have hprefix : Passage back false 0 (front ++ a) (us ++ ts) true :=
    hfront.append (by rwa [Nat.zero_add])
  have hprefix' : Passage back false 0 (front ++ a') (us ++ ts') true :=
    (ha.before_same ha' hfront).append (by rwa [Nat.zero_add])
  rw [← List.append_assoc] at hcomments hlex
  obtain ⟨ws, due', hbehind, hrun⟩ := hprefix.exists_behind hcomments hlex
  obtain ⟨hrun', hcomments', hlex'⟩ := hprefix'.run_append hbehind hback.unmarked
  rw [List.append_assoc front, List.append_assoc us] at hrun hrun'
  rw [List.append_assoc front] at hcomments' hlex'
  have hterminal := terminal_of_passage hbehind hback
  rw [Nat.zero_add] at hterminal
  have hwithin := hbehind.within_last
  rw [Nat.zero_add] at hwithin
  generalize htext : front ++ (a ++ back) = text at *
  generalize htext' : front ++ (a' ++ back) = text' at *
  have hus : Twins (SameAt text text') us us := by
    have hwithin_us : ∀ l ∈ us, l.start ≤ byteLength front ∧ l.stop ≤ byteLength front :=
      fun l hl => by
        have := hfront.within l hl
        omega
    have hfirst : text = [] ++ (front ++ (a ++ back)) := htext.symm
    have hfirst' : text' = [] ++ (front ++ (a' ++ back)) := htext'.symm
    have htwins := twins_of_part hfirst hfirst' hlimit hlimit' hwithin_us
    rwa [byteLength_nil, map_shift_zero] at htwins
  have hlast : text = (front ++ a) ++ (back ++ []) := by simp [← htext]
  have hlast' : text' = (front ++ a') ++ (back ++ []) := by simp [← htext']
  have hws := twins_of_part hlast hlast' hlimit hlimit' hwithin
  obtain ⟨file', hread', hpackage, hregrouped⟩ :=
    SourceFile.read_regrouped hread hd (layout_groups_nil text _) (layout_groups_nil text' _)
      hrun (show (Cursor.ofText text').rest = _ from hrun') (Lexer.run_starts _) (start_le_limit hlimit)
      (fun l hl => (hts l hl).trans hstart.symm) hrows hrows' (readable_of_specAt hss hat)
      (twins_of_specAt hss hlimit hlimit' hat hat') hus hws hterminal.shift
  exact ⟨file', SourceFile.ofText_eq_ok_iff.2 ⟨hlex', by rw [hcomments']; exact hread'⟩,
    hcomments', hpackage, hregrouped⟩

end

end Tree

end GoDecls
