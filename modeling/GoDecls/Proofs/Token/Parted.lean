/-
  Stretches of a text by their characters and by their tokens.

  * `separators`: the characters that may stand between specs; `Separates gap`: a semicolon
    or a line end is among them;
  * `Passage.blanks`, `punct`, `keyword`, `exists_semis`: what the characters give;
  * `Passage.part`: a stretch may be parted behind each of its tokens;
  * `Passage.exists_token`, `text_of_punct`, `text_of_keyword`, `separates_of_semis`: what
    characters the tokens are of.
-/
import GoDecls.Proofs.Token.Passage
import GoDecls.Proofs.Token.Rendering

namespace GoDecls

open Scan Text

/-! ## Separators -/

/-- The characters that may stand between specs. -/
def separators : List Char := ';' :: blanks

/-- It parts specs: a semicolon or a line end is among its characters. -/
def Separates (gap : List Char) : Prop :=
  (∀ c ∈ gap, c ∈ separators) ∧ ∃ c ∈ gap, isSpace c = false

instance (gap : List Char) : Decidable (Separates gap) :=
  inferInstanceAs (Decidable ((∀ c ∈ gap, c ∈ separators) ∧ ∃ c ∈ gap, isSpace c = false))

theorem mem_breaks_of_mem_separators {c : Char} (h : c ∈ separators) : c ∈ breaks := by
  rcases List.mem_cons.1 h with rfl | h
  · decide
  · exact mem_breaks_of_mem_blanks h

theorem Separates.breakHead {gap : List Char} (h : Separates gap) (back : List Char) :
    BreakHead (gap ++ back) := by
  obtain ⟨hgap, c, hc, -⟩ := h
  cases gap with
  | nil => cases hc
  | cons d gap =>
    rintro _ ⟨⟩
    exact mem_breaks_of_mem_separators (hgap d List.mem_cons_self)

namespace Passage

variable {back cs r : List Char} {due due' : Bool} {pos : Nat} {ts : List Lexeme}

/-- Where no semicolon is due, blanks and line ends give nothing. -/
theorem blanks {ds : List Char} (hds : ∀ d ∈ ds, d ∈ Scan.blanks)
    (h : Passage back false (pos + byteLength ds) cs ts due') :
    Passage back false pos (ds ++ cs) ts due' := by
  induction ds generalizing pos with
  | nil => exact h
  | cons d ds ih =>
    rw [byteLength_cons, ← Nat.add_assoc] at h
    obtain ⟨hd, hds⟩ := List.forall_mem_cons.1 hds
    rcases isSpace_or_isLineEnd_of_mem_blanks d hd with hd | hd
    · exact .fill (.inl hd) (ih hds h)
    · exact .lineEnd hd (ih hds h)

theorem punct {p : Punct} {c : Char} (hscan : ∀ r, scan c r = (.punct p, 0))
    (h : Passage back (Token.punct p).endsStatement (pos + c.utf8Size) cs ts due') :
    Passage back due pos (c :: cs) (⟨pos, .punct p, pos + c.utf8Size⟩ :: ts) due' :=
  .token (t := []) (hscan _) rfl h

/-- A keyword before what does not go on with a word. -/
theorem keyword (k : Keyword) (hr : ∀ c ∈ (r ++ back).head?, isWordPart c = false)
    (h : Passage back (Token.keyword k).endsStatement (pos + byteLength k.text.toList) r ts due') :
    Passage back due pos (k.text.toList ++ r)
      (⟨pos, .keyword k, pos + byteLength k.text.toList⟩ :: ts) due' := by
  obtain ⟨c, t, htext, hc, ht⟩ := keyword_isName k
  have htoken : Piece.token? (c :: t) .word = some (.keyword k) := by
    rw [Piece.token?, ← htext, wordToken_keyword]
  rw [htext] at h ⊢
  refine .token ?_ htoken h
  have hend : (r ++ back).takeWhile isWordPart = [] := by
    rw [takeWhile_eq_nil]
    cases hhead : (r ++ back).head? with
    | none => rfl
    | some b => exact hr b hhead
  rw [scan_word hc, List.takeWhile_append_of_pos ht, hend, List.append_nil]

/-- What parts specs settles the semicolon that is due. -/
theorem exists_semis {gap : List Char} (hgap : ∀ c ∈ gap, c ∈ separators) (back : List Char)
    (due : Bool) (pos : Nat) : ∃ ts due', Passage back due pos gap ts due' ∧
      (∀ l ∈ ts, l.token = .punct .semi) ∧
      ((∃ c ∈ gap, isSpace c = false) → due' = false ∧ (due = true → ts ≠ [])) ∧
      (due = false → due' = false) := by
  induction gap generalizing due pos with
  | nil =>
    refine ⟨[], due, .done, List.forall_mem_nil _, ?_, id⟩
    rintro ⟨c, hc, -⟩
    cases hc
  | cons c gap ih =>
    obtain ⟨hc, hmore⟩ := List.forall_mem_cons.1 hgap
    rcases List.mem_cons.1 hc with rfl | hc
    · obtain ⟨ts, due', hpass, hsemi, -, hdue⟩ := ih hmore false (pos + ';'.utf8Size)
      exact ⟨_, due', .punct (fun _ => rfl) hpass, List.forall_mem_cons.2 ⟨rfl, hsemi⟩,
        fun _ => ⟨hdue rfl, fun _ => List.cons_ne_nil _ _⟩, fun _ => hdue rfl⟩
    rcases isSpace_or_isLineEnd_of_mem_blanks c hc with hspace | hend
    · obtain ⟨ts, due', hpass, hsemi, hparts, hdue⟩ := ih hmore due (pos + c.utf8Size)
      refine ⟨ts, due', .fill (.inl hspace) hpass, hsemi, fun ⟨d, hd, hd_space⟩ => ?_, hdue⟩
      refine hparts ⟨d, (List.mem_cons.1 hd).resolve_left ?_, hd_space⟩
      rintro rfl
      rw [hspace] at hd_space
      cases hd_space
    · obtain ⟨ts, due', hpass, hsemi, -, hdue⟩ := ih hmore false (pos + c.utf8Size)
      refine ⟨_, due', .lineEnd hend hpass, ?_, fun _ => ⟨hdue rfl, ?_⟩, fun _ => hdue rfl⟩
      · cases due with
        | false => exact hsemi
        | true => exact List.forall_mem_cons.2 ⟨rfl, hsemi⟩
      · rintro rfl
        exact List.cons_ne_nil _ _

end Passage

/-! ## Texts of tokens -/

section

variable {k : Piece} {c : Char} {t r : List Char}

theorem piece_of_punct {p : Punct} (h : k.token? t = some (.punct p)) : k = .punct p := by
  cases k with
  | word =>
    rw [Piece.token?, Lexer.wordToken] at h
    split at h <;> cases h
  | punct q =>
    cases h
    rfl
  | _ => cases h

/-- An operator or delimiter is its spelling. -/
theorem text_of_punct {p : Punct} (hscan : scan c (t ++ r) = (k, t.length))
    (htok : k.token? (c :: t) = some (.punct p)) : c :: t = p.text.toList := by
  obtain rfl := piece_of_punct htok
  have hpiece := scan_isPiece c (t ++ r)
  rw [hscan] at hpiece
  cases hpiece with
  | comment _ h =>
    rcases scanComment_kind h with ⟨h, -⟩ | ⟨_, h⟩ <;> cases h
  | quoted h =>
    rcases scanQuoted_kind h with h | h | h <;> cases h
  | punct h => exact (text_of_scanPunct h).2.symm

/-- A keyword is its spelling. -/
theorem text_of_keyword {kw : Keyword} (h : k.token? t = some (.keyword kw)) :
    t = kw.text.toList := by
  cases k with
  | word =>
    rw [Piece.token?, Lexer.wordToken] at h
    split at h
    · next kw' hkw =>
      cases h
      have htext : kw.text = String.ofList t := by simpa using List.find?_some hkw
      rw [htext, String.toList_ofList]
    · cases h
  | _ => cases h

theorem piece_of_keyword {kw : Keyword} (h : k.token? t = some (.keyword kw)) : k = .word := by
  cases k with
  | word => rfl
  | _ => cases h

/-- A word goes on as far as it can. -/
theorem not_isWordPart_of_scan_word (h : scan c (t ++ r) = (.word, t.length)) :
    ∀ d ∈ r.head?, isWordPart d = false := by
  have hpiece := scan_isPiece c (t ++ r)
  rw [h] at hpiece
  generalize hn : t.length = n at hpiece
  cases hpiece with
  | word _ =>
    have htake : (t ++ r).takeWhile isWordPart = t := by
      have hprefix := List.takeWhile_prefix (p := isWordPart) (l := t ++ r)
      have ht := List.prefix_of_prefix_length_le hprefix (List.prefix_append t r) (by omega)
      exact ht.eq_of_length hn.symm
    intro d hd
    obtain ⟨r, rfl⟩ := List.head?_eq_some_iff.1 hd
    have hall : ∀ b ∈ t, isWordPart b = true := fun b hb =>
      List.mem_takeWhile_imp (htake ▸ hb)
    by_contra hpart
    rw [List.takeWhile_append_of_pos hall, List.takeWhile_cons_of_pos (by simpa using hpart)] at htake
    have := congrArg List.length htake
    simp at this
  | comment _ h => rcases scanComment_kind h with ⟨h, -⟩ | ⟨_, h⟩ <;> cases h
  | quoted h => rcases scanQuoted_kind h with h | h | h <;> cases h
  | punct h =>
    obtain ⟨_, h⟩ := scanPunct_kind h
    cases h

end

/-! ## Parts of stretches -/

/-- Whether a semicolon is due behind the tokens, with `due` before them. -/
def dueAfter (due : Bool) (ts : List Lexeme) : Bool :=
  ts.foldl (fun _ l => l.token.endsStatement) due

theorem dueAfter_concat (due : Bool) (ts : List Lexeme) (l : Lexeme) :
    dueAfter due (ts ++ [l]) = l.token.endsStatement := by
  rw [dueAfter, List.foldl_concat]

namespace Passage

variable {back cs : List Char} {due due' : Bool} {pos : Nat} {ts us vs : List Lexeme} {l : Lexeme}

/-- **A stretch may be parted behind each of its tokens.** -/
theorem part (h : Passage back due pos cs ts due') (us : List Lexeme) (hts : ts = us ++ vs) :
    ∃ cs₁ cs₂, cs = cs₁ ++ cs₂ ∧ Passage (cs₂ ++ back) due pos cs₁ us (dueAfter due us) ∧
      Passage back (dueAfter due us) (pos + byteLength cs₁) cs₂ vs due' := by
  induction h generalizing us with
  | @done due pos =>
    obtain ⟨rfl, rfl⟩ := List.append_eq_nil_iff.1 hts.symm
    exact ⟨[], [], rfl, .done, .done⟩
  | @fill due due' pos c cs ts hc h ih =>
    cases us with
    | nil =>
      subst hts
      exact ⟨[], c :: cs, rfl, .done, .fill hc h⟩
    | cons u us =>
      obtain ⟨cs₁, cs₂, rfl, hfront, hbehind⟩ := ih (u :: us) hts
      refine ⟨c :: cs₁, cs₂, rfl, .fill hc hfront, ?_⟩
      rwa [byteLength_cons, ← Nat.add_assoc]
  | @lineEnd due due' pos c cs ts hc h ih =>
    cases us with
    | nil =>
      subst hts
      exact ⟨[], c :: cs, rfl, .done, .lineEnd hc h⟩
    | cons u us =>
      cases due with
      | false =>
        obtain ⟨cs₁, cs₂, rfl, hfront, hbehind⟩ := ih (u :: us) hts
        refine ⟨c :: cs₁, cs₂, rfl, .lineEnd hc hfront, ?_⟩
        rwa [byteLength_cons, ← Nat.add_assoc]
      | true =>
        obtain ⟨rfl, hmore⟩ := List.cons.inj hts
        obtain ⟨cs₁, cs₂, rfl, hfront, hbehind⟩ := ih us hmore
        refine ⟨c :: cs₁, cs₂, rfl, .lineEnd hc hfront, ?_⟩
        rwa [byteLength_cons, ← Nat.add_assoc]
  | @token due due' pos c t r k tok ts hscan htok h ih =>
    cases us with
    | nil =>
      subst hts
      exact ⟨[], _, rfl, .done, .token hscan htok h⟩
    | cons u us =>
      obtain ⟨rfl, hmore⟩ := List.cons.inj hts
      obtain ⟨cs₁, cs₂, rfl, hfront, hbehind⟩ := ih us hmore
      refine ⟨c :: (t ++ cs₁), cs₂, by simp, .token ?_ htok hfront, ?_⟩
      · rwa [List.append_assoc] at hscan
      · rwa [← List.cons_append, byteLength_append, ← Nat.add_assoc]

/-- Before a token there are blanks alone. -/
theorem exists_token (h : Passage back due pos cs ts due') (hts : ts = l :: us) (hpos : pos ≠ 0)
    (hl : l.isInserted = false) : ∃ gap c t r k, cs = gap ++ (c :: (t ++ r)) ∧
      (∀ d ∈ gap, d ∈ Scan.blanks) ∧ (due = true → ∀ d ∈ gap, isSpace d = true) ∧
      scan c (t ++ (r ++ back)) = (k, t.length) ∧ k.token? (c :: t) = some l.token ∧
      l = ⟨pos + byteLength gap, l.token, pos + byteLength gap + byteLength (c :: t)⟩ ∧
      Passage back l.token.endsStatement (pos + byteLength gap + byteLength (c :: t)) r us due' := by
  induction h with
  | done => cases hts
  | @fill due due' pos c cs ts hc h ih =>
    have hspace := hc.resolve_right fun hmark => hpos hmark.1
    obtain ⟨gap, d, t, r, k, rfl, hgap, hspaces, hscan, htok, hplace, hrest⟩ :=
      ih hts (by omega)
    rw [Nat.add_assoc pos, ← byteLength_cons] at hplace hrest
    exact ⟨c :: gap, d, t, r, k, rfl,
      List.forall_mem_cons.2 ⟨mem_blanks_of_isSpace hspace, hgap⟩,
      fun hdue => List.forall_mem_cons.2 ⟨hspace, hspaces hdue⟩, hscan, htok, hplace, hrest⟩
  | @lineEnd due due' pos c cs ts hc h ih =>
    cases due with
    | true =>
      obtain ⟨rfl, -⟩ := List.cons.inj hts
      simp [Lexeme.isInserted, Lexeme.inserted] at hl
    | false =>
      obtain ⟨gap, d, t, r, k, rfl, hgap, -, hscan, htok, hplace, hrest⟩ := ih hts (by omega)
      rw [Nat.add_assoc pos, ← byteLength_cons] at hplace hrest
      exact ⟨c :: gap, d, t, r, k, rfl,
        List.forall_mem_cons.2 ⟨mem_blanks_of_isLineEnd hc, hgap⟩, by rintro ⟨⟩, hscan, htok,
        hplace, hrest⟩
  | @token due due' pos c t r k tok ts hscan htok h ih =>
    obtain ⟨rfl, rfl⟩ := List.cons.inj hts
    exact ⟨[], c, t, r, k, rfl, List.forall_mem_nil _, fun _ => List.forall_mem_nil _, hscan, htok,
      rfl, h⟩

theorem exists_punct {p : Punct} (h : Passage back due pos cs (l :: us) due') (hpos : pos ≠ 0)
    (hl : l.token = .punct p) (hreal : l.isInserted = false) :
    ∃ gap r, cs = gap ++ (p.text.toList ++ r) ∧ (∀ d ∈ gap, d ∈ Scan.blanks) ∧
      (due = true → ∀ d ∈ gap, isSpace d = true) ∧
      Passage back (Token.punct p).endsStatement (pos + byteLength gap + byteLength p.text.toList)
        r us due' := by
  obtain ⟨gap, c, t, r, k, rfl, hgap, hspaces, hscan, htok, -, hrest⟩ :=
    h.exists_token rfl hpos hreal
  rw [hl] at htok hrest
  rw [text_of_punct hscan htok] at hrest
  exact ⟨gap, r, by rw [← List.cons_append, text_of_punct hscan htok], hgap, hspaces, hrest⟩

theorem exists_keyword {kw : Keyword} (h : Passage back due pos cs (l :: us) due') (hpos : pos ≠ 0)
    (hl : l.token = .keyword kw) :
    ∃ gap r, cs = gap ++ (kw.text.toList ++ r) ∧ (∀ d ∈ gap, d ∈ Scan.blanks) ∧
      l.start = pos + byteLength gap ∧ (∀ d ∈ (r ++ back).head?, isWordPart d = false) ∧
      Passage back (Token.keyword kw).endsStatement
        (pos + byteLength gap + byteLength kw.text.toList) r us due' := by
  have hreal : l.isInserted = false := by rw [Lexeme.isInserted, hl]; rfl
  obtain ⟨gap, c, t, r, k, rfl, hgap, -, hscan, htok, hplace, hrest⟩ :=
    h.exists_token rfl hpos hreal
  rw [hl] at htok hrest
  obtain rfl := piece_of_keyword htok
  rw [text_of_keyword htok] at hrest
  refine ⟨gap, r, by rw [← List.cons_append, text_of_keyword htok], hgap, ?_,
    not_isWordPart_of_scan_word hscan, hrest⟩
  rw [hplace]

/-- Semicolons are separators. -/
theorem separates_of_semis (h : Passage back due pos cs ts due') (hpos : pos ≠ 0)
    (hts : ∀ l ∈ ts, l.token = .punct .semi) :
    (∀ c ∈ cs, c ∈ separators) ∧ (ts ≠ [] → ∃ c ∈ cs, isSpace c = false) := by
  induction h with
  | done => exact ⟨List.forall_mem_nil _, fun hne => absurd rfl hne⟩
  | @fill due due' pos c cs ts hc h ih =>
    have hspace := hc.resolve_right fun hmark => hpos hmark.1
    obtain ⟨hall, hex⟩ := ih (by omega) hts
    refine ⟨List.forall_mem_cons.2 ⟨?_, hall⟩, fun hne => ?_⟩
    · exact List.mem_cons_of_mem _ (mem_blanks_of_isSpace hspace)
    · obtain ⟨d, hd, hd_space⟩ := hex hne
      exact ⟨d, List.mem_cons_of_mem c hd, hd_space⟩
  | @lineEnd due due' pos c cs ts hc h ih =>
    obtain ⟨hall, -⟩ := ih (by omega) (List.forall_mem_append.1 hts).2
    exact ⟨List.forall_mem_cons.2 ⟨List.mem_cons_of_mem _ (mem_blanks_of_isLineEnd hc), hall⟩,
      fun _ => ⟨c, List.mem_cons_self, not_isSpace_of_isLineEnd hc⟩⟩
  | @token due due' pos c t r k tok ts hscan htok h ih =>
    obtain ⟨hsemi, hmore⟩ := List.forall_mem_cons.1 hts
    dsimp only at hsemi
    subst hsemi
    have htext : c :: t = [';'] := text_of_punct hscan htok
    obtain ⟨rfl, rfl⟩ := List.cons.inj htext
    obtain ⟨hall, -⟩ := ih (by omega) hmore
    exact ⟨List.forall_mem_cons.2 ⟨List.mem_cons_self, hall⟩,
      fun _ => ⟨';', List.mem_cons_self, rfl⟩⟩

end Passage

end GoDecls
