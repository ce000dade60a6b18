/-
  The texts of declarations of specs.

  * `exists_spells`, `exists_listed`, `exists_declares`: where the tokens of specs, of specs
    between parentheses and of declarations of specs stand, there stand texts of them;
  * `SourceFile.exists_parted`: consecutive declarations of specs in a file without
    comments have a text that declares specs by themselves.
-/
import GoDecls.Proofs.Tree.Grouped
import GoDecls.Proofs.Tree.Regroup

namespace GoDecls

open Scan Text

namespace Tree

open Outcome Cursor

/-! ## Specs -/

section

variable {cs : List Char} {due due' : Bool} {pos : Nat} {ts us vs x : List Lexeme} {k : SpecKind}

/-- Before a semicolon or a closing parenthesis a token may end. -/
theorem breakHead_of_passage (h : Passage [] due pos cs ts due') (hpos : pos ≠ 0)
    (hts : ∀ l ∈ ts.head?, l.token = .punct .semi ∨ l.token = .punct .rparen) :
    BreakHead cs := by
  cases h with
  | done => rintro _ ⟨⟩
  | fill hc _ =>
    rintro _ ⟨⟩
    exact mem_breaks_of_mem_blanks
      (mem_blanks_of_isSpace (hc.resolve_right fun hmark => hpos hmark.1))
  | lineEnd hc _ =>
    rintro _ ⟨⟩
    exact mem_breaks_of_mem_blanks (mem_blanks_of_isLineEnd hc)
  | @token due due' pos c t r k tok ts hscan htok h =>
    rintro _ ⟨⟩
    rcases hts _ rfl with rfl | rfl
    · have htext : c :: t = [';'] := text_of_punct hscan htok
      rw [(List.cons.inj htext).1]
      decide
    · have htext : c :: t = [')'] := text_of_punct hscan htok
      rw [(List.cons.inj htext).1]
      decide

/-- **Where the tokens of a spec stand, there stands a spec by itself.** -/
theorem exists_spells (h : Passage [] false pos cs (us ++ vs) due') (hpos : pos ≠ 0)
    (hus : k.IsSpec us)
    (hvs : ∀ l ∈ vs.head?, l.token = .punct .semi ∨ l.token = .punct .rparen) :
    ∃ gap s rest, cs = gap ++ (s ++ rest) ∧ (∀ c ∈ gap, c ∈ blanks) ∧ k.Spells s ∧
      Passage [] true (pos + byteLength gap + byteLength s) rest vs due' := by
  obtain ⟨cs₁, cs₂, rfl, hfront, hbehind⟩ := h.part us rfl
  obtain ⟨init, last, hlast, hends⟩ := hus.ends
  have hdue : dueAfter false us = true := by rw [hlast, dueAfter_concat, hends]
  rw [hdue] at hfront hbehind
  have hback := breakHead_of_passage hbehind (by omega) hvs
  rw [List.append_nil] at hfront
  obtain ⟨l, ls, rfl, hsemi, -⟩ := hus.readable.begins
  obtain ⟨gap, c, t, r, p, rfl, hgap, -, hscan, htok, hplace, hrest⟩ :=
    hfront.exists_token rfl hpos (not_isInserted hsemi)
  have hspec : Passage cs₂ false (pos + byteLength gap) (c :: (t ++ r)) (l :: ls) true := by
    rw [hplace]
    exact .token hscan htok hrest
  obtain ⟨ts, hts, hbase⟩ := hspec.unshift _ (Nat.zero_add _).symm
  obtain ⟨hrun, hcomments, hfaults⟩ := (hbase.alone hback).run_ofText
  refine ⟨gap, c :: (t ++ r), cs₂, by simp, hgap, ⟨?_, hcomments, hfaults, ?_⟩, ?_⟩
  · rintro ⟨⟩
    rw [scan_orderMark] at hscan
    obtain ⟨rfl, -⟩ := Prod.mk.inj hscan
    cases htok
  · refine hus.readable _ _ _ ts [.inserted _] ?_ hrun ?_
    · rw [hts, List.map_map]
      rfl
    · rintro _ ⟨⟩
      exact .inl rfl
  · rwa [byteLength_append, ← Nat.add_assoc] at hbehind

/-! ## Between parentheses -/

theorem mem_separators_of_mem_blanks {c : Char} (h : c ∈ blanks) : c ∈ separators :=
  List.mem_cons_of_mem _ h

theorem listed_of_separators {gap : List Char} (h : ∀ c ∈ gap, c ∈ separators) :
    Listed [] gap := by
  have := Listed.skip gap h .nil
  rwa [List.append_nil] at this

/-- **Between parentheses there stand specs.** -/
theorem exists_listed {uss : List (List Lexeme)} {rp : Lexeme} (h : Listing uss ts)
    (huss : ∀ us ∈ uss, k.IsSpec us) (hrp : rp.token = .punct .rparen) :
    ∀ {pos : Nat} {cs : List Char}, pos ≠ 0 → Passage [] false pos cs (ts ++ rp :: x) due' →
      ∃ ss body rest, cs = body ++ ')' :: rest ∧ Listed ss body ∧ (∀ s ∈ ss, k.Spells s) ∧
        ss.length = uss.length ∧
        Passage [] true (pos + byteLength body + ')'.utf8Size) rest x due' := by
  have hreal : rp.isInserted = false := not_isInserted (by rw [hrp]; rintro ⟨⟩)
  induction h with
  | nil =>
    intro pos cs hpos hpass
    obtain ⟨gap, rest, rfl, hgap, -, hrest⟩ := hpass.exists_punct hpos hrp hreal
    exact ⟨[], gap, rest, rfl,
      listed_of_separators fun c hc => mem_separators_of_mem_blanks (hgap c hc),
      List.forall_mem_nil _, rfl, hrest⟩
  | @semi l uss ts hl _ ih =>
    intro pos cs hpos hpass
    obtain ⟨cs₁, cs₂, rfl, hfront, hbehind⟩ := hpass.part [l] rfl
    obtain ⟨hseparators, -⟩ := hfront.separates_of_semis hpos (List.forall_mem_singleton.2 hl)
    have hdue : dueAfter false [l] = false := by
      change l.token.endsStatement = false
      rw [hl]
      rfl
    rw [hdue] at hbehind
    obtain ⟨ss, body, rest, rfl, hlisted, hss, hlength, hrest⟩ := ih huss (by omega) hbehind
    refine ⟨ss, cs₁ ++ body, rest, by simp, .skip cs₁ hseparators hlisted, hss, hlength, ?_⟩
    rwa [byteLength_append, ← Nat.add_assoc pos]
  | @last us =>
    intro pos cs hpos hpass
    obtain ⟨gap, s, rest, rfl, hgap, hs, hbehind⟩ :=
      exists_spells hpass hpos (huss us List.mem_cons_self) (by rintro _ ⟨⟩; exact .inr hrp)
    obtain ⟨gap', rest, rfl, -, hspaces, hrest⟩ := hbehind.exists_punct (by omega) hrp hreal
    refine ⟨[s], gap ++ (s ++ gap'), rest, by simp [Punct.text], ?_,
      List.forall_mem_singleton.2 hs, rfl, ?_⟩
    · exact .skip gap (fun c hc => mem_separators_of_mem_blanks (hgap c hc))
        (.last s gap' (hspaces rfl))
    · rw [byteLength_append, byteLength_append, ← Nat.add_assoc, ← Nat.add_assoc]
      exact hrest
  | @cons us l uss ts hl _ ih =>
    intro pos cs hpos hpass
    obtain ⟨hus, huss⟩ := List.forall_mem_cons.1 huss
    rw [List.append_assoc] at hpass
    obtain ⟨gap, s, rest, rfl, hgap, hs, hbehind⟩ :=
      exists_spells hpass hpos hus (by rintro _ ⟨⟩; exact .inl hl)
    obtain ⟨cs₁, cs₂, rfl, hfront, hbehind⟩ := hbehind.part [l] rfl
    obtain ⟨hseparators, hparts⟩ :=
      hfront.separates_of_semis (by omega) (List.forall_mem_singleton.2 hl)
    have hdue : dueAfter true [l] = false := by
      change l.token.endsStatement = false
      rw [hl]
      rfl
    rw [hdue] at hbehind
    obtain ⟨ss, body, rest, rfl, hlisted, hss, hlength, hrest⟩ := ih huss (by omega) hbehind
    refine ⟨s :: ss, gap ++ (s ++ (cs₁ ++ body)), rest, by simp, ?_,
      List.forall_mem_cons.2 ⟨hs, hss⟩, congrArg (· + 1) hlength, ?_⟩
    · exact .skip gap (fun c hc => mem_separators_of_mem_blanks (hgap c hc))
        (.cons s cs₁ ⟨hseparators, hparts (List.cons_ne_nil l [])⟩ hlisted)
    · rw [byteLength_append, byteLength_append, byteLength_append, ← Nat.add_assoc, ← Nat.add_assoc,
        ← Nat.add_assoc]
      exact hrest

/-! ## Declarations -/

/-- **Where the tokens of declarations of specs stand, there stand declarations of
    specs.** -/
theorem exists_declares {uss : List (List Lexeme)} (h : Rows k uss ts)
    (huss : ∀ us ∈ uss, k.IsSpec us) :
    ∀ {due : Bool} {pos : Nat} {cs : List Char} {x : List Lexeme}, pos ≠ 0 →
      Passage [] due pos cs (ts ++ x) due' → Terminal x →
      ∃ ss gap a rest, cs = gap ++ (a ++ rest) ∧ (∀ c ∈ gap, c ∈ blanks) ∧ Declares k ss a ∧
        (∀ s ∈ ss, k.Spells s) ∧ ss.length = uss.length ∧
        (∀ l ∈ ts.head?, l.start = pos + byteLength gap) ∧
        Passage [] true (pos + byteLength gap + byteLength a) rest x due' := by
  induction h with
  | @single kw us hkw =>
    intro due pos cs x hpos hpass hx
    obtain ⟨gap, r, rfl, hgap, hstart, hword, hbehind⟩ := hpass.exists_keyword hpos hkw
    rw [endsStatement_keyword] at hbehind
    obtain ⟨gap', s, rest, rfl, hgap', hs, hrest⟩ :=
      exists_spells hbehind (by omega) (huss us List.mem_cons_self) fun l hl => .inl (hx l hl)
    refine ⟨[s], gap, k.keyword.text.toList ++ (gap' ++ s), rest, by simp, hgap,
      .single gap' s hgap' ?_, List.forall_mem_singleton.2 hs, rfl, ?_, ?_⟩
    · intro c hc
      obtain ⟨cs, hcs⟩ := List.head?_eq_some_iff.1 hc
      refine hword c ?_
      rw [List.append_nil, ← List.append_assoc, hcs]
      rfl
    · rintro _ ⟨⟩
      exact hstart
    · rw [byteLength_append, byteLength_append, ← Nat.add_assoc, ← Nat.add_assoc]
      exact hrest
  | @group kw lp rp uss ts hkw hlp hrp hlisting =>
    intro due pos cs x hpos hpass _
    obtain ⟨gap, r, rfl, hgap, hstart, -, hbehind⟩ := hpass.exists_keyword hpos hkw
    obtain ⟨gap', r, rfl, hgap', -, hopen⟩ := hbehind.exists_punct (by omega) hlp
      (not_isInserted (by rw [hlp]; rintro ⟨⟩))
    rw [List.append_eq, List.append_assoc] at hopen
    obtain ⟨ss, body, rest, rfl, hlisted, hss, hlength, hrest⟩ :=
      exists_listed hlisting huss hrp (by omega) hopen
    refine ⟨ss, gap, k.keyword.text.toList ++ (gap' ++ '(' :: (body ++ [')'])), rest,
      by simp [Punct.text], hgap, .group gap' hgap' hlisted, hss, hlength, ?_, ?_⟩
    · rintro _ ⟨⟩
      exact hstart
    · simpa [byteLength_append, Nat.add_assoc, Punct.text] using hrest
  | @append uss uss' ts ss ts' hrows hne hss _ ih ih' =>
    intro due pos cs x hpos hpass hx
    obtain ⟨huss, huss'⟩ := List.forall_mem_append.1 huss
    rw [List.append_assoc, List.append_assoc] at hpass
    obtain ⟨sp, gap, a, rest, rfl, hgap, ha, hsp, hlength, hstart, hbehind⟩ :=
      ih huss hpos hpass (terminal_of_semis hne hss _)
    obtain ⟨cs₁, cs₂, rfl, hfront, hbehind⟩ := hbehind.part ss rfl
    obtain ⟨hseparators, hparts⟩ := hfront.separates_of_semis (by omega) hss
    obtain ⟨sp', gap', a', rest, rfl, hgap', ha', hsp', hlength', -, hrest⟩ :=
      ih' huss' (by omega) hbehind hx
    obtain ⟨c, hc, hc_space⟩ := hparts hne
    refine ⟨sp ++ sp', gap, a ++ ((cs₁ ++ gap') ++ a'), rest, by simp, hgap,
      .append (cs₁ ++ gap') ha ⟨?_, c, List.mem_append_left _ hc, hc_space⟩ ha',
      List.forall_mem_append.2 ⟨hsp, hsp'⟩, ?_, ?_, ?_⟩
    · exact List.forall_mem_append.2
        ⟨hseparators, fun c hc => mem_separators_of_mem_blanks (hgap' c hc)⟩
    · rw [List.length_append, List.length_append, hlength, hlength']
    · obtain ⟨kw, ls, rfl, -⟩ := hrows.head?
      exact hstart
    · simpa [byteLength_append, Nat.add_assoc] using hrest

/-- What is behind a declaration. -/
theorem declEnd_of_passage (h : Passage [] true pos cs ts due') (hpos : pos ≠ 0)
    (hts : Terminal ts) : DeclEnd cs := by
  generalize hdue : true = due at h
  induction h with
  | done => rintro _ ⟨⟩
  | @fill due due' pos c cs ts hc _ ih =>
    have hspace := hc.resolve_right fun hmark => hpos hmark.1
    have hrest := ih (by omega) hts hdue
    unfold DeclEnd at hrest ⊢
    rwa [List.dropWhile_cons_of_pos hspace]
  | @lineEnd due due' pos c cs ts hc _ _ =>
    unfold DeclEnd
    rw [List.dropWhile_cons_of_neg (by rw [not_isSpace_of_isLineEnd hc]; decide)]
    rintro _ ⟨⟩
    exact .inr hc
  | @token due due' pos c t r k tok ts hscan htok _ _ =>
    have htoken : tok = .punct .semi := hts _ rfl
    subst htoken
    have htext : c :: t = [';'] := text_of_punct hscan htok
    obtain ⟨rfl, -⟩ := List.cons.inj htext
    rintro _ ⟨⟩
    exact .inl rfl

end

/-! ## Files -/

section

variable {k : SpecKind} {text : List Char} {file : SourceFile}

theorem Rows.ends {uss : List (List Lexeme)} {ts : List Lexeme} (h : Rows k uss ts)
    (huss : ∀ us ∈ uss, k.IsSpec us) : ∃ init l, ts = init ++ [l] ∧ l.token ≠ .punct .semi := by
  induction h with
  | @single kw us hkw =>
    obtain ⟨init, l, rfl, hl⟩ := (huss us List.mem_cons_self).ends
    exact ⟨kw :: init, l, rfl, ne_semi_of_endsStatement hl⟩
  | @group kw lp rp uss ts hkw hlp hrp _ =>
    exact ⟨kw :: lp :: ts, rp, rfl, by rw [hrp]; rintro ⟨⟩⟩
  | @append uss uss' ts ss ts' _ _ _ _ _ ih =>
    obtain ⟨init, l, rfl, hl⟩ := ih (List.forall_mem_append.1 huss).2
    exact ⟨ts ++ (ss ++ init), l, by simp, hl⟩

theorem Terminal.of_append {x y : List Lexeme} (h : Terminal (x ++ y)) : Terminal x := by
  intro l hl
  obtain ⟨x, rfl⟩ := List.head?_eq_some_iff.1 hl
  exact h l rfl

/-- The semicolon at the end of a text stands behind other tokens. -/
theorem exists_append_lastLexeme {ts us x : List Lexeme} {due : Bool} {n : Nat}
    (h : ts ++ lastLexeme due n = us ++ x)
    (hus : ∃ init l, us = init ++ [l] ∧ l.token ≠ .punct .semi) :
    ∃ y, ts = us ++ y ∧ x = y ++ lastLexeme due n := by
  rcases List.append_eq_append_iff.1 h with ⟨y, hy, hlast⟩ | ⟨y, hy, hx⟩
  · cases due with
    | false =>
      obtain ⟨rfl, rfl⟩ := List.append_eq_nil_iff.1 hlast.symm
      exact ⟨[], by simp [hy], rfl⟩
    | true =>
      cases y with
      | nil => exact ⟨[], by simp [hy], hlast.symm⟩
      | cons m y =>
        obtain ⟨init, l, rfl, hl⟩ := hus
        obtain ⟨rfl, hnil⟩ := List.cons.inj hlast
        obtain ⟨rfl, -⟩ := List.append_eq_nil_iff.1 hnil.symm
        obtain ⟨-, heq⟩ := List.append_inj' hy rfl
        exact absurd (congrArg Lexeme.token (List.cons.inj heq).1) hl
  · exact ⟨y, hy, hx⟩

/-- **Consecutive declarations of specs** in a file without comments have a text that
    declares specs by themselves. -/
theorem SourceFile.exists_parted (h : SourceFile.ofText text = .ok file)
    (hcomments : (Lexer.ofText text).run.2.comments = []) (hlimit : byteLength text ≤ Span.limit)
    {ds ds' : List Decl} {r : DeclHead × List k.Spec} {rows : List (DeclHead × List k.Spec)}
    (hdecls : file.decls = ds ++ ((r :: rows).map (fun r => k.toDecl r.1 r.2) ++ ds')) :
    ∃ front ss back, Parted k text front ss back ∧
      (k.toDecl r.1 r.2).start = byteLength front ∧
      ss.length = ((r :: rows).flatMap (·.2)).length := by
  obtain ⟨hlex, hread⟩ := SourceFile.ofText_eq_ok_iff.1 h
  obtain ⟨keyword, name, next, m, hclause⟩ :=
    SourceFile.clause_of_read (congrArg Prod.snd hread)
  rw [SourceFile.read_of_clause hclause] at hread
  obtain ⟨rfl, hfaults⟩ := Prod.mk.inj hread
  obtain ⟨b, us, hp, hb, hb_faults⟩ := decls_from next hfaults hdecls
  obtain ⟨semis, uss, ts, x, hrest, hsemis, hrows, hterminal, hspecs, hreads, hstart⟩ :=
    rows_of_decls b hb_faults hb
  obtain ⟨qs, -, -, -, -, -, -, hq, -⟩ :=
    packageClause_echo (Meets.of_tokens rfl) rfl _ next m hclause (Nat.zero_le _)
  -- the tokens in front of the declarations
  have hall : (Lexer.ofText text).run.1 =
      ((Lexer.ofText text).run.1.take (qs ++ us).length ++ semis ++ ts) ++ x := by
    have hskip := (hq.trans hp).rest
    rw [hrest] at hskip
    rw [List.append_assoc, List.append_assoc, hskip, List.take_append_drop]
  obtain ⟨ls, due, hpass, hrun⟩ := exists_passage_ofText hcomments hlex
  obtain ⟨init, last, hts, hlast⟩ := hrows.ends hspecs
  obtain ⟨y, rfl, rfl⟩ := exists_append_lastLexeme (hrun.symm.trans hall)
    ⟨_, last, by rw [hts, ← List.append_assoc], hlast⟩
  rw [List.append_assoc] at hpass
  obtain ⟨cs₁, cs₂, rfl, hfront, hbehind⟩ := hpass.part _ rfl
  have hpos : 0 + byteLength cs₁ ≠ 0 := by
    have hlength : ((Lexer.ofText (cs₁ ++ cs₂)).run.1.take (qs ++ us).length).length ≠ 0 := by
      have hall_left := (hq.trans hp).left
      have hleft := hq.left
      rw [List.length_append] at hall_left
      change (Lexer.ofText (cs₁ ++ cs₂)).run.1.length = _ at hall_left
      rw [List.length_take, List.length_append]
      omega
    obtain ⟨l, hl⟩ := List.exists_mem_of_length_pos (Nat.pos_of_ne_zero hlength)
    have := hfront.within l (List.mem_append_left _ hl)
    omega
  have hy : Terminal y := hterminal.of_append
  obtain ⟨ss, gap, a, rest, rfl, -, ha, hss, hlength, hts_start, hback⟩ :=
    exists_declares hrows hspecs hpos hbehind hy
  rw [Nat.zero_add] at hts_start hback
  refine ⟨cs₁ ++ gap, ss, rest,
    ⟨⟨a, by simp, ha⟩, hss, declEnd_of_passage hback (by omega) hy⟩, ?_, ?_⟩
  · obtain ⟨kw, kws, rfl, -⟩ := hrows.head?
    have hkw : kw ∈ (Lexer.ofText (cs₁ ++ (gap ++ (a ++ rest)))).run.1 := by
      rw [hall]
      simp
    rw [← hstart kw rfl, byteLength_append, ← hts_start kw rfl]
    exact Nat.min_eq_left (start_le_limit hlimit kw hkw)
  · rw [hlength, hreads.length_eq]

end

end Tree

end GoDecls
