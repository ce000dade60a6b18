/-
  The readers of declarations and of files by index do what those of cursors do
  (`decl_follows`, `takes_file`).
-/
import GoDecls.Indexed.File
import GoDecls.Proofs.Indexed.Types

namespace GoDecls.Indexed

open Tree

variable {α β : Type} {toks : Tokens} {layout : Layout} {c d e : Cursor} {p : Position}

/-! ## Type parameters -/

theorem takes_opensTypeParams : Takes toks toks.opensTypeParams c c.atTypeParams c := by
  refine takes_tok.bind (takes_second.bind ((takes_nth 2).bind ?_))
  unfold Cursor.atTypeParams Cursor.token? Cursor.second?
  rcases c.rest with _ | ⟨l, _ | ⟨l', _ | ⟨l'', ls⟩⟩⟩
  · exact .pure _ _
  · split
    · next h => cases h
    · split
      · next h => simp at h
      · exact .pure _ _
  · split
    · next h => cases h
    · split
      · next h => simp at h
      · exact .pure _ _
  · simp only [List.map_cons]
    split
    · next text t hl hl' hl'' =>
      have hl : l.token = .punct .lbrack := Option.some.inj hl
      have hl' : l'.token = .ident text := Option.some.inj hl'
      have hl'' : l''.token = t := Option.some.inj hl''
      rw [hl, hl', hl'']
      exact .pure _ _
    · next hother =>
      split
      · next h =>
        simp only [List.cons.injEq] at h
        obtain ⟨hl, hl', hl'', -⟩ := h
        exact (hother _ _ (congrArg some hl) (congrArg some hl') (congrArg some hl'')).elim
      · exact .pure _ _

theorem typeParam_follows : Follows toks toks.typeParam c c.typeParam := by
  refine .takes takes_start ?_
  refine (names_follows c _).bind fun names d _ => ?_
  exact (union_follows d).map fun terms e => (takes_spanFrom _).bind (.pure _ _)

/-- The type parameters of a list and the bracket behind them. -/
theorem typeParamList_follows (c : Cursor) : Follows toks (do
      let params ← toks.typeParamRound.rounds
      let _ ← toks.expect (.punct .rbrack) "']'"
      return params) c c.typeParamList :=
  listLoop_follows Cursor.typeParamList_loop rfl rfl (Read.rounds_eq _) c fun _ _ =>
    typeParam_follows

theorem typeParams_follows : Follows toks toks.typeParams c c.typeParams := by
  refine .takes takes_start ?_
  refine (expect_follows _ _).bind fun _ d _ => ?_
  have hparams := (@typeParamList_follows toks d).map
    (f := fun params => do return TypeParams.mk (← spanFrom c.start) params)
    fun ps e => (takes_spanFrom _).bind (.pure _ _)
  simpa only [bind_assoc, pure_bind] using hparams

/-! ## Specs -/

theorem takes_importName : Takes toks toks.importName c c.importName?.1 c.importName?.2 := by
  unfold Cursor.importName?
  split
  · next h => exact (takes_tok_eq h).bind (takes_bump.bind (.pure _ _))
  · next s h =>
    refine (takes_tok_eq h).bind ?_
    by_cases hblank : s = "_"
    · simp only [if_pos hblank]
      exact takes_bump.bind (.pure _ _)
    · simp only [if_neg hblank]
      exact (takes_ident h _).bind (.pure _ _)
  · next hdot hident =>
    refine takes_tok.bind ?_
    split
    · next h => exact (hdot h).elim
    · next h => exact (hident _ h).elim
    · exact .pure _ _

theorem importPath_follows : Follows toks toks.importPath c (c.stringLiteral "import path") := by
  have hread := @takes_stringLiteral toks c
  unfold Cursor.stringLiteral
  rw [Cursor.tag?] at hread
  split
  · next h =>
    rw [if_pos (by rw [h]; rfl)] at hread
    exact .takes hread (.pure _)
  · next h =>
    rw [if_pos (by rw [h]; rfl)] at hread
    exact .takes hread (.pure _)
  · next hstring hraw =>
    have hother : ¬ c.token?.any Token.isString = true := by
      intro h
      cases htok : c.token? with
      | none => simp [htok] at h
      | some t => cases t <;> simp_all [Token.isString]
    rw [if_neg hother] at hread
    exact .takes hread (unexpected_follows _)

theorem importSpec_follows (doc : Option Nat) (c : Cursor) :
    Follows toks (toks.importSpec doc) c (Tree.Cursor.importSpec doc c) :=
  .takes takes_importName (importPath_follows.lift.map fun _ _ => .pure _ _)

theorem typeSpecTail_follows (doc : Option Nat) (name : Ident) (params : Option TypeParams)
    (c : Cursor) : Follows toks (do
      let assign ← toks.eat (.punct .assign)
      let type ← toks.type
      return TypeSpec.mk doc (layout.lineCommentAfter? (← lastEnd)) name params assign type) c
        (c.typeSpecTail layout doc name params) := by
  unfold Cursor.typeSpecTail
  split
  · next h =>
    refine .takes (takes_eat h) ?_
    exact (type_follows c.advance).lift.map fun type d => takes_lastEnd.bind (.pure _ _)
  · next h =>
    refine .takes (takes_eat_none h) ?_
    exact (type_follows c).map fun type d => takes_lastEnd.bind (.pure _ _)

theorem typeSpec_follows (doc : Option Nat) (c : Cursor) :
    Follows toks (toks.typeSpec layout doc) c (Tree.Cursor.typeSpec layout doc c) := by
  refine (ident_follows _).bind fun name d _ => ?_
  refine .takes takes_opensTypeParams ?_
  by_cases h : d.atTypeParams = true
  · rw [if_pos h, if_pos h]
    refine typeParams_follows.bind fun ps e _ => .takes (.pure _ _) ?_
    exact typeSpecTail_follows doc name (some ps) e
  · rw [if_neg h, if_neg h]
    exact .takes (.pure none d) (typeSpecTail_follows doc name none d)

/-- The specs between parentheses and the closing one. -/
theorem specs_follows {spec : Option Nat → Read α} {spec' : (c : Cursor) → Outcome α c}
    (hspec : ∀ c, Follows toks (spec (layout.docFor? c.start)) c (spec' c)) (c : Cursor) :
    Follows toks (do
      let specs ← (toks.specRound layout spec).rounds
      let rparen ← toks.bump
      return (specs, rparen)) c (Cursor.specs spec' c) :=
  memberLoop_follows (Cursor.specs_loop spec') rfl rfl (Read.rounds_eq _) c fun d _ =>
    .takes takes_start (hspec d)

/-! ## Declarations -/

theorem endDecl_follows {a : α} {f : Unit → Read α} {m : d.left < c.left}
    (hf : ∀ e, Takes toks (f ()) e a e) :
    Follows toks (toks.endDecl >>= f) d (Cursor.endDecl a d m : Outcome α c) := by
  refine .assoc ?_
  unfold Cursor.endDecl
  split
  · next h => exact .takes (takes_tok_eq h) (hf d)
  · next h => exact .takes (takes_tok_eq h) (.assoc (.takes takes_bump (hf _)))
  · next t hsemi h =>
    refine .takes (takes_tok_eq h) (Follows.after ?_)
    split
    · next heq => cases heq
    · next heq => exact absurd (Option.some.inj heq) hsemi
    · exact .stop (unexpected_follows _)

theorem specDecl_follows {spec : Option Nat → Read α}
    {spec' : Option Nat → (c : Cursor) → Outcome α c}
    (hspec : ∀ doc c, Follows toks (spec doc) c (spec' doc c)) (c : Cursor) :
    Follows toks (toks.specDecl layout spec) c (c.specDecl layout spec') := by
  refine .takes takes_start (.takes takes_bump ?_)
  unfold Cursor.specDecl
  dsimp only
  split
  · next h =>
    refine .takes (takes_eat h) ?_
    have hspecs := ((@specs_follows _ toks layout _ _ (fun e => hspec (layout.docFor? e.start) e)
      c.advance.advance).lift (k := c.advance.advance_le)).lift (k := c.advance_le)
    have hdecl := hspecs.andThen
      (f := fun more => do
        toks.endDecl
        return (DeclHead.mk (layout.docFor? c.start) c.span (some (c.advance.span, more.2)),
          more.1))
      fun more e m => endDecl_follows (m := m) fun e => .pure _ _
    simp only [bind_assoc, pure_bind] at hdecl
    exact hdecl
  · next h =>
    refine .takes (takes_eat_none h) ?_
    exact ((hspec none c.advance).lift).andThen fun s e m => endDecl_follows fun e => .pure _ _

theorem takes_skipDecl (depth : Nat) :
    Takes toks (toks.skipDecl depth) c () (c.skip (declExtent depth c.rest)) := by
  induction hrest : c.rest generalizing c depth with
  | nil =>
    have htok : c.token? = none := by rw [Cursor.token?, hrest]; rfl
    rw [Tokens.skipDecl]
    exact (takes_tok_eq htok).bind (.pure _ _)
  | cons l ls ih =>
    have htok := Cursor.token?_of_rest hrest
    have htail := Cursor.rest_advance hrest
    rw [Tokens.skipDecl, declExtent]
    refine (takes_tok_eq htok).bind (takes_bump.bind ?_)
    split
    · exact .pure _ _
    · exact ih _ htail

theorem decl_follows (c : Cursor) : Follows toks (toks.decl layout) c (c.decl layout) := by
  refine .takes takes_start (.takes takes_span ?_)
  unfold Cursor.decl
  dsimp only
  split
  · next h =>
    refine .takes (takes_tok_eq h) ?_
    exact (specDecl_follows importSpec_follows c).map fun ⟨head, specs⟩ e => .pure _ _
  · next h =>
    refine .takes (takes_tok_eq h) ?_
    exact (specDecl_follows typeSpec_follows c).map fun ⟨head, specs⟩ e => .pure _ _
  · next h => exact .takes (takes_tok_eq h) (.takes (takes_skipDecl 0) (.pure _))
  · next h => exact .takes (takes_tok_eq h) (.takes (takes_skipDecl 0) (.pure _))
  · next h =>
    refine .takes (takes_tok_eq h) (.takes (takes_skipDecl 0) ?_)
    exact .takes (takes_spanFrom _) (.pure _)
  · refine .takes takes_tok ?_
    split
    case h_6 => exact unexpected_follows _
    all_goals simp_all

/-! ## Files -/

theorem packageClause_follows : Follows toks toks.packageClause c c.packageClause := by
  unfold Tokens.packageClause Cursor.packageClause
  refine (expect_follows _ _).bind fun keyword d _ => ?_
  refine (ident_follows _).andThen fun name e m => ?_
  exact endDecl_follows fun e => .pure _ _

theorem takes_recoverRounds :
    Takes toks toks.recoverRound.rounds c [] c.recover := by
  induction hrest : c.rest generalizing c with
  | nil =>
    have htok : c.token? = none := by rw [Cursor.token?, hrest]; rfl
    have hrecover : c.recover = c := by rw [Cursor.recover, hrest]; rfl
    rw [Read.rounds, hrecover]
    have hround : Takes toks toks.recoverRound c (.done none) c :=
      (takes_tok_eq htok).bind (.pure _ _)
    exact hround.bind (.pure _ _)
  | cons l ls ih =>
    have htok := Cursor.token?_of_rest hrest
    have htail := Cursor.rest_advance hrest
    have hnext : c.advance.token? = ls.head?.map (·.token) := by rw [Cursor.token?, htail]
    have hstop : c.advance.token?.all declares = ls.head?.all (declares ·.token) := by
      rw [hnext, Option.all_map]
    rw [Read.rounds, Cursor.recover, hrest, recoverExtent, ← hstop]
    by_cases hlast : l.token = .punct .semi ∧ c.advance.token?.all declares = true
    · have hround : Takes toks toks.recoverRound c (.done none) c.advance := by
        refine (takes_tok_eq htok).bind (takes_bump.bind (takes_tok.bind ?_))
        rw [if_pos hlast]
        exact .pure _ _
      rw [if_pos hlast]
      exact hround.bind (.pure _ _)
    · have hround : Takes toks toks.recoverRound c (.again none) c.advance := by
        refine (takes_tok_eq htok).bind (takes_bump.bind (takes_tok.bind ?_))
        rw [if_neg hlast]
        exact .pure _ _
      have hmore := ih htail
      rw [Cursor.recover, htail] at hmore
      rw [if_neg hlast]
      exact hround.bind (hmore.bind (.pure _ _))

theorem takes_recover : Takes toks toks.recover c () c.recover :=
  takes_recoverRounds.bind (.pure _ _)

/-- What comes of an outcome that is not passed on. -/
def caught : Outcome α c → Except Diagnostic α
  | .ok a _ _ => .ok a
  | .error fault _ _ => .error fault

theorem takes_attempt {m : Read α} {o : Outcome α c} (h : Follows toks m d o) :
    Takes toks (attempt m) d (caught o) (result o).2 := by
  intro p hp
  obtain ⟨q, hm, hq⟩ := h p hp
  refine ⟨q, ?_, hq⟩
  rw [attempt, Read.run_tryCatch, map_eq_pure_bind]
  cases o with
  | ok a e k => rw [Read.run_bind_ok hm]; rfl
  | error fault e k => rw [Read.run_bind_error hm]; rfl

/-- A declaration, or the diagnostic behind which reading goes on. -/
theorem takes_fileRound (toks : Tokens) (layout : Layout) {t : Token}
    (h : c.token? = some t) (hsemi : t ≠ .punct .semi) :
    Takes toks (toks.fileRound layout) c (.again (some (caught (c.decl layout))))
      (match c.decl layout with
        | .ok _ next _ => next
        | .error _ stop _ => stop.recover) := by
  have hattempt := takes_attempt (@decl_follows toks layout c)
  refine (takes_tok_eq h).bind ?_
  split
  · next heq => cases heq
  · next heq => exact absurd (Option.some.inj heq) hsemi
  · refine hattempt.bind ?_
    cases c.decl layout with
    | ok a next m => exact .pure _ _
    | error fault stop k => exact takes_recover.bind (.pure _ _)

/-- The declarations of a file are read to the end. -/
theorem takes_fileRounds (toks : Tokens) (layout : Layout) (c : Cursor) : ∃ read e,
    Takes toks ((toks.fileRound layout).rounds) c read e ∧ sorted read = c.decls layout ∧
      e.token? = none := by
  rw [Read.rounds, Cursor.decls]
  split
  · next h =>
    have hround : Takes toks (toks.fileRound layout) c (.done none) c :=
      (takes_tok_eq h).bind (.pure _ _)
    exact ⟨[], c, hround.bind (.pure _ _), rfl, h⟩
  · next h =>
    have hround : Takes toks (toks.fileRound layout) c (.again none) c.advance :=
      (takes_tok_eq h).bind (takes_bump.bind (.pure _ _))
    obtain ⟨read, e, hread, hsorted, hend⟩ := takes_fileRounds toks layout c.advance
    exact ⟨_, e, hround.bind (hread.bind (.pure _ _)), hsorted, hend⟩
  · next t hsemi h =>
    have hround := takes_fileRound toks layout h hsemi
    split
    · next a next m ho =>
      rw [ho] at hround
      obtain ⟨read, e, hread, hsorted, hend⟩ := takes_fileRounds toks layout next
      refine ⟨_, e, hround.bind (hread.bind (.pure _ _)), ?_, hend⟩
      rw [← hsorted]
      rfl
    · next fault stop k ho =>
      rw [ho] at hround
      obtain ⟨read, e, hread, hsorted, hend⟩ := takes_fileRounds toks layout stop.recover
      refine ⟨_, e, hround.bind (hread.bind (.pure _ _)), ?_, hend⟩
      rw [← hsorted]
      rfl
termination_by c.left
decreasing_by
  · exact Cursor.advance_lt ‹_›
  · assumption
  · exact Cursor.recover_lt ‹_› ‹_›

theorem takes_file (toks : Tokens) (layout : Layout) (c : Cursor) : ∃ e,
    Takes toks (toks.file layout) c (SourceFile.read layout c) e ∧ e.token? = none := by
  have hattempt := takes_attempt (@packageClause_follows toks c)
  unfold Tokens.file SourceFile.read
  dsimp only
  cases ho : c.packageClause with
  | ok clause next m =>
    rw [ho] at hattempt
    obtain ⟨read, e, hread, hsorted, hend⟩ := takes_fileRounds toks layout next
    refine ⟨e, takes_start.bind (hattempt.bind (hread.bind ?_)), hend⟩
    rw [hsorted]
    exact .pure _ _
  | error fault stop k =>
    rw [ho] at hattempt
    obtain ⟨read, e, hread, hsorted, hend⟩ :=
      takes_fileRounds toks layout stop.recover
    refine ⟨e, takes_start.bind (hattempt.bind (takes_recover.bind (hread.bind ?_))), hend⟩
    rw [hsorted]
    exact .pure _ _

end GoDecls.Indexed
