/-
  The spans of a file nest and stand in order.

  * `Cursor.decls_row`: the outlines of declarations that are read without a
    diagnostic are a row to the end of the text;
  * `group_row`: comments in order stay in order in their groups;
  * `SourceFile.fits_ofText`: the outlines of the tree of a text, unless the text is
    too long for its spans, fit the text.
-/
import GoDecls.Proofs.Tree.PlacedTypes
import GoDecls.Tree.File

namespace GoDecls.Tree

open Scan Text Outcome

variable {text : List Char}

namespace Cursor

variable {c : Cursor} {lo : Nat}

/-! ## Type parameters -/

theorem typeParam_spans (hc : c.Placed text) :
    c.typeParam.Spans text c.start fun p => [p.outline] := by
  unfold typeParam
  refine (names_spans hc _).bind fun names d _ hd hnames => ?_
  exact (union_spans d hd).map fun terms e he hterms => he.node hc.start (hd.append hnames hterms)

theorem typeParamList_spans (c : Cursor) (hc : c.Placed text) :
    c.typeParamList.Spans text c.start fun ps => ps.map (·.outline) :=
  typeParamList_loop.spans (fun _ => .inl rfl) (fun _ _ => rfl) c hc fun _ _ hd =>
    typeParam_spans hd

theorem typeParams_spans (hc : c.Placed text) :
    c.typeParams.Spans text c.start fun ps => [ps.outline] := by
  unfold typeParams
  refine (expect_spans hc (.punct .lbrack) (by simp) _).bind fun _ d _ hd hopen => ?_
  exact (typeParamList_spans d hd).map fun ps e he hps => he.node hc.start (hd.drop hopen hps)

/-! ## Specs -/

/-- The name of an import stands before what follows it. -/
theorem Placed.importName?_row (hc : c.Placed text) : c.importName?.2.Placed text ∧
    ∀ {hi os}, Row text c.importName?.2.start hi os →
      Row text c.start hi (c.importName?.1.toList.map (·.outline) ++ os) := by
  unfold importName?
  split
  · next h =>
    exact ⟨hc.advance, fun hos => hc.advance.append (hc.token_row h (by simp)) hos⟩
  · next s h =>
    refine ⟨hc.advance, fun hos => hc.advance.append ?_ hos⟩
    by_cases hs : s = "_"
    · rw [if_pos hs]
      exact hc.token_row h (by simp)
    · rw [if_neg hs]
      exact hc.ident_row h
  · exact ⟨hc, id⟩

theorem stringLiteral_spans (hc : c.Placed text) (what : String) :
    (c.stringLiteral what).Spans text c.start fun path => [.leaf path] := by
  unfold stringLiteral
  split
  · next h => exact .ok hc.advance (hc.token_row h (by simp))
  · next h => exact .ok hc.advance (hc.token_row h (by simp))
  · exact fails_leads what

theorem importSpec_spans (doc : Option Nat) (hc : c.Placed text) :
    (c.importSpec doc).Spans text c.start (·.outlines) := by
  obtain ⟨hd, hname⟩ := hc.importName?_row
  exact (stringLiteral_spans hd _).lift.map fun path e _ hpath => hname hpath

theorem typeSpecTail_spans (layout : Layout) (doc : Option Nat) {name : Ident}
    {params : Option TypeParams} (hc : c.Placed text)
    (hbefore : Row text lo c.last (name.outline :: params.toList.map (·.outline))) :
    (c.typeSpecTail layout doc name params).Spans text lo (·.outlines) := by
  unfold typeSpecTail
  split
  · next h =>
    have hassign := hc.token_row h (by simp)
    refine (type_spans c.advance hc.advance).lift.map fun type d _ htype => ?_
    exact hc.append hbefore (hc.advance.append hassign htype)
  · exact (type_spans c hc).map fun type d _ htype => hc.append hbefore htype

theorem typeSpec_spans (layout : Layout) (doc : Option Nat) (hc : c.Placed text) :
    (c.typeSpec layout doc).Spans text c.start (·.outlines) := by
  unfold typeSpec
  refine (ident_spans hc _).bind fun name d _ hd hname => ?_
  split
  · refine (typeParams_spans hd).bind fun ps e _ he hps => ?_
    exact typeSpecTail_spans layout doc he (hd.append hname hps)
  · exact typeSpecTail_spans layout doc hd hname

/-! ## Declarations -/

section

variable {α : Type} {f : α → List Outline}

theorem specs_spans {spec : (c : Cursor) → Outcome α c}
    (hspec : ∀ c : Cursor, c.Placed text → (spec c).Spans text c.start f) (c : Cursor)
    (hc : c.Placed text) :
    (specs spec c).Spans text c.start fun p => p.1.flatMap f ++ [.leaf p.2] :=
  (specs_loop spec).spans (fun _ => .inr rfl)
    (fun _ _ => by rw [← List.append_assoc, ← List.flatMap_cons]; rfl) c hc fun d _ => hspec d

theorem endDecl_spans {a : α} {d : Cursor} {m : d.left < c.left} (hd : d.Placed text)
    (ha : Row text lo d.last (f a)) : (endDecl a d m).Spans text lo f := by
  unfold endDecl
  split
  · exact .ok hd ha
  · exact .ok hd.advance (ha.mono (Nat.le_refl _) hd.advance_spec.2.1)
  · exact (fails_leads _).after

theorem specDecl_spans (layout : Layout) {spec : Option Nat → (c : Cursor) → Outcome α c}
    (hspec : ∀ doc, ∀ c : Cursor, c.Placed text → (spec doc c).Spans text c.start f)
    (hc : c.Placed text) {t : Token} (h : c.token? = some t) (ht : t ≠ .punct .semi) :
    (c.specDecl layout spec).Spans text c.start fun p => p.1.outlines (p.2.flatMap f) := by
  have hkeyword := hc.token_row h ht
  have hd := hc.advance
  unfold specDecl
  dsimp only
  split
  · next hparen =>
    have hopen := hd.token_row hparen (by simp)
    have hmore := specs_spans (fun e he => hspec (layout.docFor? e.start) e he) c.advance.advance
      hd.advance
    refine hmore.lift.lift.andThen fun more e _ he hspecs => endDecl_spans he ?_
    exact hd.append hkeyword (hd.advance.append hopen hspecs)
  · refine (hspec none c.advance hd).lift.andThen fun s e _ he hs => endDecl_spans he ?_
    rw [List.flatMap_singleton]
    exact hd.append hkeyword hs

end

/-- What is passed over ends no earlier than its first token. -/
theorem Placed.last_le_skip (hc : c.Placed text) {n : Nat} (hn : 0 < n) :
    c.advance.last ≤ (c.skip n).last := by
  obtain ⟨n, rfl⟩ := Nat.exists_eq_add_one_of_ne_zero (Nat.ne_of_gt hn)
  exact (hc.advance.skip_spec n).2

theorem declExtent_pos {t : Token} (h : c.token? = some t) : 0 < declExtent 0 c.rest := by
  have hlt := skipDecl_lt h
  rw [skipDecl, left_skip] at hlt
  omega

theorem decl_spans (layout : Layout) (hc : c.Placed text) :
    (c.decl layout).Spans text c.start (·.outlines) := by
  have hskip {t : Token} (h : c.token? = some t) (ht : t ≠ .punct .semi) :
      c.skipDecl.Placed text ∧ Row text c.start c.skipDecl.last [.leaf c.span] :=
    ⟨(hc.skip_spec _).1,
      (hc.token_row h ht).mono (Nat.le_refl _) (hc.last_le_skip (declExtent_pos h))⟩
  unfold decl
  dsimp only
  split
  · next h =>
    exact (specDecl_spans layout (fun doc _ => importSpec_spans doc) hc h (by simp)).map
      fun _ _ _ hrow => hrow
  · next h =>
    exact (specDecl_spans layout (fun doc _ => typeSpec_spans layout doc) hc h (by simp)).map
      fun _ _ _ hrow => hrow
  · next h => exact .ok (hskip h (by simp)).1 (hskip h (by simp)).2
  · next h => exact .ok (hskip h (by simp)).1 (hskip h (by simp)).2
  · next h =>
    obtain ⟨hd, hrow⟩ := hskip h (by simp)
    exact .ok hd (hd.node hc.start (.nil hrow.le))
  · exact fails_leads _

/-! ## Files -/

theorem decls_row (layout : Layout) (c : Cursor) (hc : c.Placed text)
    (hfaults : (c.decls layout).2 = []) :
    Row text c.start (byteLength text) ((c.decls layout).1.flatMap (·.outlines)) := by
  rw [decls] at hfaults ⊢
  split at hfaults
  · exact hc.start.le
  · have hrest := decls_row layout c.advance hc.advance hfaults
    exact hrest.mono hc.start_le_advance (Nat.le_refl _)
  · split at hfaults
    · next d next m h =>
      obtain ⟨hnext, hd⟩ := decl_spans layout hc _ _ _ h
      exact hnext.append hd (decls_row layout next hnext hfaults)
    · cases hfaults
termination_by c.left
decreasing_by
  · exact advance_lt ‹_›
  · assumption

theorem packageClause_spans (hc : c.Placed text) :
    c.packageClause.Spans text c.start fun p => [.leaf p.1, p.2.outline] := by
  unfold packageClause
  refine (expect_spans hc (.keyword .package) (by simp) _).bind fun keyword d _ hd hkeyword => ?_
  refine (ident_spans hd _).andThen fun name e _ he hname => endDecl_spans he ?_
  exact hd.append hkeyword hname

end Cursor

open Cursor

theorem SourceFile.fits_read (layout : Layout) {c : Cursor} (hc : c.Placed text)
    (hfaults : (SourceFile.read layout c).2 = []) :
    ((SourceFile.read layout c).1.outline (byteLength text)).Fits text := by
  unfold SourceFile.read at hfaults ⊢
  dsimp only at hfaults ⊢
  split at hfaults
  · next keyword name next m h =>
    obtain ⟨hnext, hclause⟩ := packageClause_spans hc _ _ _ h
    have hdecls := decls_row layout next hnext hfaults
    obtain ⟨-, hkeyword, hname⟩ := hclause
    exact fits_whole ⟨Nat.zero_le _, hkeyword, hnext.drop hname hdecls⟩
  · cases hfaults

/-! ## Comments -/

section

variable {lo hi : Nat} {os : List Outline}

theorem ofOffsets_eq (hlimit : byteLength text ≤ Span.limit) {a b : Nat} (ha : IsBoundary text a)
    (hb : IsBoundary text b) : Span.ofOffsets a b = ⟨a, b⟩ :=
  Span.ofOffsets_of_le (Nat.le_trans ha.le hlimit) (Nat.le_trans hb.le hlimit)

theorem single_row (hlimit : byteLength text ≤ Span.limit) (l : Layout) {c : Comment}
    (h : Row text lo hi (.leaf c.span :: os)) :
    Row text lo hi (groupOutline (l.single c) :: os) := by
  obtain ⟨hlo, hc, hos⟩ := h
  have hspan : Span.ofOffsets c.span.start c.span.stop = c.span :=
    ofOffsets_eq hlimit hc.start hc.stop
  unfold groupOutline Layout.single
  rw [hspan]
  exact ⟨hlo, hc.around, hos⟩

theorem extend_row (hlimit : byteLength text ≤ Span.limit) {g : CommentGroup} {c : Comment}
    (h : Row text lo hi (groupOutline g :: .leaf c.span :: os)) :
    Row text lo hi (groupOutline (Layout.extend g c) :: os) := by
  obtain ⟨hlo, hg, hnext, hc, hos⟩ := h
  have hspan : Span.ofOffsets g.span.start c.span.stop = ⟨g.span.start, c.span.stop⟩ :=
    ofOffsets_eq hlimit hg.start hc.stop
  have hcomments := (Row.of_fits hg).append (.singleton hnext hc (Nat.le_refl _))
  unfold groupOutline Layout.extend
  rw [hspan, List.map_append]
  exact ⟨hlo, fits_node hg.start hc.stop nofun hcomments, hos⟩

/-- Comments behind an open group stay in order. -/
theorem groupFrom_row (hlimit : byteLength text ≤ Span.limit) (l : Layout) {g : CommentGroup}
    {cs : List Comment} (h : Row text lo hi (groupOutline g :: cs.map fun c => .leaf c.span)) :
    Row text lo hi ((l.groupFrom g cs).map groupOutline) := by
  induction cs generalizing lo g with
  | nil => exact h
  | cons c cs ih =>
    unfold Layout.groupFrom
    split
    · exact ih (extend_row hlimit h)
    · exact ⟨h.1, h.2.1, ih (single_row hlimit l h.2.2)⟩

/-- Comments in order stay so in their groups. -/
theorem group_row (hlimit : byteLength text ≤ Span.limit) (l : Layout) {cs : List Comment}
    (h : Row text lo hi (cs.map fun c => .leaf c.span)) :
    Row text lo hi ((l.group cs).map groupOutline) := by
  cases cs with
  | nil => exact h
  | cons c cs => exact groupFrom_row hlimit l (single_row hlimit l h)

end

/-- The comments of a text stand in order. -/
theorem comments_row (hlimit : byteLength text ≤ Span.limit) :
    Row text 0 (byteLength text)
      ((Lexer.ofText text).run.2.comments.map fun c => .leaf c.span) := by
  have hcomments : (Lexer.ofText text).run.2.comments =
      ((segments 0 text).filterMap Segment.remark?).map Remark.comment :=
    (Lexer.ofText text).run_comments
  have hordered : ((segments 0 text).filterMap Segment.remark?).Pairwise (·.stop ≤ ·.start) := by
    refine List.pairwise_filterMap.2 ((segments_ordered 0 text).imp fun h n hn n' hn' => ?_)
    obtain ⟨_, -, rfl⟩ := Option.map_eq_some_iff.1 hn
    obtain ⟨_, -, rfl⟩ := Option.map_eq_some_iff.1 hn'
    exact h
  have hstands : ∀ n ∈ (segments 0 text).filterMap Segment.remark?,
      IsBoundary text n.start ∧ IsBoundary text n.stop ∧ n.start ≤ n.stop := by
    intro n hn
    obtain ⟨s, hs, _, -, rfl⟩ := mem_remarks.1 hn
    obtain ⟨hstart, hstop⟩ := boundary_segment hs
    exact ⟨hstart, hstop, Nat.le_of_lt s.start_lt_stop⟩
  rw [hcomments, List.map_map]
  have hmap : ∀ n ∈ (segments 0 text).filterMap Segment.remark?,
      ((fun c => Outline.leaf c.span) ∘ Remark.comment) n = .leaf ⟨n.start, n.stop⟩ := fun _ hn =>
    congrArg Outline.leaf (span_of_remark hlimit hn)
  rw [List.map_congr_left hmap]
  refine .of_ordered (Nat.zero_le _) ?_ ?_ ?_
  · refine List.forall_mem_map.2 fun n hn => ?_
    obtain ⟨hstart, hstop, hle⟩ := hstands n hn
    exact fits_leaf hstart hstop hle
  · refine List.forall_mem_map.2 fun n hn => ⟨Nat.zero_le _, (hstands n hn).2.1.le⟩
  · exact List.pairwise_map.2 hordered

/-! ## The tree of a text -/

theorem stands_of_mem_run {l : Lexeme} (hl : l ∈ (Lexer.ofText text).run.1) : Stands text l := by
  obtain ⟨hstart, hstop⟩ := boundary_of_mem_run hl
  constructor
  case start => exact hstart
  case stop => exact hstop
  case le => exact ((Lexer.ofText text).run_ordered.2 l hl).2.1
  case extent =>
    intro htoken
    have hreal : l.isInserted = false :=
      Bool.and_eq_false_iff.2 (.inl (beq_eq_false_iff_ne.2 htoken))
    exact forall_run (P := fun t => t.start < t.stop)
      (fun s hs _ _ => (stretch_segment hs).start_lt) l hl hreal
  case named =>
    intro s htoken
    have hs : l.token.text? = some s := by rw [htoken]; rfl
    exact text_of_mem_run hl hs

theorem placed_run (hlimit : byteLength text ≤ Span.limit) :
    (Cursor.mk (Lexer.ofText text).run.1 0 (byteLength text)).Placed text where
  limit := hlimit
  size := rfl
  tokens _ hl := stands_of_mem_run hl
  ordered := (Lexer.ofText text).run_ordered.1
  last := ⟨[], text, rfl, rfl⟩
  behind _ _ := Nat.zero_le _

/-- **Spans nest and name what they cover.**  In the tree of a text that is not too
    long for its spans, every span begins and ends between characters of the text; the
    spans in a node lie in its own, one behind the other; and under a name stands that
    name. -/
theorem SourceFile.fits_ofText {file : SourceFile} (hlimit : byteLength text ≤ Span.limit)
    (h : SourceFile.ofText text = .ok file) :
    (file.outline (byteLength text)).Fits text ∧
      (file.commentOutline (byteLength text)).Fits text := by
  unfold SourceFile.ofText at h
  dsimp only at h
  split at h
  · split at h
    · next hfaults =>
      cases h
      have hread := SourceFile.fits_read (Layout.of text _ _) (placed_run hlimit)
        (List.isEmpty_iff.1 hfaults)
      refine ⟨hread, fits_whole ?_⟩
      rw [SourceFile.read_comments]
      exact group_row hlimit _ (comments_row hlimit)
    · cases h
  · cases h

/-- A comment, type parameters that share a constraint and parameters that share a
    type. -/
theorem SourceFile.fits_ofText_generic :
    let text := "package p // q\ntype T[A, B any] func(a, b [n]A) p.B".toList
    byteLength text ≤ Span.limit ∧ ∃ file, SourceFile.ofText text = .ok file ∧
      (file.decls.flatMap (·.outlines)).map (·.span) =
        [⟨15, 19⟩, ⟨20, 21⟩, ⟨21, 31⟩, ⟨32, 51⟩] ∧
      (file.outline (byteLength text)).Fits text ∧
        (file.commentOutline (byteLength text)).Fits text := by
  intro text
  have hlimit : byteLength text ≤ Span.limit := by decide +kernel
  have hspans : ((SourceFile.ofText text).toOption.map fun file =>
      (file.decls.flatMap (·.outlines)).map (·.span)) =
        some [⟨15, 19⟩, ⟨20, 21⟩, ⟨21, 31⟩, ⟨32, 51⟩] := by
    decide +kernel
  cases hfile : SourceFile.ofText text with
  | error e =>
    rw [hfile] at hspans
    cases hspans
  | ok file =>
    rw [hfile] at hspans
    exact ⟨hlimit, file, rfl, Option.some.inj hspans, SourceFile.fits_ofText hlimit hfile⟩

end GoDecls.Tree
