/-
  The diagnostics of a text, in order.

  * `decl_traced`, `packageClause_traced`: a diagnostic stands at a place that was
    passed, and recovery moves behind it (`suffix_recover`);
  * `Trail c fs ps`: from `c` on the diagnostics `fs` stand at the places `ps`, each of
    them further on than the one before; `decls_trail`: those of a row of declarations
    do, and `SourceFile.read_trail`: those of a file;
  * `SourceFile.ofText_reports`: what this means for the text.
-/
import GoDecls.Proofs.Token.Account
import GoDecls.Proofs.Tree.FaultsTypes
import GoDecls.Tree.File

namespace GoDecls.Tree

open Text

/-! ## Declarations -/

namespace Cursor

open Outcome

variable {c d : Cursor} {α : Type}

theorem typeParam_traced (c : Cursor) : c.typeParam.Traced := by
  unfold typeParam
  exact (names_traced c _).bind fun _ d _ _ _ => (union_traced d).map

theorem typeParamList_traced (c : Cursor) : c.typeParamList.Traced :=
  typeParamList_loop.traced c fun d _ => typeParam_traced d

theorem typeParams_traced (c : Cursor) : c.typeParams.Traced := by
  unfold typeParams
  exact (expect_points _ _).bind fun _ d _ _ _ => (typeParamList_traced d).map

theorem reaches_importName? (c : Cursor) : c.Reaches c.importName?.2 := by
  unfold importName?
  split
  · exact c.reaches_advance
  · exact c.reaches_advance
  · exact .refl c

theorem stringLiteral_traced (what : String) : (c.stringLiteral what).Traced := by
  unfold stringLiteral
  split
  · exact .ok c.reaches_advance trivial
  · exact .ok c.reaches_advance trivial
  · exact fails_points _

theorem importSpec_traced (doc : Option Nat) (c : Cursor) : (importSpec doc c).Traced := by
  unfold importSpec
  exact Traced.map ((stringLiteral_traced _).lift c.reaches_importName?)

theorem typeSpecTail_traced (layout : Layout) (doc : Option Nat) (name : Ident)
    (params : Option TypeParams) (c : Cursor) : (c.typeSpecTail layout doc name params).Traced := by
  unfold typeSpecTail
  split
  · exact Traced.map ((type_traced c.advance).lift c.reaches_advance)
  · exact (type_traced c).map

theorem typeSpec_traced (layout : Layout) (doc : Option Nat) (c : Cursor) :
    (typeSpec layout doc c).Traced := by
  unfold typeSpec
  refine (ident_points _).bind fun name d _ _ _ => ?_
  split
  · exact (typeParams_traced d).bind fun ps e _ _ _ => typeSpecTail_traced _ _ _ _ e
  · exact typeSpecTail_traced _ _ _ _ d

theorem specs_traced {spec : (c : Cursor) → Outcome α c} (hspec : ∀ c, (spec c).Traced)
    (c : Cursor) : (specs spec c).Traced :=
  (specs_loop spec).traced c fun d _ => hspec d

theorem endDecl_traced {a : α} {m : d.left < c.left} (hd : c.Reaches d) :
    (endDecl a d m : Outcome α c).Traced := by
  unfold endDecl
  split
  · exact .ok hd trivial
  · exact .ok (hd.trans d.reaches_advance) trivial
  · exact (fails_points _).after hd

theorem specDecl_traced (layout : Layout) {spec : Option Nat → (c : Cursor) → Outcome α c}
    (hspec : ∀ doc c, (spec doc c).Traced) (c : Cursor) : (c.specDecl layout spec).Traced := by
  have hc := c.reaches_advance
  unfold specDecl
  dsimp only
  split
  · have hspecs := specs_traced (fun e => hspec (layout.docFor? e.start) e) c.advance.advance
    refine ((hspecs.lift c.advance.reaches_advance).lift hc).andThen fun more e m he _ => ?_
    exact endDecl_traced he
  · exact ((hspec none c.advance).lift hc).andThen fun s e m he _ => endDecl_traced he

/-- **A diagnostic of a declaration** stands at a place that was passed. -/
theorem decl_traced (layout : Layout) (c : Cursor) : (c.decl layout).Traced := by
  unfold decl
  dsimp only
  split
  · exact Traced.map (specDecl_traced layout importSpec_traced c)
  · exact Traced.map (specDecl_traced layout (typeSpec_traced layout) c)
  · exact .ok (c.reaches_skip _) trivial
  · exact .ok (c.reaches_skip _) trivial
  · exact .ok (c.reaches_skip _) trivial
  · exact fails_points _

theorem packageClause_traced (c : Cursor) : c.packageClause.Traced := by
  unfold packageClause
  refine (expect_points _ _).bind fun keyword d _ _ _ => ?_
  exact (ident_points _).andThen fun name e m he _ => endDecl_traced he

/-! ## One diagnostic behind the other -/

/-- Recovery moves on, unless nothing is left. -/
theorem suffix_recover (c : Cursor) : c.recover.rest <:+ c.rest.tail := by
  rw [recover, skip_rest]
  cases hrest : c.rest with
  | nil => simp
  | cons l ls =>
    have hpos : recoverExtent (l :: ls) = recoverExtent (l :: ls) - 1 + 1 := by
      rw [recoverExtent]
      split <;> omega
    rw [hpos, List.drop_succ_cons, List.tail_cons]
    exact List.drop_suffix _ _

theorem reaches_recover (c : Cursor) : c.Reaches c.recover := c.reaches_skip _

/-- The second cursor is at a later token or at the end, and the first is not at the
    last token. -/
def Precedes (p q : Cursor) : Prop :=
  ∃ l ls, p.rest = l :: ls ∧ ls ≠ [] ∧ q.rest <:+ ls

/-- From `c` on the diagnostics `fs` stand at the places `ps`, in order. -/
structure Trail (c : Cursor) (fs : List Diagnostic) (ps : List Cursor) : Prop where
  spans : fs.map (·.span) = ps.map (·.span)
  syntactic : ∀ f ∈ fs, Syntactic f
  reaches : ∀ p ∈ ps, c.Reaches p
  ordered : ps.Pairwise Precedes

theorem Trail.nil (c : Cursor) : c.Trail [] [] :=
  ⟨rfl, List.forall_mem_nil _, List.forall_mem_nil _, .nil⟩

/-- The places stand behind some token from `c` on. -/
def Begun (c : Cursor) (ps : List Cursor) : Prop :=
  ∀ p ∈ ps, ∃ s : Cursor, c.Reaches s ∧ s.rest ≠ [] ∧ s.Reaches p

variable {e stop : Cursor} {f : Diagnostic} {fs : List Diagnostic} {ps : List Cursor}

theorem Trail.before (h : d.Trail fs ps) (hc : c.Reaches d) : c.Trail fs ps :=
  ⟨h.spans, h.syntactic, fun p hp => hc.trans (h.reaches p hp), h.ordered⟩

theorem Begun.before (h : d.Begun ps) (hc : c.Reaches d) : c.Begun ps := by
  intro p hp
  obtain ⟨s, hs, hrest, hreach⟩ := h p hp
  exact ⟨s, hc.trans hs, hrest, hreach⟩

/-- What is read from the place of recovery on stands behind the diagnostic. -/
theorem Begun.precedes {p : Cursor} (h : stop.recover.Begun ps) (hp : p.Reaches stop) :
    ∀ q ∈ ps, p.Precedes q := by
  intro q hq
  obtain ⟨s, hs, hrest, hreach⟩ := h q hq
  have hbehind : s.rest <:+ stop.rest.tail := hs.rest.trans stop.suffix_recover
  have htail : stop.rest.tail <:+ p.rest.tail := by
    obtain ⟨front, hfront⟩ := hp.rest
    rw [← hfront]
    cases front with
    | nil => exact List.suffix_refl _
    | cons l front => exact (List.tail_suffix _).trans (List.suffix_append _ _)
  cases hprest : p.rest with
  | nil =>
    rw [hprest, List.tail_nil] at htail
    rw [List.suffix_nil.1 htail, List.suffix_nil] at hbehind
    exact absurd hbehind hrest
  | cons l ls =>
    rw [hprest, List.tail_cons] at htail
    have hls := hbehind.trans htail
    refine ⟨l, ls, hprest, ?_, hreach.rest.trans hls⟩
    rintro rfl
    exact hrest (List.suffix_nil.1 hls)

/-- A diagnostic before those that are found from the place of recovery on. -/
theorem Trail.cons (h : stop.recover.Trail fs ps) (hb : stop.recover.Begun ps)
    (hstop : c.Reaches stop) (hf : Syntactic f) {p : Cursor} (hp : c.Reaches p)
    (hps : p.Reaches stop) (hspan : f.span = p.span) : c.Trail (f :: fs) (p :: ps) where
  spans := by rw [List.map_cons, List.map_cons, hspan, h.spans]
  syntactic := List.forall_mem_cons.2 ⟨hf, h.syntactic⟩
  reaches := List.forall_mem_cons.2
    ⟨hp, fun q hq => (hstop.trans stop.reaches_recover).trans (h.reaches q hq)⟩
  ordered := List.pairwise_cons.2 ⟨hb.precedes hps, h.ordered⟩

/-- **The diagnostics of a row of declarations** stand one behind the other. -/
theorem decls_trail (layout : Layout) (c : Cursor) :
    ∃ ps, c.Trail (c.decls layout).2 ps ∧ c.Begun ps := by
  rw [decls]
  split
  · exact ⟨[], .nil c, List.forall_mem_nil _⟩
  · obtain ⟨ps, h, hb⟩ := decls_trail layout c.advance
    exact ⟨ps, h.before c.reaches_advance, hb.before c.reaches_advance⟩
  · next t ht =>
    have hdecl := decl_traced layout c
    split
    · next a next m ho =>
      rw [ho] at hdecl
      obtain ⟨ps, h, hb⟩ := decls_trail layout next
      exact ⟨ps, h.before hdecl.1, hb.before hdecl.1⟩
    · next f stop k ho =>
      rw [ho] at hdecl
      obtain ⟨hstop, ⟨p, hp, hps, hspan⟩, hf⟩ := hdecl
      obtain ⟨ps, h, hb⟩ := decls_trail layout stop.recover
      have hrest : c.rest ≠ [] := by
        intro hnil
        rw [token?, hnil] at ht
        cases ht
      refine ⟨p :: ps, h.cons hb hstop hf hp hps hspan, List.forall_mem_cons.2 ⟨?_, ?_⟩⟩
      · exact ⟨c, .refl c, hrest, hp⟩
      · exact hb.before (hstop.trans stop.reaches_recover)
termination_by c.left
decreasing_by
  · exact advance_lt ‹_›
  · assumption
  · exact recover_lt ‹_› ‹_›

end Cursor

/-- **The diagnostics of a file** stand one behind the other. -/
theorem SourceFile.read_trail (layout : Layout) (c : Cursor) :
    ∃ ps, c.Trail (SourceFile.read layout c).2 ps := by
  unfold SourceFile.read
  have hclause := c.packageClause_traced
  dsimp only
  split
  · next keyword name next m ho =>
    rw [ho] at hclause
    obtain ⟨ps, h, -⟩ := next.decls_trail layout
    exact ⟨ps, h.before hclause.1⟩
  · next f stop k ho =>
    rw [ho] at hclause
    obtain ⟨hstop, ⟨p, hp, hps, hspan⟩, hf⟩ := hclause
    obtain ⟨ps, h, hb⟩ := stop.recover.decls_trail layout
    exact ⟨p :: ps, h.cons hb hstop hf hp hps hspan⟩

/-! ## Places of the text -/

namespace Cursor

variable {p q : Cursor} {ts : List Lexeme}

/-- Where the token at the cursor stands, or the end of the text. -/
def place (c : Cursor) : Nat × Nat :=
  match c.rest with
  | [] => (c.size, c.size)
  | l :: _ => (l.start, l.stop)

theorem span_eq_place (c : Cursor) : c.span = .ofOffsets c.place.1 c.place.2 := by
  unfold span place
  cases c.rest <;> rfl

/-- Where tokens start one behind the other, a later place starts further on. -/
theorem Precedes.lt (hts : ts.Pairwise (·.start < ·.start)) (hp : p.rest <:+ ts)
    (hsize : ∀ t ∈ ts, t.start ≤ q.size) (h : p.Precedes q) : p.place.1 < q.place.1 := by
  obtain ⟨l, ls, hrest, hls, hq⟩ := h
  have hordered := hts.sublist hp.sublist
  rw [hrest, List.pairwise_cons] at hordered
  unfold place
  rw [hrest]
  cases hqrest : q.rest with
  | nil =>
    obtain ⟨u, us, rfl⟩ := List.exists_cons_of_ne_nil hls
    have hlt := hordered.1 u List.mem_cons_self
    have hmem : u ∈ p.rest := by
      rw [hrest]
      exact List.mem_cons_of_mem _ List.mem_cons_self
    exact Nat.lt_of_lt_of_le hlt (hsize u (hp.subset hmem))
  | cons u us =>
    rw [hqrest] at hq
    exact hordered.1 u (hq.subset List.mem_cons_self)

end Cursor

variable {text : List Char} {ds : List Diagnostic}

/-- The diagnostics stand in the text, and each starts further on than the one before;
    their spans are as spans hold their places. -/
def InOrder (text : List Char) (ds : List Diagnostic) : Prop :=
  ∃ places : List (Nat × Nat), ds.map (·.span) = places.map (fun p => .ofOffsets p.1 p.2) ∧
    (∀ p ∈ places, p.1 ≤ p.2 ∧ IsBoundary text p.1 ∧ IsBoundary text p.2) ∧
    places.Pairwise (·.1 < ·.1)

/-- In a text that is not too long for its spans, these are the places. -/
theorem InOrder.spans (h : InOrder text ds) (hlimit : byteLength text ≤ Span.limit) :
    (∀ d ∈ ds, d.span.start ≤ d.span.stop ∧ d.span.stop ≤ byteLength text) ∧
      ds.Pairwise (·.span.start < ·.span.start) := by
  obtain ⟨places, hspans, hwithin, hordered⟩ := h
  have hspan : ∀ p ∈ places, Span.ofOffsets p.1 p.2 = ⟨p.1, p.2⟩ := by
    intro p hp
    obtain ⟨-, hstart, hstop⟩ := hwithin p hp
    exact Span.ofOffsets_of_le (Nat.le_trans hstart.le hlimit) (Nat.le_trans hstop.le hlimit)
  constructor
  · intro d hd
    have hmem : d.span ∈ ds.map (·.span) := List.mem_map_of_mem hd
    rw [hspans] at hmem
    obtain ⟨p, hp, heq⟩ := List.mem_map.1 hmem
    rw [← heq, hspan p hp]
    exact ⟨(hwithin p hp).1, (hwithin p hp).2.2.le⟩
  · have hpairs : (ds.map (·.span)).Pairwise (·.start < ·.start) := by
      rw [hspans]
      refine List.pairwise_map.2 (hordered.imp_of_mem fun {p q} hp hq hlt => ?_)
      rw [hspan p hp, hspan q hq]
      exact hlt
    exact List.Pairwise.of_map (·.span) (fun _ _ h => h) hpairs

/-- The lexical diagnostics of a text are in order. -/
theorem inOrder_lexical (text : List Char) : InOrder text (Lexer.ofText text).run.2.diagnostics := by
  refine ⟨(errorsIn (Lexer.ofText text).run.1).map fun t => (t.start, t.stop), ?_, ?_, ?_⟩
  · rw [Lexer.spans_of_run, List.map_map]
    rfl
  · refine List.forall_mem_map.2 fun t ht => ?_
    have hmem := (List.mem_filter.1 ht).1
    exact ⟨((Lexer.ofText text).run_ordered.2 t hmem).2.1, boundary_of_mem_run hmem⟩
  · exact List.pairwise_map.2 ((Lexer.ofText text).run_starts.sublist List.filter_sublist)

/-- The syntactic diagnostics of a text are in order. -/
theorem inOrder_syntactic (text : List Char) (layout : Layout) : InOrder text
    (SourceFile.read layout ⟨(Lexer.ofText text).run.1, 0, byteLength text⟩).2 := by
  obtain ⟨ps, h⟩ :=
    SourceFile.read_trail layout ⟨(Lexer.ofText text).run.1, 0, byteLength text⟩
  have hbound : ∀ t ∈ (Lexer.ofText text).run.1, t.start ≤ byteLength text := fun t ht =>
    (boundary_of_mem_run ht).1.le
  refine ⟨ps.map Cursor.place, ?_, ?_, ?_⟩
  · rw [h.spans, List.map_map]
    exact List.map_congr_left fun p _ => p.span_eq_place
  · refine List.forall_mem_map.2 fun p hp => ?_
    have hreach := h.reaches p hp
    unfold Cursor.place
    split
    · rw [hreach.size]
      have hend : IsBoundary text (byteLength text) := ⟨text, [], (List.append_nil _).symm, rfl⟩
      exact ⟨Nat.le_refl _, hend, hend⟩
    · next l ls hrest =>
      have hmem : l ∈ (Lexer.ofText text).run.1 := by
        refine hreach.rest.subset ?_
        rw [hrest]
        exact List.mem_cons_self
      exact ⟨((Lexer.ofText text).run_ordered.2 l hmem).2.1, boundary_of_mem_run hmem⟩
  · refine List.pairwise_map.2 (h.ordered.imp_of_mem fun {p q} hp hq hpq => ?_)
    refine hpq.lt (Lexer.ofText text).run_starts (h.reaches p hp).rest ?_
    rw [(h.reaches q hq).size]
    exact hbound

/-- A text is refused for what the lexer finds, or else for what the reader does. -/
theorem SourceFile.ofText_eq_error (h : SourceFile.ofText text = .error ds) : ds ≠ [] ∧
    (ds = (Lexer.ofText text).run.2.diagnostics ∨ (Lexer.ofText text).run.2.diagnostics = [] ∧
      ds = (SourceFile.read (Layout.of text (Lexer.ofText text).run.1
        (Lexer.ofText text).run.2.comments) ⟨(Lexer.ofText text).run.1, 0, byteLength text⟩).2) := by
  unfold SourceFile.ofText at h
  dsimp only at h
  split at h
  · next hlex =>
    split at h
    · cases h
    · next hread =>
      cases h
      exact ⟨fun hnil => hread (List.isEmpty_iff.2 hnil), .inr ⟨List.isEmpty_iff.1 hlex, rfl⟩⟩
  · next hlex =>
    cases h
    exact ⟨fun hnil => hlex (List.isEmpty_iff.2 hnil), .inl rfl⟩

/-- What the lexer finds is lexical. -/
theorem lexical_of_run (text : List Char) :
    ∀ d ∈ (Lexer.ofText text).run.2.diagnostics, ∃ f, d.fault = .lex f := by
  intro d hd
  rw [Lexer.run_diagnostics] at hd
  obtain ⟨s, -, hs⟩ := List.mem_filterMap.1 hd
  obtain ⟨f, -, rfl⟩ := Option.map_eq_some_iff.1 hs
  exact ⟨f, rfl⟩

/-- **The diagnostics of a text that is refused** are all lexical, one for each token at
    fault, or the lexer has none and they are all syntactic.  Each starts behind the one
    before.  A text is accepted just if neither the lexer nor the reader has any. -/
theorem SourceFile.ofText_reports (text : List Char) :
    (∀ ds, SourceFile.ofText text = .error ds → ds ≠ [] ∧
      ((ds = (Lexer.ofText text).run.2.diagnostics ∧ (∀ d ∈ ds, ∃ f, d.fault = .lex f) ∧
          ds.map (·.span) = (errorsIn (Lexer.ofText text).run.1).map Lexeme.span) ∨
        ((Lexer.ofText text).run.2.diagnostics = [] ∧ ∀ d ∈ ds, ∃ f, d.fault = .parse f)) ∧
      InOrder text ds ∧
      (byteLength text ≤ Span.limit →
        (∀ d ∈ ds, d.span.start ≤ d.span.stop ∧ d.span.stop ≤ byteLength text) ∧
          ds.Pairwise (·.span.start < ·.span.start))) ∧
    ((∃ file, SourceFile.ofText text = .ok file) ↔
      (Lexer.ofText text).run.2.diagnostics = [] ∧
        (SourceFile.read (Layout.of text (Lexer.ofText text).run.1
          (Lexer.ofText text).run.2.comments)
            ⟨(Lexer.ofText text).run.1, 0, byteLength text⟩).2 = []) := by
  constructor
  · intro ds h
    obtain ⟨hne, rfl | ⟨hlex, rfl⟩⟩ := SourceFile.ofText_eq_error h
    · have hspans := (Lexer.ofText text).spans_of_run
      exact ⟨hne, .inl ⟨rfl, lexical_of_run text, hspans⟩, inOrder_lexical text,
        (inOrder_lexical text).spans⟩
    · have horder := inOrder_syntactic text (Layout.of text (Lexer.ofText text).run.1
        (Lexer.ofText text).run.2.comments)
      obtain ⟨ps, htrail⟩ := SourceFile.read_trail (Layout.of text (Lexer.ofText text).run.1
        (Lexer.ofText text).run.2.comments) ⟨(Lexer.ofText text).run.1, 0, byteLength text⟩
      exact ⟨hne, .inr ⟨hlex, htrail.syntactic⟩, horder, horder.spans⟩
  · constructor
    · rintro ⟨file, hfile⟩
      obtain ⟨hlex, hread⟩ := SourceFile.ofText_eq_ok_iff.1 hfile
      rw [hread]
      exact ⟨hlex, rfl⟩
    · rintro ⟨hlex, hread⟩
      exact ⟨_, SourceFile.ofText_eq_ok_iff.2 ⟨hlex, Prod.ext rfl hread⟩⟩

/-- A list that mixes names and types, a length where a type should stand, and a body
    that is not closed: the first is reported at a name that was passed, the last at the
    end of the text. -/
theorem SourceFile.ofText_reports_three :
    let text := "package p\ntype A func(a int, b)\ntype B 5\ntype C struct \x7b".toList
    ∃ ds, SourceFile.ofText text = .error ds ∧
      ds.map (·.span) = [⟨29, 30⟩, ⟨39, 40⟩, ⟨56, 56⟩] ∧
      ((∀ d ∈ ds, d.span.start ≤ d.span.stop ∧ d.span.stop ≤ byteLength text) ∧
        ds.Pairwise (·.span.start < ·.span.start)) := by
  intro text
  have hlimit : byteLength text ≤ Span.limit := by decide +kernel
  have hlex : (Lexer.ofText text).run.2.diagnostics = [] := by decide +kernel
  have hspans : (SourceFile.read (Layout.of text (Lexer.ofText text).run.1
      (Lexer.ofText text).run.2.comments)
        ⟨(Lexer.ofText text).run.1, 0, byteLength text⟩).2.map (·.span) =
          [⟨29, 30⟩, ⟨39, 40⟩, ⟨56, 56⟩] := by
    decide +kernel
  cases hfile : SourceFile.ofText text with
  | ok file =>
    rw [(SourceFile.ofText_eq_ok_iff.1 hfile).2] at hspans
    cases hspans
  | error ds =>
    obtain ⟨hne, rfl | ⟨-, rfl⟩⟩ := SourceFile.ofText_eq_error hfile
    · exact absurd hlex hne
    · exact ⟨_, rfl, hspans, ((SourceFile.ofText_reports text).1 _ hfile).2.2.2 hlimit⟩

end GoDecls.Tree
