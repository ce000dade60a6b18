/-
  Declared types with type parameters.

  A list of type parameters and the length of an array both stand in square brackets
  behind the declared name and may begin with a name.  The token behind that name
  decides, and three tokens that begin a constraint are not known there: `*`, `(` and
  `<-`.

  * `TypeSpec.render`: the tokens of a declared type;
  * `TypeParams.isOverlooked`: the first parameter has one name, and its constraint
    begins with one of the three tokens;
  * `SourceFile.ofText_generics`: declared types are read back with their type
    parameters, and those that are overlooked as arrays with the parameters as length.
-/
import GoDecls.Proofs.Tree.EchoFile
import GoDecls.Proofs.Tree.RoundTrip

namespace GoDecls.Tree

variable {m : Manner} {c : Cursor} {rs ms : List Lexeme}

/-! ## Tokens -/

/-- The tokens of names and their constraint. -/
def TypeParam.render (m : Manner) (p : TypeParam) : List Token :=
  renderNames p.names ++ listed .pipe false (p.constraint.map (·.render m))

/-- The tokens of type parameters between the brackets. -/
def TypeParams.renderInner (m : Manner) (ps : TypeParams) : List Token :=
  listed .comma m.closing (ps.params.map (·.render m))

/-- The tokens of a declared type. -/
def TypeSpec.render (m : Manner) (s : TypeSpec) : List Token :=
  s.name.token :: ((s.typeParams.elim [] fun ps =>
    .punct .lbrack :: (ps.renderInner m ++ [.punct .rbrack])) ++
      (renderMark .assign s.assign ++ s.type.render m))

/-- There are names and terms, and the types of the terms are canonical. -/
structure TypeParam.Canonical (m : Manner) (p : TypeParam) : Prop where
  names_ne : p.names ≠ []
  constraint_ne : p.constraint ≠ []
  types : ∀ t ∈ p.constraint, t.type.Canonical m

/-- There are type parameters, and they are canonical. -/
structure TypeParams.Canonical (m : Manner) (ps : TypeParams) : Prop where
  params_ne : ps.params ≠ []
  params : ∀ p ∈ ps.params, p.Canonical m

/-- A declared type with type parameters: it is no alias, and its parts are canonical. -/
structure TypeSpec.Generic (m : Manner) (s : TypeSpec) : Prop where
  typeParams : ∃ ps, s.typeParams = some ps ∧ ps.Canonical m
  assign_eq : s.assign = none
  type : s.type.Canonical m

/-! ## What is told apart behind the first name -/

/-- The type is a pointer, a type in parentheses or a channel to receive from. -/
def TypeExpr.isOverlooked : TypeExpr → Bool
  | .pointer _ _ _ | .paren _ _ | .chan _ .recv _ => true
  | _ => false

/-- The first parameter has one name, and its constraint begins with a type that is not
    known there to begin one. -/
def TypeParams.isOverlooked (ps : TypeParams) : Bool :=
  match ps.params with
  | ⟨_, [_], ⟨none, T⟩ :: _⟩ :: _ => T.isOverlooked
  | _ => false

/-- The declared type as it is read: parameters that are overlooked are an array length. -/
def TypeSpec.taken (s : TypeSpec) : TypeSpec :=
  if s.typeParams.any TypeParams.isOverlooked then
    { s with typeParams := none, type := .array .zero (.expr .zero .other) s.type }
  else s

theorem continuesTypeParams_head (T : TypeExpr) :
    Cursor.continuesTypeParams T.head = !T.isOverlooked := by
  cases T with
  | chan _ dir _ => cases dir <;> rfl
  | _ => rfl

theorem Term.render_eq_cons (m : Manner) (t : Term) :
    ∃ u us, t.render m = u :: us ∧ u ≠ .punct .dot ∧ u ≠ .punct .comma ∧
      Cursor.continuesTypeParams u = (t.tilde.isSome || !t.type.isOverlooked) := by
  obtain ⟨tilde, T⟩ := t
  cases tilde with
  | some _ => exact ⟨_, _, rfl, by decide, by decide, rfl⟩
  | none =>
    obtain ⟨us, hT⟩ := T.render_eq_head m
    exact ⟨_, us, hT, T.head_ne rfl, T.head_ne rfl, continuesTypeParams_head T⟩

/-- The first two tokens of type parameters. -/
theorem TypeParams.Canonical.renderInner_eq_cons {ps : TypeParams} (h : ps.Canonical m) :
    ∃ i u us, ps.renderInner m = .ident i :: u :: us ∧ u ≠ .punct .dot ∧
      Cursor.continuesTypeParams u = !ps.isOverlooked := by
  obtain ⟨_, params⟩ := ps
  obtain ⟨⟨_, names, constraint⟩, more, rfl⟩ := List.exists_cons_of_ne_nil h.params_ne
  obtain ⟨hnames, hconstraint, -⟩ := h.params _ List.mem_cons_self
  obtain ⟨i, is, rfl⟩ := List.exists_cons_of_ne_nil hnames
  obtain ⟨t, ts, rfl⟩ := List.exists_cons_of_ne_nil hconstraint
  rw [renderInner, List.map_cons, listed_cons, TypeParam.render]
  cases is with
  | cons j js => exact ⟨i.text, .punct .comma, _, rfl, by decide, rfl⟩
  | nil =>
    obtain ⟨u, us, hu, hdot, -, hcont⟩ := t.render_eq_cons m
    rw [List.map_cons, listed_cons, hu]
    refine ⟨i.text, u, _, rfl, hdot, hcont.trans ?_⟩
    obtain ⟨tilde, T⟩ := t
    cases tilde <;> rfl

/-- Type parameters begin with a name. -/
theorem TypeParam.Canonical.render_eq_cons {p : TypeParam} (h : p.Canonical m) :
    ∃ t ts, p.render m = t :: ts ∧ t ≠ .punct .rbrack ∧ t ≠ .punct .comma := by
  obtain ⟨_, names, constraint⟩ := p
  obtain ⟨i, is, rfl⟩ := List.exists_cons_of_ne_nil h.names_ne
  cases is <;> exact ⟨_, _, rfl, Token.noConfusion, Token.noConfusion⟩

theorem TypeParams.Canonical.balanced {ps : TypeParams} (h : ps.Canonical m) :
    Balanced (ps.renderInner m) := by
  refine Balanced.listed rfl rfl fun x hx => ?_
  obtain ⟨p, hp, rfl⟩ := List.mem_map.1 hx
  refine (balanced_renderNames p.names).append (Balanced.listed rfl rfl fun y hy => ?_)
  obtain ⟨t, ht, rfl⟩ := List.mem_map.1 hy
  exact t.balanced_render ((h.params p hp).types t ht).balanced

namespace Cursor

theorem atTypeParams_of_spells {ps : TypeParams} (h : ps.Canonical m)
    (hs : Spells c.rest (.punct .lbrack :: (ps.renderInner m ++ [.punct .rbrack])) rs) :
    c.atTypeParams = !ps.isOverlooked := by
  obtain ⟨i, u, us, hinner, -, hcont⟩ := h.renderInner_eq_cons
  obtain ⟨front, hc, hfront⟩ := hs
  rw [hinner] at hfront
  rw [atTypeParams, hc, List.map_append, hfront]
  exact hcont

/-! ## Type parameters that are read back -/

theorem typeParam_gives {p : TypeParam} (hp : p.Canonical m) (h : Spells c.rest (p.render m) ms)
    (hms : Stops ms) (hpipe : ms.head?.map Lexeme.token ≠ some (.punct .pipe)) :
    c.typeParam.Gives (fun q => q.unplaced = p.unplaced) ms := by
  obtain ⟨span, names, constraint⟩ := p
  obtain ⟨hnames, hconstraint, htypes⟩ := hp
  obtain ⟨ls, h₁, h₂⟩ := Spells.append_iff.1 h
  have hcomma : ls.head?.map Lexeme.token ≠ some (.punct .comma) := by
    obtain ⟨t, ts, rfl⟩ := List.exists_cons_of_ne_nil hconstraint
    obtain ⟨u, us, hu, -, hcomma, -⟩ := t.render_eq_cons m
    rw [List.map_cons, listed_cons, hu] at h₂
    rw [h₂.head?]
    exact fun h => hcomma (Option.some.inj h)
  rw [typeParam]
  refine (names_gives _ hnames h₁ hcomma).bind fun is d _ his hd => ?_
  subst hd
  have hunion := union_gives hconstraint (fun t ht => (htypes t ht).readsBack) h₂ hms hpipe
  refine hunion.map fun us e hus => ?_
  simp only [TypeParam.unplaced, his, hus]

theorem typeParamList_gives {ps : List TypeParam} (hp : ∀ p ∈ ps, p.Canonical m)
    (h : Spells c.rest (listed .comma m.closing (ps.map (·.render m)) ++ [.punct .rbrack]) rs) :
    c.typeParamList.Gives (fun qs => qs.map (·.unplaced) = ps.map (·.unplaced)) rs :=
  typeParamList_loop.gives TypeParam.unplaced (fun p hmem => (hp p hmem).render_eq_cons)
    (fun p hmem _ _ h hms => typeParam_gives (hp p hmem) h hms.stops hms.head?_ne_pipe) h

theorem typeParams_gives {ps : TypeParams} (hp : ps.Canonical m)
    (h : Spells c.rest (.punct .lbrack :: (ps.renderInner m ++ [.punct .rbrack])) rs) :
    c.typeParams.Gives (fun qs => qs.unplaced = ps.unplaced) rs := by
  obtain ⟨_, h₁, h₂⟩ := h.uncons
  rw [typeParams]
  refine (expect_gives _ h₁).bind fun _ d _ _ hd => ?_
  subst hd
  refine (typeParamList_gives hp.params h₂).map fun qs _ hqs => ?_
  simp only [TypeParams.unplaced, hqs]

/-! ## Type parameters that are taken for a length -/

/-- Type parameters in front of a type are read as the length of an array of it. -/
theorem type_of_typeParams {ps : TypeParams} {T : TypeExpr} (hp : ps.Canonical m)
    (hT : T.Canonical m) (h : Spells c.rest
      (.punct .lbrack :: (ps.renderInner m ++ .punct .rbrack :: T.render m)) rs)
    (hr : Stops rs) : c.type.Gives
      (fun t => t.unplaced = .array .zero (.expr .zero .other) T.unplaced) rs := by
  -- the length is the one expression whose tokens are those of the parameters
  let inner : Manner := ⟨fun _ => ps.renderInner m, false⟩
  have hlength : ArrayLength.Canonical inner (.expr .zero .other) := by
    obtain ⟨i, u, us, htokens, hdot, -⟩ := hp.renderInner_eq_cons
    have hs : inner.source .zero = .ident i :: u :: us := htokens
    rw [ArrayLength.Canonical, hs]
    refine ⟨htokens ▸ hp.balanced, by simp, by simp, by simp, ?_, by simp⟩
    rintro pkg name h
    cases h
    exact hdot rfl
  have h' := spells_advance h
  rw [type_of_lbrack (token?_of_spells h)]
  obtain ⟨h₁, h₂⟩ := lengthExpr_ahead hlength h'
  refine Outcome.Gives.lift ?_ _
  rw [arrayType, dif_neg h₁, dif_neg h₂]
  obtain ⟨ms, h₃, h₄⟩ := Spells.append_iff.1 h'
  refine (arrayLength_gives hlength h₃ h₄.head?).bind fun l d _ hl hd => ?_
  subst hd
  rw [← hl]
  exact arrayElem_gives hT.readsBack h₄ hr

/-! ## Declared types -/

variable (layout : Layout) (doc : Option Nat)

theorem typeSpecTail_gives {name : Ident} {params : Option TypeParams} {P : TypeExpr → Prop}
    (hassign : c.token? ≠ some (.punct .assign)) (h : c.type.Gives P rs) :
    (c.typeSpecTail layout doc name params).Gives
      (fun s => s.name = name ∧ s.typeParams = params ∧ s.assign = none ∧ P s.type) rs := by
  rw [typeSpecTail, if_neg hassign]
  exact h.map fun t _ ht => ⟨rfl, rfl, rfl, ht⟩

/-- A declared type with type parameters is read as it is taken. -/
theorem typeSpec_gives {s : TypeSpec} (hs : s.Generic m) (h : Spells c.rest (s.render m) rs)
    (hr : Stops rs) :
    (c.typeSpec layout doc).Gives (fun s' => s'.unplaced = s.taken.unplaced) rs := by
  obtain ⟨sdoc, comment, name, typeParams, assign, T⟩ := s
  obtain ⟨⟨ps, hps, hp⟩, hassign, hT⟩ := hs
  dsimp only at hps hassign hT
  subst hps hassign
  obtain ⟨_, h₁, h₂⟩ := h.uncons
  replace h₂ : Spells _ ((.punct .lbrack :: (ps.renderInner m ++ [.punct .rbrack])) ++
    T.render m) rs := h₂
  rw [typeSpec]
  refine (ident_gives _ h₁).bind fun name' d _ hname hd => ?_
  subst hd
  obtain ⟨_, h₃, h₄⟩ := Spells.append_iff.1 h₂
  rw [atTypeParams_of_spells hp h₃]
  cases hover : ps.isOverlooked with
  | false =>
    rw [if_pos (by rfl)]
    refine (typeParams_gives hp h₃).bind fun qs e _ hqs he => ?_
    subst he
    have h₅ : Spells e.rest (T.render m ++ []) rs := by rwa [List.append_nil]
    have hne : e.token? ≠ some (.punct .assign) := token?_ne_of_type h₅ rfl
    refine (typeSpecTail_gives layout doc hne (hT.readsBack h₄ hr)).imp ?_
    rintro s' ⟨hn, hparams, ha, ht⟩
    simp [TypeSpec.unplaced, TypeSpec.taken, hover, hn, hname, hparams, hqs, ha, ht]
  | true =>
    rw [if_neg (by simp)]
    have hne : d.token? ≠ some (.punct .assign) := token?_ne_of_spells h₂ (by decide)
    rw [List.cons_append, List.append_assoc] at h₂
    refine (typeSpecTail_gives layout doc hne (type_of_typeParams hp hT h₂ hr)).imp ?_
    rintro s' ⟨hn, hparams, ha, ht⟩
    simp [TypeSpec.unplaced, TypeSpec.taken, hover, hn, hname, hparams, ha, ht,
      TypeExpr.unplaced, ArrayLength.unplaced]

theorem endDecl_gives {α : Type} {P : α → Prop} {a : α} {d : Cursor} {moved : d.left < c.left}
    (h : Spells d.rest [.punct .semi] rs) (ha : P a) : (endDecl a d moved).Gives P rs := by
  have ht := token?_of_spells h
  unfold endDecl
  split <;> first | (exfalso; simp_all; done) | skip
  exact .ok ha (Spells.nil_iff.1 (spells_advance h))

/-- The tokens of a declaration of one type. -/
def renderDecl (m : Manner) (s : TypeSpec) : List Token :=
  .keyword .type :: (s.render m ++ [.punct .semi])

theorem decl_gives {s : TypeSpec} (hs : s.Generic m) (h : Spells c.rest (renderDecl m s) rs) :
    (c.decl layout).Gives
      (fun d => d.unplaced = .types ⟨none, .zero, none⟩ [s.taken.unplaced]) rs := by
  have ht := token?_of_spells h
  obtain ⟨ms, h₁, h₂⟩ := Spells.append_iff.1 (spells_advance h)
  have hparen : c.advance.token? ≠ some (.punct .lparen) := token?_ne_of_spells h₁ Token.noConfusion
  have hspec := typeSpec_gives layout none hs h₁ (.of_spells h₂ (by decide) rfl)
  unfold decl
  dsimp only
  split <;> first | (exfalso; simp_all; done) | skip
  rw [specDecl, if_neg hparen]
  refine Outcome.Gives.map (P := fun p : DeclHead × List TypeSpec =>
    p.1.parens = none ∧ p.2.map (·.unplaced) = [s.taken.unplaced]) ?_ ?_
  · refine (hspec.lift _).andThen fun s' d _ hs' hd => ?_
    subst hd
    exact endDecl_gives h₂ ⟨rfl, by rw [List.map_singleton, hs']⟩
  · rintro p _ ⟨hhead, hspecs⟩
    simp only [Decl.unplaced, DeclHead.unplaced, hspecs, hhead, Option.map_none]

theorem decls_of_generics : ∀ {specs : List TypeSpec}, (∀ s ∈ specs, s.Generic m) →
    ∀ {c : Cursor}, Spells c.rest (specs.flatMap (renderDecl m)) [] →
    (c.decls layout).2 = [] ∧ (c.decls layout).1.map (·.unplaced) =
      specs.map fun s => .types ⟨none, .zero, none⟩ [s.taken.unplaced]
  | [], _, c, h => by
    have ht : c.token? = none := by
      rw [token?, Spells.nil_iff.1 h]
      rfl
    rw [decls_of_none ht]
    exact ⟨rfl, rfl⟩
  | s :: specs, hs, c, h => by
    obtain ⟨ms, h₁, h₂⟩ := Spells.append_iff.1 h
    obtain ⟨d, next, moved, hd, hsame, hnext⟩ := decl_gives layout (hs s List.mem_cons_self) h₁
    subst hnext
    obtain ⟨hfaults, hdecls⟩ :=
      decls_of_generics (fun s' hs' => hs s' (List.mem_cons_of_mem s hs')) h₂
    rw [decls_of_decl hd]
    exact ⟨hfaults, by rw [List.map_cons, List.map_cons, hsame, hdecls]⟩

theorem packageClause_gives {pkg : String}
    (h : Spells c.rest [.keyword .package, .ident pkg, .punct .semi] rs) :
    c.packageClause.Gives (fun p => p.2.text = pkg) rs := by
  obtain ⟨_, h₁, h₂⟩ := h.uncons
  obtain ⟨_, h₃, h₄⟩ := h₂.uncons
  rw [packageClause]
  refine (expect_gives _ h₁).bind fun _ d _ _ hd => ?_
  subst hd
  refine (ident_gives (i := ⟨pkg, .zero⟩) _ h₃).andThen fun name e _ hname he => ?_
  subst he
  exact endDecl_gives h₄ (Ident.mk.inj hname).1

end Cursor

open Cursor

/-- **Type parameters are read back unless they are overlooked.**  A text of a package
    clause and declarations of types with type parameters has a tree.  Each declaration
    has its type parameters and its type, but if the first parameter has one name and a
    constraint that begins with `*`, `(` or `<-`, it is an array whose length are the
    type parameters. -/
theorem SourceFile.ofText_generics {text : List Char} {pkg : String} {specs : List TypeSpec}
    (hlexed : (Lexer.ofText text).run.2.diagnostics = []) (hspecs : ∀ s ∈ specs, s.Generic m)
    (htokens : (Lexer.ofText text).run.1.map Lexeme.token =
      [.keyword .package, .ident pkg, .punct .semi] ++ specs.flatMap (renderDecl m)) :
    ∃ file, SourceFile.ofText text = .ok file ∧ file.package = pkg ∧
      file.decls.map (·.unplaced) =
        specs.map fun s => .types ⟨none, .zero, none⟩ [s.taken.unplaced] := by
  have hspells : Spells (Lexer.ofText text).run.1 ([.keyword .package, .ident pkg, .punct .semi] ++
      specs.flatMap (renderDecl m)) [] := ⟨_, (List.append_nil _).symm, htokens⟩
  obtain ⟨ms, h₁, h₂⟩ := Spells.append_iff.1 hspells
  obtain ⟨⟨keyword, name⟩, next, moved, hclause, hname, hnext⟩ :=
    packageClause_gives (c := ⟨(Lexer.ofText text).run.1, 0, Text.byteLength text⟩) h₁
  subst hnext
  obtain ⟨hfaults, hdecls⟩ := decls_of_generics (Layout.of text (Lexer.ofText text).run.1
    (Lexer.ofText text).run.2.comments) hspecs h₂
  have hread := (SourceFile.read_of_clause hclause).trans (congrArg (Prod.mk _) hfaults)
  exact ⟨_, SourceFile.ofText_eq_ok_iff.2 ⟨hlexed, hread⟩, hname, hdecls⟩

/-- Two names before a pointer, a name before `~` and a pointer further on are read as
    type parameters; one name before a pointer is not. -/
theorem SourceFile.ofText_generics_two :
    let text := "package p\ntype G[P, Q *A, R ~B] C\ntype H[P *A, Q B] C\n".toList
    let T : String → TypeExpr := (.named .zero none ⟨·, .zero⟩ [])
    let P : List String → Option Span → TypeExpr → TypeParam := fun names tilde type =>
      ⟨.zero, names.map (⟨·, .zero⟩), [⟨tilde, type⟩]⟩
    let g : TypeSpec := ⟨none, none, ⟨"G", .zero⟩, some ⟨.zero,
      [P ["P", "Q"] none (.pointer .zero .zero (T "A")), P ["R"] (some .zero) (T "B")]⟩, none, T "C"⟩
    let h : TypeSpec := ⟨none, none, ⟨"H", .zero⟩, some ⟨.zero,
      [P ["P"] none (.pointer .zero .zero (T "A")), P ["Q"] none (T "B")]⟩, none, T "C"⟩
    ∃ file, SourceFile.ofText text = .ok file ∧ file.package = "p" ∧
      file.decls.map (·.unplaced) = [.types ⟨none, .zero, none⟩ [g.unplaced],
        .types ⟨none, .zero, none⟩ [TypeSpec.unplaced
          { h with typeParams := none, type := .array .zero (.expr .zero .other) (T "C") }]] := by
  intro text T P g h
  let m : Manner := ⟨fun _ => [], false⟩
  have hT (s : String) : (T s).Canonical m := .intro trivial (List.forall_mem_nil _)
  have hpointer (s : String) : (TypeExpr.pointer .zero .zero (T s)).Canonical m :=
    .intro trivial (List.forall_mem_singleton.2 (hT s))
  have hP (name : String) (names : List String) (tilde : Option Span) {type : TypeExpr}
      (htype : type.Canonical m) : (P (name :: names) tilde type).Canonical m :=
    ⟨List.cons_ne_nil _ _, List.cons_ne_nil _ _, List.forall_mem_singleton.2 htype⟩
  have hg : g.Generic m := ⟨⟨_, rfl, List.cons_ne_nil _ _,
    List.forall_mem_cons.2 ⟨hP _ _ none (hpointer "A"),
      List.forall_mem_singleton.2 (hP _ _ _ (hT "B"))⟩⟩, rfl, hT "C"⟩
  have hh : h.Generic m := ⟨⟨_, rfl, List.cons_ne_nil _ _,
    List.forall_mem_cons.2 ⟨hP _ _ none (hpointer "A"),
      List.forall_mem_singleton.2 (hP _ _ none (hT "B"))⟩⟩, rfl, hT "C"⟩
  have hspecs : ∀ s ∈ [g, h], s.Generic m :=
    List.forall_mem_cons.2 ⟨hg, List.forall_mem_singleton.2 hh⟩
  exact SourceFile.ofText_generics (by decide +kernel) hspecs (by decide +kernel)

/-- `type G[P *int, Q any] int` is a name, a list of type parameters and a type, and is
    read as a type without type parameters. -/
theorem SourceFile.ofText_pointer_constraint :
    let text := "package p\ntype G[P *int, Q any] int\n".toList
    let T : String → TypeExpr := (.named .zero none ⟨·, .zero⟩ [])
    let spec : TypeSpec := ⟨none, none, ⟨"G", .zero⟩, some ⟨.zero,
      [⟨.zero, [⟨"P", .zero⟩], [⟨none, .pointer .zero .zero (T "int")⟩]⟩,
        ⟨.zero, [⟨"Q", .zero⟩], [⟨none, T "any"⟩]⟩]⟩, none, T "int"⟩
    let m : Manner := ⟨fun _ => [], false⟩
    spec.Generic m ∧ (Lexer.ofText text).run.2.diagnostics = [] ∧
      (Lexer.ofText text).run.1.map Lexeme.token =
        [.keyword .package, .ident "p", .punct .semi] ++ renderDecl m spec ∧
      ∃ file, SourceFile.ofText text = .ok file ∧
        (file.decls.flatMap Decl.typeSpecs).map (·.typeParams.isSome) = [false] := by
  intro text T spec m
  have hT (s : String) : (T s).Canonical m := .intro trivial (List.forall_mem_nil _)
  have hpointer : (TypeExpr.pointer .zero .zero (T "int")).Canonical m :=
    .intro trivial (List.forall_mem_singleton.2 (hT "int"))
  have hspec : spec.Generic m := ⟨⟨_, rfl, List.cons_ne_nil _ _, List.forall_mem_cons.2
    ⟨⟨List.cons_ne_nil _ _, List.cons_ne_nil _ _, List.forall_mem_singleton.2 hpointer⟩,
      List.forall_mem_singleton.2 ⟨List.cons_ne_nil _ _, List.cons_ne_nil _ _,
        List.forall_mem_singleton.2 (hT "any")⟩⟩⟩, rfl, hT "int"⟩
  have hshape : (SourceFile.ofText text).toOption.map (fun file =>
      (file.decls.flatMap Decl.typeSpecs).map (·.typeParams.isSome)) = some [false] := by
    decide +kernel
  refine ⟨hspec, by decide +kernel, by decide +kernel, ?_⟩
  cases hfile : SourceFile.ofText text with
  | error e =>
    rw [hfile] at hshape
    cases hshape
  | ok file =>
    rw [hfile] at hshape
    exact ⟨file, rfl, Option.some.inj hshape⟩

end GoDecls.Tree
