/-
  The names of types in a file are names of its text, in the same order
  (`SourceFile.idents_ofText`): those of the declarations one after the other, and of each
  declared type first those in the constraints of its type parameters.  Names of a text
  stand in it one behind the other (`identsOf_run`).
-/
import GoDecls.Proofs.Tree.CitesTypes
import GoDecls.Proofs.Tree.EchoFile

namespace GoDecls.Tree

open scoped List

/-! ## Names in declarations -/

/-- The single names in the constraint. -/
def TypeParam.idents (p : TypeParam) : List Ident := p.types.flatMap (·.idents)

theorem TypeSpec.idents_eq (s : TypeSpec) :
    s.idents = s.params.flatMap (·.idents) ++ s.type.idents := by
  rw [idents, List.flatMap_append, List.flatMap_assoc, List.flatMap_singleton]
  rfl

/-- The single names in the names of types in the declaration. -/
def Decl.idents (d : Decl) : List Ident := d.typeSpecs.flatMap (·.idents)

namespace Cursor

open Outcome

variable {c : Cursor}

/-! ## Specs -/

theorem typeParam_cites (c : Cursor) : c.typeParam.Cites [] TypeParam.idents := by
  unfold typeParam
  refine (names_pass c [] _).bind fun _ d _ => (union_cites d).map fun terms _ => ?_
  rw [TypeParam.idents, TypeParam.types, List.flatMap_map]

theorem typeParamList_cites (c : Cursor) :
    c.typeParamList.Cites [] (·.flatMap TypeParam.idents) :=
  typeParamList_loop.cites c fun d _ => typeParam_cites d

theorem typeParams_cites (c : Cursor) :
    c.typeParams.Cites [] (·.params.flatMap TypeParam.idents) := by
  unfold typeParams
  exact (expect_cites [] _ _).bind fun _ d _ => (typeParamList_cites d).map fun _ _ => .refl _

theorem typeSpecTail_cites (layout : Layout) (doc : Option Nat) (name : Ident)
    (params : Option TypeParams) (c : Cursor) : (c.typeSpecTail layout doc name params).Cites
      (((params.map (·.params)).getD []).flatMap (·.idents)) TypeSpec.idents := by
  unfold typeSpecTail
  split
  · refine (((type_cites c.advance).behind _).lift c.advance_suffix).map fun type _ => ?_
    rw [TypeSpec.idents_eq]
    exact .refl _
  · refine ((type_cites c).behind _).map fun type _ => ?_
    rw [TypeSpec.idents_eq]
    exact .refl _

theorem typeSpec_cites (layout : Layout) (doc : Option Nat) (c : Cursor) :
    (c.typeSpec layout doc).Cites [] TypeSpec.idents := by
  unfold typeSpec
  refine (ident_passes [] _).bind fun name d _ => ?_
  split
  · exact (typeParams_cites d).bind fun ps e _ => typeSpecTail_cites layout doc name (some ps) e
  · exact typeSpecTail_cites layout doc name none d

theorem importName?_suffix (c : Cursor) : c.importName?.2.rest <:+ c.rest := by
  unfold importName?
  split
  · exact c.advance_suffix
  · exact c.advance_suffix
  · exact List.suffix_refl _

theorem stringLiteral_passes (what : String) : (c.stringLiteral what).Cites [] fun _ => [] := by
  unfold stringLiteral
  split
  · exact pass_cites c.advance_suffix (.refl _)
  · exact pass_cites c.advance_suffix (.refl _)
  · exact fails_cites what

theorem importSpec_passes (doc : Option Nat) (c : Cursor) :
    (c.importSpec doc).Cites [] fun _ => [] :=
  ((stringLiteral_passes _).lift c.importName?_suffix).map fun _ _ => .refl _

/-! ## Declarations -/

section

variable {α : Type} {f : α → List Ident} {pre : List Ident}

theorem specs_cites {spec : (c : Cursor) → Outcome α c} (hspec : ∀ c, (spec c).Cites [] f)
    (c : Cursor) : (specs spec c).Cites [] (·.1.flatMap f) :=
  (specs_loop spec).cites c fun d _ => hspec d

theorem endDecl_cites {a : α} {d : Cursor} {m : d.left < c.left}
    (h : f a ++ identsOf d.rest <+ pre ++ identsOf c.rest) : (endDecl a d m).Cites pre f := by
  unfold endDecl
  split
  · exact .ok h
  · exact .ok (((List.Sublist.refl _).append (identsOf_sublist d.advance_suffix)).trans h)
  · exact (fails_cites _).liftFrom h

theorem specDecl_cites (layout : Layout) {spec : Option Nat → (c : Cursor) → Outcome α c}
    (hspec : ∀ doc c, (spec doc c).Cites [] f) (c : Cursor) :
    (c.specDecl layout spec).Cites [] (·.2.flatMap f) := by
  unfold specDecl
  dsimp only
  split
  · have hmore := specs_cites (fun e => hspec (layout.docFor? e.start) e) c.advance.advance
    exact ((hmore.lift c.advance.advance_suffix).lift c.advance_suffix).andThen
      fun _ _ _ hd => endDecl_cites hd
  · refine ((hspec none c.advance).lift c.advance_suffix).andThen fun s _ _ hd =>
      endDecl_cites ?_
    rw [List.flatMap_singleton]
    exact hd

end

theorem decl_cites (layout : Layout) (c : Cursor) : (c.decl layout).Cites [] Decl.idents := by
  have hskip : c.skipDecl.rest <:+ c.rest := suffix_skip (List.suffix_refl _) _
  unfold decl
  dsimp only
  split
  · exact (specDecl_cites layout importSpec_passes c).map fun _ _ => List.nil_sublist _
  · exact (specDecl_cites layout (typeSpec_cites layout) c).map fun _ _ => .refl _
  · exact pass_cites hskip (.refl _)
  · exact pass_cites hskip (.refl _)
  · exact pass_cites hskip (.refl _)
  · exact fails_cites _

/-! ## Files -/

theorem decls_idents (layout : Layout) (c : Cursor) (hfaults : (c.decls layout).2 = []) :
    (c.decls layout).1.flatMap (·.idents) <+ identsOf c.rest := by
  obtain ⟨_, hdecls⟩ | ⟨ht, hdecls⟩ | ⟨d, next, m, hd⟩ := decls_cases hfaults
  · rw [hdecls]
    exact List.nil_sublist _
  · have hlt := advance_lt ht
    rw [hdecls] at hfaults ⊢
    exact (decls_idents layout c.advance hfaults).trans (identsOf_sublist c.advance_suffix)
  · rw [decls_of_decl hd] at hfaults ⊢
    have hmore := decls_idents layout next hfaults
    exact ((List.Sublist.refl _).append hmore).trans (decl_cites layout c d next m hd)
termination_by c.left

theorem packageClause_passes (c : Cursor) : c.packageClause.Cites [] fun _ => [] := by
  unfold packageClause
  refine (expect_cites [] _ _).bind fun _ d _ => ?_
  exact (ident_passes [] _).andThen fun _ _ _ he => endDecl_cites he

end Cursor

open Cursor

/-- **The names of types in a file are names of its text, in the same order.** -/
theorem SourceFile.idents_ofText {text : List Char} {file : SourceFile}
    (h : SourceFile.ofText text = .ok file) :
    file.decls.flatMap (·.idents) <+ identsOf (Lexer.ofText text).run.1 := by
  obtain ⟨-, hread⟩ := SourceFile.ofText_eq_ok_iff.1 h
  obtain ⟨keyword, name, next, m, hclause⟩ :=
    SourceFile.clause_of_read (congrArg Prod.snd hread)
  rw [SourceFile.read_of_clause hclause] at hread
  obtain ⟨rfl, hfaults⟩ := Prod.mk.inj hread
  exact (decls_idents _ next hfaults).trans (packageClause_passes _ _ next m hclause)

/-! ## Where names stand -/

theorem ident_of_ident? {l : Lexeme} {i : Ident} (h : l.ident? = some i) :
    l.token = .ident i.text ∧ i.span = l.span := by
  unfold Lexeme.ident? at h
  split at h <;> cases h
  exact ⟨‹_›, rfl⟩

/-- The names of a text that is not too long for its spans stand in it one behind the other,
    each where its span says. -/
theorem identsOf_run {text : List Char} (hlimit : Text.byteLength text ≤ Span.limit) :
    (identsOf (Lexer.ofText text).run.1).Pairwise (·.span.stop ≤ ·.span.start) ∧
      ∀ i ∈ identsOf (Lexer.ofText text).run.1, i.span.text? text = some i.text.toList := by
  have hspan : ∀ l ∈ (Lexer.ofText text).run.1, l.span = ⟨l.start, l.stop⟩ := by
    intro l hl
    obtain ⟨hstart, hstop⟩ := boundary_of_mem_run hl
    exact Span.ofOffsets_of_le (Nat.le_trans hstart.le hlimit) (Nat.le_trans hstop.le hlimit)
  constructor
  · refine List.pairwise_filterMap.2 ((Lexer.ofText text).run_ordered.1.imp_of_mem ?_)
    intro l m hl hm hle i hi j hj
    rw [(ident_of_ident? hi).2, (ident_of_ident? hj).2, hspan l hl, hspan m hm]
    exact hle
  · intro i hi
    obtain ⟨l, hl, hident⟩ := List.mem_filterMap.1 hi
    obtain ⟨htoken, hi⟩ := ident_of_ident? hident
    have htext : l.token.text? = some i.text := by
      rw [htoken]
      rfl
    rw [hi, hspan l hl]
    exact text_of_mem_run hl htext

end GoDecls.Tree
