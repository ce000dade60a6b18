/-
  The references of a declaration are the names of types in what is kept of it, in the
  order of the text.

  * `QualifiedName.refers`: a name of a type gives a reference, unless it is that of a native
    type;
  * `follows`: the references in a shape that mirrors a type are the names that are kept of
    the type (`TypeExpr.keptNames`), in order.  The induction is over the parts that are
    kept, whatever the order in which they were converted;
  * `SpecMirrors.names_references`: so it is for declared types;
  * `SourceUnit.references_of_ofText`: and in the declarations of a source text the names
    stand in the text in this order, each once.
-/
import GoDecls.Model.References
import GoDecls.Proofs.Model.Declared
import GoDecls.Proofs.Tree.CitesFile

namespace GoDecls.Tree

open scoped List

/-- The name stands for a declaration: it has a package, or it is not that of a native
    type. -/
def QualifiedName.refers (n : QualifiedName) : Bool := n.pkg.isSome || !Model.isNativeType n.name.text

/-- The texts of the names that are kept of the type and stand for declarations. -/
def TypeExpr.referenceTexts (T : TypeExpr) : List String :=
  (T.keptNames.filter (·.refers)).map (·.text)

theorem TypeExpr.referenceTexts_eq (T : TypeExpr) : T.referenceTexts =
    (T.qualifiedName?.toList.filter (·.refers)).map (·.text) ++
      T.keptParts.flatMap (·.referenceTexts) := by
  simp only [referenceTexts, keptNames_eq T, List.filter_append, List.map_append,
    List.filter_flatMap, List.map_flatMap]

/-- What is no name has the references of its parts. -/
theorem TypeExpr.referenceTexts_of_parts {T : TypeExpr} {Ts : List TypeExpr}
    (hname : T.qualifiedName? = none) (hparts : T.keptParts = Ts) :
    T.referenceTexts = Ts.flatMap (·.referenceTexts) := by
  rw [referenceTexts_eq, hname, hparts]
  rfl

theorem TypeExpr.referenceTexts_of_elem {T elem : TypeExpr} (hname : T.qualifiedName? = none)
    (hparts : T.keptParts = [elem]) : T.referenceTexts = elem.referenceTexts := by
  rw [referenceTexts_of_parts hname hparts, List.flatMap_singleton]

/-- The names that are kept of the declared type and stand for declarations. -/
def TypeSpec.references (s : TypeSpec) : List QualifiedName := s.keptNames.filter (·.refers)

theorem TypeSpec.references_sublist (s : TypeSpec) :
    s.references.flatMap (·.idents) <+ s.idents :=
  (List.filter_sublist.flatMap _).trans s.keptNames_sublist

/-- Terms that are one type without a mark have that type. -/
theorem types_of_soleType? {terms : List Term} {T : TypeExpr} (h : soleType? terms = some T) :
    terms.map (·.type) = [T] := by
  unfold soleType? at h
  split at h <;> cases h
  rfl

end GoDecls.Tree

namespace GoDecls.Model

open Tree (TypeExpr QualifiedName)
open scoped List

variable {text : List Char} {T : TypeExpr}

/-- The names of references. -/
def names (rs : List Reference) : List String := rs.map (·.name)

theorem names_append (rs ss : List Reference) : names (rs ++ ss) = names rs ++ names ss :=
  List.map_append

/-- The references in every shape that mirrors the type are the names that are kept of
    it. -/
def Follows (text : List Char) (T : TypeExpr) : Prop :=
  ∀ s, Mirrors text T s → names s.references = T.referenceTexts

/-! ## Fields and members -/

theorem names_ofName {pkg : Option Tree.Ident} {name : Tree.Ident} {s : Shape}
    (h : Shape.ofName pkg name = .ok s) :
    names s.references = ([QualifiedName.mk pkg name].filter (·.refers)).map (·.text) := by
  cases pkg with
  | none =>
    cases h
    cases hnative : isNativeType name.text <;>
      simp [QualifiedName.refers, QualifiedName.text, hnative, names, Shape.references, Reference.unbound]
  | some pkg =>
    rw [Shape.ofName] at h
    split at h
    · cases h
      simp [QualifiedName.refers, QualifiedName.text, names, Shape.references, Reference.unbound]
    · cases h

/-- The references of a field are those in its type. -/
theorem Field.references_eq (f : Field) : f.references = f.type.references := by
  cases f
  rfl

/-- The references of fields are those of the types they stand for. -/
theorem names_of_row {α : Type} {r : α → Field → Prop} (types : α → List TypeExpr) :
    ∀ {xs : List α} {gs : List Field},
    (∀ x ∈ xs, ∀ g, r x g → names g.references = (types x).flatMap (·.referenceTexts)) →
    List.Forall₂ r xs gs →
      names (Field.referencesOf gs) = (xs.flatMap types).flatMap (·.referenceTexts)
  | _, _, _, .nil => rfl
  | x :: xs, g :: gs, h, .cons hxg hrow => by
    obtain ⟨hx, hxs⟩ := List.forall_mem_cons.1 h
    rw [Field.referencesOf, names_append, hx g hxg, names_of_row types hxs hrow, List.flatMap_cons,
      List.flatMap_append]

theorem names_of_fields {fs : List Tree.Field} {gs : List Field}
    (ih : ∀ S ∈ Tree.keptTypes fs, Follows text S)
    (h : List.Forall₂ (FieldMirrors text) (fs.filter (·.isKept)) gs) :
    names (Field.referencesOf gs) = (Tree.keptTypes fs).flatMap (·.referenceTexts) := by
  rw [Tree.keptTypes, List.map_eq_flatMap]
  refine names_of_row (fun f : Tree.Field => [f.type]) (fun f hf g hfg => ?_) h
  cases hfg with
  | intro _ _ _ htype =>
    rw [Field.references_eq, List.flatMap_singleton]
    exact ih f.type (List.mem_map_of_mem hf) _ htype

theorem names_of_signature {ts : List Field} {sig : Tree.Signature} {s : Shape}
    (ih : ∀ S ∈ sig.keptTypes, Follows text S) (h : SignatureMirrors text ts sig s) :
    names s.references =
      names (Field.referencesOf ts) ++ sig.keptTypes.flatMap (·.referenceTexts) := by
  obtain ⟨hparams, hresults⟩ := List.forall_mem_append.1 ih
  cases h with
  | intro hps hrs =>
    rw [Shape.references, names_append, names_append, names_of_fields hparams hps,
      names_of_fields hresults hrs, Tree.Signature.keptTypes, List.flatMap_append,
      List.append_assoc]

theorem names_of_elem {e : Tree.InterfaceElem} {g : Field}
    (ih : ∀ S ∈ e.keptTypes, Follows text S) (h : ElemMirrors text e g) :
    names g.references = e.keptTypes.flatMap (·.referenceTexts) := by
  cases h with
  | method hsig => exact names_of_signature ih hsig
  | embed hT htype =>
    have htypes := Tree.types_of_soleType? hT
    rw [Tree.InterfaceElem.keptTypes, htypes] at ih ⊢
    rw [List.flatMap_singleton]
    exact ih _ (List.mem_singleton_self _) _ htype

/-! ## Types -/

/-- **The references in a shape are the names that are kept of the type, in order.** -/
theorem follows (T : TypeExpr) : Follows text T := by
  have ih : ∀ S ∈ T.keptParts, Follows text S := fun S hS => follows S
  intro s h
  cases h with
  | named h =>
    rw [names_ofName h, TypeExpr.referenceTexts_eq]
    exact (List.append_nil _).symm
  | paren h =>
    rw [TypeExpr.referenceTexts_of_elem rfl rfl]
    exact ih _ (List.mem_singleton_self _) _ h
  | pointer h =>
    rw [TypeExpr.referenceTexts_of_elem rfl rfl, Shape.references]
    exact ih _ (List.mem_singleton_self _) _ h
  | slice h =>
    rw [TypeExpr.referenceTexts_of_elem rfl rfl, Shape.references]
    exact ih _ (List.mem_singleton_self _) _ h
  | array _ h =>
    rw [TypeExpr.referenceTexts_of_elem rfl rfl, Shape.references]
    exact ih _ (List.mem_singleton_self _) _ h
  | chan h =>
    rw [TypeExpr.referenceTexts_of_elem rfl rfl, Shape.references]
    exact ih _ (List.mem_singleton_self _) _ h
  | map hk hv =>
    obtain ⟨hkey, hvalue⟩ := List.forall_mem_cons.1 ih
    rw [TypeExpr.referenceTexts_of_parts rfl rfl, Shape.references, names_append, hkey _ hk,
      hvalue _ (List.mem_singleton_self _) _ hv, TypeExpr.keptParts, List.flatMap_cons,
      List.flatMap_singleton]
  | struct h =>
    rw [TypeExpr.referenceTexts_of_parts rfl rfl, Shape.references]
    exact names_of_fields ih h
  | interface h =>
    rw [TypeExpr.referenceTexts_of_parts rfl rfl, Shape.references]
    refine names_of_row _ (fun e he g => names_of_elem fun S hS => ih S ?_) h
    exact List.mem_flatMap.2 ⟨e, he, hS⟩
  | func h =>
    rw [TypeExpr.referenceTexts_of_parts rfl rfl]
    exact names_of_signature ih h
termination_by sizeOf T
decreasing_by exact Tree.TypeExpr.sizeOf_lt_of_mem_keptParts hS

/-! ## Declared types -/

theorem names_of_typeParam {p : Tree.TypeParam} {g : Field} (h : TypeParamMirrors text p g) :
    names g.references = p.types.flatMap (·.referenceTexts) := by
  obtain ⟨T, hT, htype⟩ := h.type
  rw [Field.references_eq, Tree.TypeParam.types, Tree.types_of_soleType? hT,
    List.flatMap_singleton]
  exact follows T _ htype

/-- The references in the shape of a declared type are the names that are kept of it. -/
theorem SpecMirrors.names_references {spec : Tree.TypeSpec} {s : Shape}
    (h : SpecMirrors text spec s) : names s.references = spec.references.map (·.text) := by
  have htexts : spec.references.map (·.text) = spec.keptTypes.flatMap (·.referenceTexts) := by
    rw [Tree.TypeSpec.references, Tree.TypeSpec.keptNames, List.filter_flatMap, List.map_flatMap]
    rfl
  rw [htexts]
  cases h with
  | @func span sig ts _ htype hparams hsig =>
    have hts : names (Field.referencesOf ts) = _ :=
      names_of_row Tree.TypeParam.types (fun p _ g => names_of_typeParam) hparams
    have hkept : spec.keptTypes =
        (spec.params.filter (·.isKept)).flatMap (·.types) ++ [spec.type] := by
      rw [Tree.TypeSpec.keptTypes, htype]
    rw [names_of_signature (fun S _ => follows S) hsig, hts, hkept, htype, List.flatMap_append,
      List.flatMap_singleton, TypeExpr.referenceTexts_of_parts rfl rfl]
    rfl
  | other htype hs =>
    have hkept : spec.keptTypes = [spec.type] := by
      unfold Tree.TypeSpec.keptTypes
      split
      · next span sig heq => exact absurd heq (htype span sig)
      · rfl
    rw [hkept, List.flatMap_singleton]
    exact follows _ _ hs

/-! ## Units -/

/-- The single names in the names that stand for declarations, of the declared types that
    are kept, in the order of the file. -/
def referenceIdents (file : Tree.SourceFile) : List Tree.Ident :=
  ((typeSpecs file).filter (·.2.isKept)).flatMap fun p => p.2.references.flatMap (·.idents)

theorem typeSpecs_idents (file : Tree.SourceFile) :
    (typeSpecs file).flatMap (·.2.idents) = file.decls.flatMap (·.idents) := by
  rw [typeSpecs, List.flatMap_assoc]
  refine List.flatMap_congr fun d _ => ?_
  cases d with
  | types head specs => exact List.flatMap_map _ _ specs
  | _ => rfl

/-- They are names of the text, in the same order. -/
theorem referenceIdents_sublist {text : List Char} {file : Tree.SourceFile}
    (h : Tree.SourceFile.ofText text = .ok file) :
    referenceIdents file <+ Tree.identsOf (Lexer.ofText text).run.1 := by
  have hspecs : referenceIdents file <+ (typeSpecs file).flatMap (·.2.idents) :=
    (List.filter_sublist.flatMap _).trans
      (List.Sublist.flatMap_right _ fun p _ => p.2.references_sublist)
  rw [typeSpecs_idents] at hspecs
  exact hspecs.trans (Tree.SourceFile.idents_ofText h)

/-- **The references follow the source.**  The declarations of a source text are its type
    specs that are kept.  The references of each are, each once and in this order, the names
    of types that are kept of the spec, other than those of native types: of the constraints
    if it declares a function, and of the declared type.  Throughout the file the names stand
    among the tokens in this order; and if the text is not too long for its spans, they stand
    one behind the other where their spans say. -/
theorem SourceUnit.references_of_ofText {text filename : String} {module : Module}
    {u : SourceUnit} (h : ofText text filename module = .ok u) :
    ∃ file, Tree.SourceFile.ofText text.toList = .ok file ∧
      List.Forall₂ (fun p d => d.name = p.2.name.text ∧
          d.references.map (·.name) = p.2.references.map (·.text))
        ((typeSpecs file).filter (·.2.isKept)) u.declarations ∧
      referenceIdents file <+ Tree.identsOf (Lexer.ofText text.toList).run.1 ∧
      (Text.byteLength text.toList ≤ Span.limit →
        (referenceIdents file).Pairwise (·.span.stop ≤ ·.span.start) ∧
        ∀ i ∈ referenceIdents file, i.span.text? text.toList = some i.text.toList) := by
  obtain ⟨file, hfile, -, hspecs⟩ := file_of_ofText h
  have hsublist := referenceIdents_sublist hfile
  refine ⟨file, hfile, (row_of_ofText hfile hspecs).imp fun p d hd => ?_, hsublist,
    fun hlimit => ?_⟩
  · exact ⟨hd.name, hd.type.names_references⟩
  · obtain ⟨hordered, htexts⟩ := Tree.identsOf_run hlimit
    exact ⟨hordered.sublist hsublist, fun i hi => htexts i (hsublist.subset hi)⟩

/-- A generic function, whose parameters are converted behind its results, and a struct
    with fields that are dropped. -/
theorem SourceUnit.references_of_ofText_generic :
    let text := "package p\n\ntype F[K q.C, V ~int | E] func(map[K]V, ...A, G[B]) (x, y *D, err error)\n" ++
      "\ntype S struct \x7b\n\ta interface \x7b M(int) H; I \x7d\n\tG[L]\n\tF\n\x7d\n"
    ∃ file u, Tree.SourceFile.ofText text.toList = .ok file ∧ ofText text "p.go" .none = .ok u ∧
      u.declarations.map (fun d => d.references.map (·.name)) =
        [["q.C", "K", "V", "D", "error"], ["H", "I", "F"]] ∧
      List.Forall₂ (fun p d => d.references.map (·.name) = p.2.references.map (·.text))
        ((typeSpecs file).filter (·.2.isKept)) u.declarations ∧
      referenceIdents file <+ Tree.identsOf (Lexer.ofText text.toList).run.1 := by
  intro text
  have hnames : ((ofText text "p.go" .none).toOption.map fun u =>
      u.declarations.map fun d => d.references.map (·.name)) =
        some [["q.C", "K", "V", "D", "error"], ["H", "I", "F"]] := by
    decide +kernel
  cases hu : ofText text "p.go" .none with
  | error e =>
    rw [hu] at hnames
    cases hnames
  | ok u =>
    rw [hu] at hnames
    obtain ⟨file, hfile, hrow, hsublist, -⟩ := references_of_ofText hu
    exact ⟨file, u, hfile, rfl, Option.some.inj hnames, hrow.imp fun _ _ h => h.2, hsublist⟩

end GoDecls.Model
