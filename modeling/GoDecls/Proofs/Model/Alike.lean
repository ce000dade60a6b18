/-
  Trees that are alike have the same model.

  * `Keeps x y`: if `x` is a value, `y` is the same one; there is one rule for each way of
    putting conversions together;
  * `Shape.ofType_alike`: a type is converted like one that is alike, if the same stands at
    the places of both; also if the second one has parentheses around types;
  * `Declaration.ofSpecs_alike`, `importSpecs_alike`: so are the declarations and imports of
    a file.
-/
import GoDecls.Proofs.Comment.Parenthesis
import GoDecls.Proofs.Model.Conversion
import GoDecls.Proofs.Tree.AlikeFile

namespace GoDecls.Model

/-! ## Values that are kept -/

/-- A value of the first is the value of the second. -/
def Keeps {ε α : Type} (x y : Except ε α) : Prop := ∀ a, x = .ok a → y = .ok a

namespace Keeps

variable {ε α β : Type} {x y : Except ε α}

theorem refl (x : Except ε α) : Keeps x x := fun _ h => h

theorem error {e : ε} : Keeps (.error e) y := fun _ h => by cases h

theorem map (h : Keeps x y) (f : α → β) : Keeps (x.map f) (y.map f) := by
  intro b hb
  cases x with
  | error e => cases hb
  | ok a => rw [h a rfl]; exact hb

theorem bind (h : Keeps x y) {f g : α → Except ε β} (hfg : ∀ a, Keeps (f a) (g a)) :
    Keeps (x.bind f) (y.bind g) := by
  intro b hb
  cases x with
  | error e => cases hb
  | ok a => rw [h a rfl]; exact hfg a b hb

end Keeps

open Tree (TypeExpr SameNames)

variable {σ : Span → Span → Prop} {text text' : List Char}

/-- The same stands at the places of both texts. -/
def SameText (σ : Span → Span → Prop) (text text' : List Char) : Prop :=
  ∀ s s', σ s s' → s'.text? text' = s.text? text

/-! ## Parts of types -/

theorem SameText.sourceText? (hσ : SameText σ text text') {s s' : Span} (h : σ s s') :
    sourceText? text' s' = sourceText? text s := by
  rw [Model.sourceText?, Model.sourceText?, hσ s s' h]

theorem Shape.ofName_congr {pkg pkg' : Option Tree.Ident} {name name' : Tree.Ident}
    (hpkg : pkg'.map (·.text) = pkg.map (·.text)) (hname : name'.text = name.text) :
    Shape.ofName pkg' name' = Shape.ofName pkg name := by
  cases pkg with
  | none =>
    obtain rfl := Option.map_eq_none_iff.1 hpkg
    simp only [Shape.ofName, hname]
  | some p =>
    obtain ⟨p', rfl, hp⟩ := Option.map_eq_some_iff.1 hpkg
    simp only [Shape.ofName, hname, hp]

theorem ArraySize.ofLength_alike (hσ : SameText σ text text') {l l' : Tree.ArrayLength}
    (h : l.Alike σ l') : Keeps (ArraySize.ofLength text l) (ArraySize.ofLength text' l') := by
  cases h with
  | ellipsis => exact .refl _
  | @expr s s' e h =>
    cases e with
    | ident _ => exact .refl _
    | selector _ _ => exact .refl _
    | literal _ | other =>
      rw [ArraySize.ofLength, ArraySize.ofLength, hσ.sourceText? h]
      cases sourceText? text s with
      | none => exact .error
      | some _ => exact .refl _

theorem fieldTags_alike (hσ : SameText σ text text') {tag tag' : Option Span}
    (h : Option.Rel σ tag tag') : fieldTags text' tag' = fieldTags text tag := by
  cases h with
  | none => rfl
  | some h => rw [fieldTags, fieldTags, hσ.sourceText? h]

theorem Field.declare_alike (hσ : SameText σ text text') {names names' : List Tree.Ident}
    (hnames : SameNames names names') {tag tag' : Option Span} (htag : Option.Rel σ tag tag')
    (s : Shape) : Field.declare text' names' tag' s = Field.declare text names tag s := by
  have hempty : names'.isEmpty = names.isEmpty := by
    have := congrArg List.isEmpty hnames
    rwa [List.isEmpty_map, List.isEmpty_map] at this
  rw [Field.declare, Field.declare, identNames, identNames, hnames, hempty,
    fieldTags_alike hσ htag]

/-! ## Types -/

/-- Types that this one is alike to are converted like it. -/
def ConvertsLike (σ : Span → Span → Prop) (text text' : List Char) (T' : TypeExpr) : Prop :=
  ∀ T, T.Alike σ True T' → Keeps (Shape.ofType text T) (Shape.ofType text' T')

/-- A single result in parentheses has the fields that it has without them. -/
theorem Field.ofResults_listed (text : List Char) (o s e : Span) (T : TypeExpr) :
    Field.ofResults text (.list ⟨o, [Tree.Param.anonymous s none T], e⟩) =
      Field.ofResults text (.single T) := by
  have hdeclare : Field.declare text [] none = Field.embed := rfl
  rw [Field.ofResults, Field.ofResults, Field.ofFieldList, Field.ofFields, Field.ofFields,
    Tree.Param.anonymous, Field.ofField, hdeclare]
  cases Shape.ofType text T with
  | error _ => rfl
  | ok shape => cases shape <;> rfl

section

variable (hσ : SameText σ text text')

include hσ

theorem Field.ofField_alike {f f' : Tree.Field} (h : f.Alike σ True f')
    (ih : ConvertsLike σ text text' f'.type) :
    Keeps (Field.ofField text f) (Field.ofField text' f') := by
  obtain ⟨hnames, hellipsis, htype, htag, -⟩ := h
  obtain ⟨_, names, ellipsis, type, tag, _⟩ := f
  obtain ⟨_, names', ellipsis', type', tag', _⟩ := f'
  have hdeclare : Field.declare text' names' tag' = Field.declare text names tag :=
    funext (Field.declare_alike hσ hnames htag)
  dsimp only at hellipsis
  rw [Field.ofField, Field.ofField, hellipsis, hdeclare]
  split
  · exact .refl _
  · exact (ih type htype).map _

theorem Field.ofFields_alike {fs fs' : List Tree.Field}
    (h : List.Forall₂ (Tree.Field.Alike σ True) fs fs')
    (ih : ∀ T ∈ fs'.map (·.type), ConvertsLike σ text text' T) :
    Keeps (Field.ofFields text fs) (Field.ofFields text' fs') := by
  induction h with
  | nil => exact .refl _
  | cons h _ ih_more =>
    obtain ⟨hfirst, hrest⟩ := List.forall_mem_cons.1 ih
    rw [Field.ofFields, Field.ofFields]
    exact (Field.ofField_alike hσ h hfirst).bind fun _ => (ih_more hrest).map _

theorem Field.ofFieldList_alike {l l' : Tree.FieldList} (h : l.Alike σ True l')
    (ih : ∀ T ∈ l'.types, ConvertsLike σ text text' T) :
    Keeps (Field.ofFieldList text l) (Field.ofFieldList text' l') := by
  obtain ⟨h⟩ := h
  obtain ⟨_, fields, _⟩ := l
  obtain ⟨_, fields', _⟩ := l'
  exact Field.ofFields_alike hσ h ih

theorem Field.ofResults_alike {r r' : Tree.Results} (h : r.Alike σ True r')
    (ih : ∀ T ∈ r'.types, ConvertsLike σ text text' T) :
    Keeps (Field.ofResults text r) (Field.ofResults text' r') := by
  cases h with
  | none => exact .refl _
  | single h =>
    rw [Field.ofResults, Field.ofResults]
    exact (ih _ List.mem_cons_self _ h).map _
  | list h => exact Field.ofFieldList_alike hσ h ih
  | listed _ h =>
    rw [Field.ofResults_listed]
    exact (ih _ List.mem_cons_self _ h).map _

theorem Shape.ofSignature_alike {typeParams typeParams' : Except ConvertError (List Field)}
    (ht : Keeps typeParams typeParams') {s s' : Tree.Signature} (h : s.Alike σ True s')
    (ih : ∀ T ∈ s'.types, ConvertsLike σ text text' T) :
    Keeps (Shape.ofSignature text typeParams s) (Shape.ofSignature text' typeParams' s') := by
  obtain ⟨hparams, hresults⟩ := h
  obtain ⟨_, params, results⟩ := s
  obtain ⟨_, params', results'⟩ := s'
  obtain ⟨ih_params, ih_results⟩ := List.forall_mem_append.1 ih
  rw [Shape.ofSignature, Shape.ofSignature]
  exact (Field.ofResults_alike hσ hresults ih_results).bind fun _ => ht.bind fun _ =>
    (Field.ofFieldList_alike hσ hparams ih_params).map _

omit hσ in
theorem soleType?_of_two (t u : Tree.Term) (ts : List Tree.Term) :
    Tree.soleType? (t :: u :: ts) = none := by
  obtain ⟨_ | _, _⟩ := t <;> rfl

omit hσ in
/-- A union of one type without `~` is that of one that is alike. -/
theorem Shape.ofSoleTerm_alike {ts ts' : List Tree.Term}
    (h : List.Forall₂ (Tree.Term.Alike σ True) ts ts')
    (ih : ∀ T ∈ ts'.map (·.type), ConvertsLike σ text text' T) :
    Option.Rel Keeps (Shape.ofSoleTerm text ts) (Shape.ofSoleTerm text' ts') := by
  rw [Shape.ofSoleTerm_eq, Shape.ofSoleTerm_eq]
  cases h with
  | nil => exact .none
  | @cons t t' _ _ h hmore =>
    cases hmore with
    | cons _ _ =>
      rw [soleType?_of_two, soleType?_of_two]
      exact .none
    | nil =>
      obtain ⟨htilde, htype⟩ := h
      obtain ⟨tilde, type⟩ := t
      obtain ⟨tilde', type'⟩ := t'
      cases tilde <;> cases tilde' <;> cases htilde
      · exact .some (ih _ List.mem_cons_self _ htype)
      · exact .none

theorem Field.ofElem_alike {e e' : Tree.InterfaceElem} (h : e.Alike σ True e')
    (ih : ∀ T ∈ e'.types, ConvertsLike σ text text' T) :
    Keeps (Field.ofElem text e) (Field.ofElem text' e') := by
  cases h with
  | @method name name' _ _ hname h =>
    have hmethod : Field.method name' = Field.method name := by
      funext s
      rw [Field.method, Field.method, hname]
    rw [Field.ofElem, Field.ofElem, hmethod]
    exact (Shape.ofSignature_alike hσ (.refl _) h ih).map _
  | union h =>
    have hterms := Shape.ofSoleTerm_alike h ih
    rw [Field.ofElem, Field.ofElem]
    generalize Shape.ofSoleTerm text _ = x, Shape.ofSoleTerm text' _ = x' at hterms
    cases hterms with
    | none => exact .refl _
    | some hkeeps => exact hkeeps.map _

theorem Field.ofElems_alike {es es' : List Tree.InterfaceElem}
    (h : List.Forall₂ (Tree.InterfaceElem.Alike σ True) es es')
    (ih : ∀ e ∈ es', ∀ T ∈ e.types, ConvertsLike σ text text' T) :
    Keeps (Field.ofElems text es) (Field.ofElems text' es') := by
  induction h with
  | nil => exact .refl _
  | cons h _ ih_more =>
    obtain ⟨hfirst, hrest⟩ := List.forall_mem_cons.1 ih
    rw [Field.ofElems, Field.ofElems]
    exact (Field.ofElem_alike hσ h hfirst).bind fun _ => (ih_more hrest).map _

/-- **Types that are alike have the same shape.** -/
theorem Shape.ofType_alike (T' : TypeExpr) : ConvertsLike σ text text' T' := by
  induction TypeExpr.everywhere_of_forall (P := fun _ => True) (fun _ => trivial) T' with
  | @intro T' _ _ ih =>
    intro T h
    cases h with
    | named hpkg hname hargs =>
      have hempty : ∀ {xs ys : List TypeExpr}, List.Forall₂ (TypeExpr.Alike σ True) xs ys →
          ys.isEmpty = xs.isEmpty
        | _, _, .nil => rfl
        | _, _, .cons _ _ => rfl
      rw [Shape.ofType, Shape.ofType, hempty hargs, Shape.ofName_congr hpkg hname]
      exact .refl _
    | array hlength h =>
      rw [Shape.ofType, Shape.ofType]
      refine (ih _ (List.mem_singleton_self _) _ h).bind fun s => ?_
      cases s with
      | none => exact .refl _
      | some s => exact (ArraySize.ofLength_alike hσ hlength).map _
    | map hk hv =>
      rw [Shape.ofType, Shape.ofType]
      exact (ih _ List.mem_cons_self _ hk).bind fun _ =>
        (ih _ (List.mem_cons_of_mem _ List.mem_cons_self) _ hv).map _
    | struct h =>
      rw [Shape.ofType, Shape.ofType]
      exact (Field.ofFields_alike hσ h ih).map _
    | interface h =>
      rw [Shape.ofType, Shape.ofType]
      exact (Field.ofElems_alike hσ h fun e he T hT =>
        ih T (List.mem_flatMap.2 ⟨e, he, hT⟩)).map _
    | func h =>
      rw [Shape.ofType, Shape.ofType]
      exact (Shape.ofSignature_alike hσ (.refl _) h ih).map _
    | pointer h | slice h | chan h =>
      rw [Shape.ofType, Shape.ofType]
      exact (ih _ (List.mem_singleton_self _) _ h).map _
    | paren h =>
      rw [Shape.ofType, Shape.ofType]
      exact ih _ (List.mem_singleton_self _) _ h
    | enclosed _ h =>
      rw [Shape.ofType.eq_1 text']
      exact ih _ (List.mem_singleton_self _) _ h

/-! ## Declared types -/

theorem Field.ofTypeParams_alike {ps ps' : List Tree.TypeParam}
    (h : List.Forall₂ (Tree.TypeParam.Alike σ True) ps ps') :
    Keeps (Field.ofTypeParams text ps) (Field.ofTypeParams text' ps') := by
  induction h with
  | nil => exact .refl _
  | @cons p p' _ _ h _ ih =>
    have hterms := Shape.ofSoleTerm_alike h.constraint fun T _ => Shape.ofType_alike hσ T
    have hnames : identNames p'.names = identNames p.names := h.names
    rw [Field.ofTypeParams, Field.ofTypeParams]
    refine Keeps.bind ?_ fun _ => ih.map _
    generalize Shape.ofSoleTerm text _ = x, Shape.ofSoleTerm text' _ = x' at hterms
    rw [hnames]
    cases hterms with
    | none => exact .refl _
    | some hkeeps => exact hkeeps.map _

omit hσ in
/-- A declared type is converted like any other, but for a function type with type
    parameters. -/
theorem Shape.ofSpec_eq_ofType {spec : Tree.TypeSpec}
    (h : spec.type.isFunc = true → spec.typeParams = none) :
    Shape.ofSpec text spec = Shape.ofType text spec.type := by
  unfold Shape.ofSpec
  split
  · next htype =>
    rw [htype] at h ⊢
    rw [h rfl, Shape.ofType]
    rfl
  · rfl

omit hσ in
theorem isFunc_of_alike {k : Prop} {T T' : TypeExpr} (h : T.Alike σ k T')
    (hT' : T'.isFunc = true) : T.isFunc = true := by
  cases h with
  | func _ => rfl
  | _ => cases hT'

omit hσ in
theorem typeParams_eq_none_of_alike {k : Prop} {ps ps' : Option Tree.TypeParams}
    (h : Option.Rel (Tree.TypeParams.Alike σ k) ps ps') (hps : ps = none) : ps' = none := by
  subst hps
  cases h
  rfl

/-- **Declared types that are alike have the same shape.** -/
theorem Shape.ofSpec_alike {γ : Option Nat → Option Nat → Prop} {spec spec' : Tree.TypeSpec}
    (h : spec.Alike σ True γ spec') :
    Keeps (Shape.ofSpec text spec) (Shape.ofSpec text' spec') := by
  by_cases hfunc : spec.type.isFunc = true → spec.typeParams = none
  · rw [Shape.ofSpec_eq_ofType hfunc, Shape.ofSpec_eq_ofType fun hfunc' =>
      typeParams_eq_none_of_alike h.typeParams (hfunc (isFunc_of_alike h.type hfunc'))]
    exact Shape.ofType_alike hσ _ _ h.type
  · obtain ⟨hfunc, hsome⟩ := Classical.not_imp.1 hfunc
    have hfunc' := h.top (Option.isSome_iff_ne_none.2 hsome) hfunc
    obtain ⟨-, hparams, -, htype, -, -⟩ := h
    have htypeParams : Keeps
        ((spec.typeParams.map (Field.ofTypeParams text ·.params)).getD (.ok []))
        ((spec'.typeParams.map (Field.ofTypeParams text' ·.params)).getD (.ok [])) := by
      generalize spec.typeParams = ps, spec'.typeParams = ps' at hparams
      cases hparams with
      | none => exact .refl _
      | some hps => exact Field.ofTypeParams_alike hσ hps
    unfold Shape.ofSpec
    generalize spec.type = T, spec'.type = T' at htype hfunc hfunc'
    cases htype with
    | func hsig =>
      exact (Shape.ofSignature_alike hσ htypeParams hsig fun T _ => Shape.ofType_alike hσ T).map _
    | enclosed _ _ => cases hfunc'
    | _ => cases hfunc

/-! ## Declarations -/

variable {file file' : Tree.SourceFile}

omit hσ in
theorem commentLines_eq (hc : SameTexts text text' file.comments file'.comments)
    (group : Option Nat) : commentLines file' text' group = commentLines file text group := by
  have hat (i : Nat) : (file'.comments[i]?).map (fun g => CommentText.ofComments text' g.comments) =
      (file.comments[i]?).map fun g => CommentText.ofComments text g.comments := by
    rw [← List.getElem?_map, ← List.getElem?_map, hc]
  unfold commentLines
  cases group with
  | none => rfl
  | some i =>
    have hi := hat i
    rw [Option.bind_some, Option.bind_some]
    cases hx : file.comments[i]? with
    | none =>
      rw [hx] at hi
      rw [Option.map_eq_none_iff.1 hi]
    | some g =>
      rw [hx] at hi
      obtain ⟨g', hx', htext⟩ := Option.map_eq_some_iff.1 hi
      rw [hx']
      dsimp only
      rw [htext]

omit hσ in
theorem declarationTags_eq (hc : SameTexts text text' file.comments file'.comments)
    {p p' : Tree.DeclHead × Tree.TypeSpec} (hdoc : p.1.doc = p'.1.doc)
    (hcomment : p.2.comment = p'.2.comment) :
    declarationTags file' text' p'.1 p'.2 = declarationTags file text p.1 p.2 := by
  rw [declarationTags, declarationTags, ← hdoc, ← hcomment, commentLines_eq hc, commentLines_eq hc]

/-- The type specs with the heads of their declarations. -/
def SpecAlike (σ : Span → Span → Prop) (p p' : Tree.DeclHead × Tree.TypeSpec) : Prop :=
  p.1.doc = p'.1.doc ∧ p.2.Alike σ True Eq p'.2

/-- **Declared types that are alike have the same declaration.** -/
theorem Declaration.ofSpec_alike (hc : SameTexts text text' file.comments file'.comments)
    (filename : String) {p p' : Tree.DeclHead × Tree.TypeSpec} (h : SpecAlike σ p p') :
    Keeps (Declaration.ofSpec file text filename p.1 p.2)
      (Declaration.ofSpec file' text' filename p'.1 p'.2) := by
  obtain ⟨hdoc, hspec⟩ := h
  have hshape := Shape.ofSpec_alike hσ hspec
  rw [Declaration.ofSpec, Declaration.ofSpec, hspec.name,
    declarationTags_eq hc hdoc hspec.comment]
  split
  · exact .refl _
  · generalize Shape.ofSpec text p.2 = x, Shape.ofSpec text' p'.2 = x' at hshape
    cases x with
    | error _ => exact .error
    | ok _ =>
      rw [hshape _ rfl]
      exact .refl _

theorem Declaration.ofSpecs_alike (hc : SameTexts text text' file.comments file'.comments)
    (filename : String) {ps ps' : List (Tree.DeclHead × Tree.TypeSpec)}
    (h : List.Forall₂ (SpecAlike σ) ps ps') :
    Keeps (Declaration.ofSpecs file text filename ps)
      (Declaration.ofSpecs file' text' filename ps') := by
  induction h with
  | nil => exact .refl _
  | cons h _ ih =>
    rw [Declaration.ofSpecs, Declaration.ofSpecs]
    exact (Declaration.ofSpec_alike hσ hc filename h).bind fun _ => ih.map _

/-! ## Imports -/

theorem Import.ofSpec_alike {s s' : Tree.ImportSpec} (h : s.Alike σ s') :
    Import.ofSpec text' s' = Import.ofSpec text s := by
  obtain ⟨hname, hpath⟩ := h
  obtain ⟨_, name, path⟩ := s
  obtain ⟨_, name', path'⟩ := s'
  rw [Import.ofSpec, Import.ofSpec, hσ.sourceText? hpath]
  dsimp only at hname ⊢
  cases name with
  | none =>
    obtain rfl := Option.map_eq_none_iff.1 hname
    rfl
  | some name =>
    obtain ⟨name', rfl, heq⟩ := Option.map_eq_some_iff.1 hname
    cases name with
    | dot _ =>
      cases name' with
      | dot _ => rfl
      | blank _ | named _ => cases heq
    | blank _ =>
      cases name' with
      | blank _ => rfl
      | dot _ | named _ => cases heq
    | named name =>
      cases name' with
      | dot _ | blank _ => cases heq
      | named name' =>
        have hident : name'.unplaced = name.unplaced := Tree.ImportName.named.inj heq
        obtain ⟨htext, -⟩ := Tree.Ident.mk.inj hident
        dsimp only
        rw [htext]

theorem mapM_ofSpec_alike {ss ss' : List Tree.ImportSpec}
    (h : List.Forall₂ (Tree.ImportSpec.Alike σ) ss ss') :
    ss'.mapM (Import.ofSpec text') = ss.mapM (Import.ofSpec text) := by
  induction h with
  | nil => rfl
  | cons h _ ih => rw [List.mapM_cons, List.mapM_cons, ih, Import.ofSpec_alike hσ h]

end

/-! ## Files -/

section

variable {γ : Option Nat → Option Nat → Prop} {file file' : Tree.SourceFile}

theorem importSpecs_alike
    (h : List.Forall₂ (Tree.Decl.Alike σ True γ) file.decls file'.decls) :
    List.Forall₂ (Tree.ImportSpec.Alike σ) (importSpecs file) (importSpecs file') := by
  unfold importSpecs
  generalize file.decls = ds, file'.decls = ds' at h
  induction h with
  | nil => exact .nil
  | cons h _ ih =>
    rw [List.flatMap_cons, List.flatMap_cons]
    refine List.rel_append ?_ ih
    cases h with
    | imports _ hspecs => exact hspecs
    | _ => exact .nil

theorem typeSpecs_alike
    (h : List.Forall₂ (Tree.Decl.Alike σ True Eq) file.decls file'.decls) :
    List.Forall₂ (SpecAlike σ) (typeSpecs file) (typeSpecs file') := by
  unfold typeSpecs
  generalize file.decls = ds, file'.decls = ds' at h
  induction h with
  | nil => exact .nil
  | cons h _ ih =>
    rw [List.flatMap_cons, List.flatMap_cons]
    refine List.rel_append ?_ ih
    cases h with
    | types head hspecs =>
      exact List.forall₂_map_left_iff.2 (List.forall₂_map_right_iff.2
        (hspecs.imp fun _ _ h => ⟨head.doc, h⟩))
    | _ => exact .nil

/-- **Files with specs that are alike have the same unit but for their texts.** -/
theorem SourceUnit.ofTree_specs {text text' filename : String} {module : Module} {u : SourceUnit}
    (hσ : SameText σ text.toList text'.toList)
    (hc : SameTexts text.toList text'.toList file.comments file'.comments)
    (hpackage : file'.package = file.package)
    (hspecs : List.Forall₂ (Tree.ImportSpec.Alike σ) (importSpecs file) (importSpecs file'))
    (htypes : List.Forall₂ (SpecAlike σ) (typeSpecs file) (typeSpecs file'))
    (h : ofTree file text filename module = .ok u) :
    ofTree file' text' filename module = .ok { u with text := text' } := by
  obtain ⟨imports, himports, hdecls, hu⟩ := eq_of_ofTree h
  have hdecls' := Declaration.ofSpecs_alike hσ hc filename htypes _ hdecls
  rw [ofTree, mapM_ofSpec_alike hσ hspecs, himports, hdecls', hpackage]
  rw [hu]
  rfl

/-- Files that are alike have the same unit but for their texts. -/
theorem SourceUnit.ofTree_alike {text text' filename : String} {module : Module} {u : SourceUnit}
    (hσ : SameText σ text.toList text'.toList)
    (hc : SameTexts text.toList text'.toList file.comments file'.comments)
    (hpackage : file'.package = file.package)
    (hdecls : List.Forall₂ (Tree.Decl.Alike σ True Eq) file.decls file'.decls)
    (h : ofTree file text filename module = .ok u) :
    ofTree file' text' filename module = .ok { u with text := text' } :=
  ofTree_specs hσ hc hpackage (importSpecs_alike hdecls) (typeSpecs_alike hdecls) h

end

end GoDecls.Model
