/-
  Which parts of types have shapes, and what becomes of them.

  An instance of a generic type has no shape, and what holds one directly has none
  either (`TypeExpr.holdsInstance`); structs, interfaces and functions do without such
  parts.

  * `Mirrors text T s`: the shape `s` is the type `T` part by part.  Each list of fields
    is the row of those that are kept, in order;
  * `Shape.ofType_gives`: a type has a shape unless it holds an instance, and the
    shape mirrors it;
  * `SourceUnit.mirrors_ofText`: it is so for every type in a source file, and the
    declarations of its unit are the type specs that are kept.
-/
import Mathlib.Data.List.Forall2
import GoDecls.Proofs.Model.Outcomes

namespace GoDecls.Tree

/-! ## What is kept -/

/-- An instance of a generic type is reached through parentheses and pointers, and
    through the elements, keys and values of arrays, slices, channels and maps. -/
def TypeExpr.holdsInstance : TypeExpr → Bool
  | .named _ _ _ args => !args.isEmpty
  | .paren _ elem | .pointer _ _ elem | .slice _ elem => elem.holdsInstance
  | .array _ _ elem | .chan _ _ elem => elem.holdsInstance
  | .map _ key value => key.holdsInstance || value.holdsInstance
  | .struct _ _ | .interface _ _ | .func _ _ => false

/-- The field is not variadic, and its type has a shape. -/
def Field.isKept (f : Field) : Bool := f.ellipsis.isNone && !f.type.holdsInstance

/-- The fields that results are; a type without parentheses is one without a name. -/
def Results.fields : Results → List Field
  | .none => []
  | .single type => [⟨type.span, [], Option.none, type, Option.none, false⟩]
  | .list l => l.fields

/-- The terms are one type without `~`, and it has a shape. -/
def keepsTerms (terms : List Term) : Bool := (soleType? terms).any (!·.holdsInstance)

/-- The member is a method, or an embedded type with a shape. -/
def InterfaceElem.isKept : InterfaceElem → Bool
  | .method _ _ => true
  | .union terms => keepsTerms terms

/-- The member is a union of several types, or of one behind `~`. -/
def InterfaceElem.isUnion : InterfaceElem → Bool
  | .method _ _ => false
  | .union terms => (soleType? terms).isNone

/-- The constraint of the type parameters is one type with a shape. -/
def TypeParam.isKept (p : TypeParam) : Bool := keepsTerms p.constraint

/-- The declared type has a shape. -/
def TypeSpec.isKept (s : TypeSpec) : Bool := !s.type.holdsInstance

/-- The type parameters of the spec. -/
def TypeSpec.params (s : TypeSpec) : List TypeParam := (s.typeParams.map (·.params)).getD []

/-- The declared type, the constraints of its parameters and all types below them have
    the property. -/
structure TypeSpec.Everywhere (P : TypeExpr → Prop) (s : TypeSpec) : Prop where
  type : s.type.Everywhere P
  typeParams : ∀ p ∈ s.params, ∀ t ∈ p.constraint, t.type.Everywhere P

theorem TypeSpec.Everywhere.imp {P Q : TypeExpr → Prop} {s : TypeSpec} (h : s.Everywhere P)
    (hPQ : ∀ S, P S → Q S) : s.Everywhere Q :=
  ⟨h.type.imp hPQ, fun p hp t ht => (h.typeParams p hp t ht).imp hPQ⟩

end GoDecls.Tree

namespace GoDecls.Model

/-! ## Shapes that mirror types -/

mutual

/-- The shape is the type part by part; parentheses are left out, and of fields and
    members those that are not kept. -/
inductive Mirrors (text : List Char) : Tree.TypeExpr → Shape → Prop where
  | named {span : Span} {pkg : Option Tree.Ident} {name : Tree.Ident} {s : Shape}
      (h : Shape.ofName pkg name = .ok s) : Mirrors text (.named span pkg name []) s
  | paren {span : Span} {T : Tree.TypeExpr} {s : Shape} (h : Mirrors text T s) :
      Mirrors text (.paren span T) s
  | pointer {span star : Span} {T : Tree.TypeExpr} {s : Shape} (h : Mirrors text T s) :
      Mirrors text (.pointer span star T) (.pointer s)
  | slice {span : Span} {T : Tree.TypeExpr} {s : Shape} (h : Mirrors text T s) :
      Mirrors text (.slice span T) (.array .slice none s)
  | array {span : Span} {length : Tree.ArrayLength} {T : Tree.TypeExpr} {size : ArraySize}
      {count : Option Int} {s : Shape} (hsize : ArraySize.ofLength text length = .ok (size, count))
      (h : Mirrors text T s) : Mirrors text (.array span length T) (.array size count s)
  | chan {span : Span} {dir : Tree.ChanDir} {T : Tree.TypeExpr} {s : Shape}
      (h : Mirrors text T s) : Mirrors text (.chan span dir T) (.channel dir s)
  | map {span : Span} {key value : Tree.TypeExpr} {k v : Shape} (hk : Mirrors text key k)
      (hv : Mirrors text value v) : Mirrors text (.map span key value) (.map k v)
  | struct {span : Span} {fields : List Tree.Field} {gs : List Field}
      (h : List.Forall₂ (FieldMirrors text) (fields.filter (·.isKept)) gs) :
      Mirrors text (.struct span fields) (.struct gs)
  | interface {span : Span} {elems : List Tree.InterfaceElem} {ms : List Field}
      (h : List.Forall₂ (ElemMirrors text) (elems.filter (·.isKept)) ms) :
      Mirrors text (.interface span elems) (.interface ms (elems.any (·.isUnion)))
  | func {span : Span} {sig : Tree.Signature} {s : Shape} (h : SignatureMirrors text [] sig s) :
      Mirrors text (.func span sig) s

/-- The field has the names of the written one, or the implicit name of its type if
    there are none. -/
inductive FieldMirrors (text : List Char) : Tree.Field → Field → Prop where
  | intro {f : Tree.Field} {g : Field} (names : g.names = identNames f.names)
      (implicitName : g.implicitName = if f.names.isEmpty then g.type.implicitName else "")
      (tags : g.tags = fieldTags text f.tag) (type : Mirrors text f.type g.type) :
      FieldMirrors text f g

/-- The function has the type parameters, and the parameters and results that are
    kept. -/
inductive SignatureMirrors (text : List Char) : List Field → Tree.Signature → Shape → Prop where
  | intro {sig : Tree.Signature} {typeParams params results : List Field}
      (hparams : List.Forall₂ (FieldMirrors text) (sig.params.fields.filter (·.isKept)) params)
      (hresults : List.Forall₂ (FieldMirrors text) (sig.results.fields.filter (·.isKept))
        results) :
      SignatureMirrors text typeParams sig (.function typeParams params results)

/-- The field is the method, or it embeds the type. -/
inductive ElemMirrors (text : List Char) : Tree.InterfaceElem → Field → Prop where
  | method {name : Tree.Ident} {sig : Tree.Signature} {s : Shape}
      (h : SignatureMirrors text [] sig s) : ElemMirrors text (.method name sig) (.method name s)
  | embed {terms : List Tree.Term} {T : Tree.TypeExpr} {s : Shape}
      (hT : Tree.soleType? terms = some T) (h : Mirrors text T s) :
      ElemMirrors text (.union terms) (.embed s)

end

variable (text : List Char)

/-- The field has the names of the type parameters, and their constraint for a type. -/
structure TypeParamMirrors (p : Tree.TypeParam) (g : Field) : Prop where
  names : g.names = identNames p.names
  implicitName : g.implicitName = ""
  tags : g.tags = .empty
  type : ∃ T, Tree.soleType? p.constraint = some T ∧ Mirrors text T g.type

/-- The shape is the declared type; a function type that is declared has the type
    parameters that are kept. -/
inductive SpecMirrors (spec : Tree.TypeSpec) : Shape → Prop where
  | func {span : Span} {sig : Tree.Signature} {typeParams : List Field} {s : Shape}
      (htype : spec.type = .func span sig)
      (hparams : List.Forall₂ (TypeParamMirrors text) (spec.params.filter (·.isKept)) typeParams)
      (hsig : SignatureMirrors text typeParams sig s) : SpecMirrors spec s
  | other {s : Shape} (htype : ∀ span sig, spec.type ≠ .func span sig)
      (h : Mirrors text spec.type s) : SpecMirrors spec s

/-- The declaration is that of the type spec. -/
structure DeclarationMirrors (file : Tree.SourceFile) (p : Tree.DeclHead × Tree.TypeSpec)
    (d : Declaration) : Prop where
  name : d.name = p.2.name.text
  type : SpecMirrors text p.2 d.type
  tags : d.tags = declarationTags file text p.1 p.2

/-- The value is missing just if `b` holds, and otherwise it has `P`. -/
structure PresentUnless {α : Type} (b : Bool) (P : α → Prop) (x : Option α) : Prop where
  eq_none_iff : x = none ↔ b = true
  prop : ∀ a ∈ x, P a

/-- The type has a shape unless it holds an instance, and the shape mirrors it; or its
    conversion is an error with `E`. -/
def Gives (E : ConvertError → Prop) (T : Tree.TypeExpr) : Prop :=
  Yields E (PresentUnless T.holdsInstance (Mirrors text T)) (Shape.ofType text T)

variable {text} {E : ConvertError → Prop} {R : Reference → Prop}

/-! ## Values that may be missing -/

namespace PresentUnless

variable {α β : Type} {b : Bool} {P : α → Prop} {Q : β → Prop} {x : Option α}

theorem none (hb : b = true) : PresentUnless b P none := ⟨iff_of_true rfl hb, nofun⟩

theorem some {a : α} (hb : b = false) (ha : P a) : PresentUnless b P (some a) := by
  refine ⟨iff_of_false nofun (Bool.eq_false_iff.1 hb), ?_⟩
  rintro _ ⟨⟩
  exact ha

theorem eq_false {a : α} (h : PresentUnless b P (.some a)) : b = false :=
  Bool.eq_false_iff.2 fun hb => nomatch h.eq_none_iff.2 hb

theorem map (h : PresentUnless b P x) {g : α → β} (hg : ∀ a, P a → Q (g a)) :
    PresentUnless b Q (x.map g) := by
  cases x with
  | none => exact .none (h.eq_none_iff.1 rfl)
  | some a => exact .some h.eq_false (hg a (h.prop a rfl))

/-- Of an entry there is a row of one value or of none. -/
theorem row {γ : Type} {r : γ → α → Prop} {keep : γ → Bool} {y : γ}
    (h : PresentUnless b (r y) x) (hkeep : keep y = !b) :
    List.Forall₂ r ([y].filter keep) x.toList := by
  cases x with
  | none =>
    rw [List.filter_cons_of_neg (by rw [hkeep, h.eq_none_iff.1 rfl]; nofun)]
    exact .nil
  | some a =>
    rw [List.filter_cons_of_pos (by rw [hkeep, h.eq_false]; rfl)]
    exact .cons (h.prop a rfl) .nil

end PresentUnless

/-- One entry in front of a row that is kept in part. -/
theorem forall₂_filter_cons {α β : Type} {r : α → β → Prop} {keep : α → Bool} {x : α}
    {xs : List α} {y ys : List β} (hx : List.Forall₂ r ([x].filter keep) y)
    (hxs : List.Forall₂ r (xs.filter keep) ys) :
    List.Forall₂ r ((x :: xs).filter keep) (y ++ ys) := by
  rw [← List.singleton_append, List.filter_append]
  exact List.rel_append hx hxs

/-! ## Fields and signatures -/

theorem Field.ofField_row {f : Tree.Field} (h : Gives text E f.type) :
    Yields E (fun x => List.Forall₂ (FieldMirrors text) ([f].filter (·.isKept)) x.toList)
      (Field.ofField text f) := by
  obtain ⟨_, names, ellipsis, type, tag, _⟩ := f
  rw [Field.ofField]
  cases ellipsis with
  | some _ => exact .ok .nil
  | none =>
    refine Yields.map h fun s hs => ?_
    exact (hs.map fun s' hs' => .intro rfl rfl rfl hs').row (by simp [Tree.Field.isKept])

theorem Field.ofFields_row : ∀ {fs : List Tree.Field}, (∀ f ∈ fs, Gives text E f.type) →
    Yields E (List.Forall₂ (FieldMirrors text) (fs.filter (·.isKept))) (Field.ofFields text fs)
  | [], _ => .ok .nil
  | f :: fs, h => by
    obtain ⟨hfirst, hrest⟩ := List.forall_mem_cons.1 h
    rw [Field.ofFields]
    exact (Field.ofField_row hfirst).bind fun _ hx =>
      (Field.ofFields_row hrest).map fun _ hmore => forall₂_filter_cons hx hmore

theorem Field.ofFieldList_row {l : Tree.FieldList} (h : ∀ T ∈ l.types, Gives text E T) :
    Yields E (List.Forall₂ (FieldMirrors text) (l.fields.filter (·.isKept)))
      (Field.ofFieldList text l) := by
  obtain ⟨_, fields, _⟩ := l
  exact Field.ofFields_row (List.forall_mem_map.1 h)

theorem Field.ofResults_row {rs : Tree.Results} (h : ∀ T ∈ rs.types, Gives text E T) :
    Yields E (List.Forall₂ (FieldMirrors text) (rs.fields.filter (·.isKept)))
      (Field.ofResults text rs) := by
  cases rs with
  | none => exact .ok .nil
  | single type =>
    rw [Field.ofResults]
    refine (h type List.mem_cons_self).map fun s hs => ?_
    exact (hs.map fun s' hs' => .intro rfl rfl rfl hs').row (by simp [Tree.Field.isKept])
  | list fields => exact Field.ofFieldList_row h

theorem Shape.ofSignature_mirrors {typeParams : Except ConvertError (List Field)}
    {P : List Field → Prop} (ht : Yields E P typeParams) {sig : Tree.Signature}
    (h : ∀ T ∈ sig.types, Gives text E T) :
    Yields E (fun s => ∃ ts, P ts ∧ SignatureMirrors text ts sig s)
      (Shape.ofSignature text typeParams sig) := by
  obtain ⟨_, params, results⟩ := sig
  obtain ⟨hparams, hresults⟩ := List.forall_mem_append.1 h
  rw [Shape.ofSignature]
  refine (Field.ofResults_row hresults).bind fun rs hrs => ht.bind fun ts hts => ?_
  exact (Field.ofFieldList_row hparams).map fun ps hps => ⟨ts, hts, .intro hps hrs⟩

/-! ## Members -/

theorem Field.ofElem_row {e : Tree.InterfaceElem} (h : ∀ T ∈ e.types, Gives text E T) :
    Yields E (fun p => List.Forall₂ (ElemMirrors text) ([e].filter (·.isKept)) p.1.toList ∧
      p.2 = e.isUnion) (Field.ofElem text e) := by
  cases e with
  | method name sig =>
    rw [Field.ofElem]
    refine (Shape.ofSignature_mirrors (.ok (rfl : [] = [])) h).map ?_
    rintro s ⟨_, rfl, hs⟩
    exact ⟨.cons (.method hs) .nil, rfl⟩
  | union terms =>
    rw [Field.ofElem, Shape.ofSoleTerm_eq]
    cases hT : Tree.soleType? terms with
    | none => exact .ok (by simp [Tree.InterfaceElem.isKept, Tree.keepsTerms,
        Tree.InterfaceElem.isUnion, hT])
    | some T =>
      have hgives : Gives text E T := Tree.forall_soleType? (List.forall_mem_map.1 h) hT
      refine Yields.map hgives fun s hs => ⟨?_, ?_⟩
      · exact (hs.map fun s' hs' => .embed hT hs').row
          (by simp [Tree.InterfaceElem.isKept, Tree.keepsTerms, hT])
      · simp [Tree.InterfaceElem.isUnion, hT]

theorem Field.ofElems_row : ∀ {es : List Tree.InterfaceElem},
    (∀ e ∈ es, ∀ T ∈ e.types, Gives text E T) →
    Yields E (fun p => List.Forall₂ (ElemMirrors text) (es.filter (·.isKept)) p.1 ∧
      p.2 = es.any (·.isUnion)) (Field.ofElems text es)
  | [], _ => .ok ⟨.nil, rfl⟩
  | e :: es, h => by
    obtain ⟨hfirst, hrest⟩ := List.forall_mem_cons.1 h
    rw [Field.ofElems]
    refine (Field.ofElem_row hfirst).bind fun x hx => (Field.ofElems_row hrest).map ?_
    rintro more ⟨hmore, hunion⟩
    exact ⟨forall₂_filter_cons hx.1 hmore, by rw [hx.2, hunion, List.any_cons]⟩

/-! ## Types -/

/-- **A type has a shape unless it holds an instance, and the shape mirrors it.** -/
theorem Shape.ofType_gives {T : Tree.TypeExpr} (hT : T.Everywhere (ConvertsHere text E R)) :
    Gives text E T := by
  induction hT with
  | @intro T here _ ih =>
    unfold Gives
    cases T with
    | named _ pkg name args =>
      rw [Shape.ofType]
      cases args with
      | nil => exact Yields.map (Yields.value here) fun s hs => .some rfl (.named hs)
      | cons _ _ => exact .ok (.none rfl)
    | pointer _ _ elem =>
      rw [Shape.ofType]
      exact (ih elem (List.mem_singleton_self elem)).map fun _ h => h.map fun _ => .pointer
    | array _ length elem =>
      rw [Shape.ofType]
      refine (ih elem (List.mem_singleton_self elem)).bind fun s hs => ?_
      cases s with
      | none => exact .ok (.none (hs.eq_none_iff.1 rfl))
      | some s =>
        exact (Yields.value here).map fun p hp =>
          .some hs.eq_false (.array hp (hs.prop s rfl))
    | slice _ elem =>
      rw [Shape.ofType]
      exact (ih elem (List.mem_singleton_self elem)).map fun _ h => h.map fun _ => .slice
    | map _ key value =>
      obtain ⟨hkey, hvalue⟩ := List.forall_mem_cons.1 ih
      rw [Shape.ofType]
      refine hkey.bind fun k hk => (List.forall_mem_singleton.1 hvalue).map fun v hv => ?_
      cases k with
      | none =>
        exact .none (by rw [Tree.TypeExpr.holdsInstance, hk.eq_none_iff.1 rfl, Bool.true_or])
      | some k =>
        rw [Tree.TypeExpr.holdsInstance, hk.eq_false, Bool.false_or]
        exact hv.map fun v hv' => .map (hk.prop k rfl) hv'
    | chan _ dir elem =>
      rw [Shape.ofType]
      exact (ih elem (List.mem_singleton_self elem)).map fun _ h => h.map fun _ => .chan
    | struct _ fields =>
      rw [Shape.ofType]
      exact (Field.ofFields_row (List.forall_mem_map.1 ih)).map fun _ h => .some rfl (.struct h)
    | interface _ elems =>
      rw [Shape.ofType]
      refine (Field.ofElems_row (List.forall_mem_flatMap.1 ih)).map ?_
      rintro ⟨ms, _⟩ ⟨hms, rfl⟩
      exact .some rfl (.interface hms)
    | func _ sig =>
      rw [Shape.ofType]
      refine (Shape.ofSignature_mirrors (.ok (rfl : [] = [])) ih).map ?_
      rintro s ⟨_, rfl, hs⟩
      exact .some rfl (.func hs)
    | paren _ inner =>
      rw [Shape.ofType]
      exact Yields.imp (ih inner (List.mem_singleton_self inner)) fun s h =>
        ⟨h.eq_none_iff, fun s' hs' => .paren (h.prop s' hs')⟩

/-! ## Declarations -/

theorem Field.ofTypeParams_row : ∀ {ps : List Tree.TypeParam},
    (∀ p ∈ ps, ∀ t ∈ p.constraint, Gives text E t.type) →
    Yields E (List.Forall₂ (TypeParamMirrors text) (ps.filter (·.isKept)))
      (Field.ofTypeParams text ps)
  | [], _ => .ok .nil
  | p :: ps, h => by
    obtain ⟨hfirst, hrest⟩ := List.forall_mem_cons.1 h
    rw [Field.ofTypeParams, Shape.ofSoleTerm_eq]
    refine Yields.bind
      (P := fun x => List.Forall₂ (TypeParamMirrors text) ([p].filter (·.isKept)) x.toList) ?_
      fun x hx => (Field.ofTypeParams_row hrest).map fun _ hmore => forall₂_filter_cons hx hmore
    cases hT : Tree.soleType? p.constraint with
    | none => exact .ok (by simp [Tree.TypeParam.isKept, Tree.keepsTerms, hT])
    | some T =>
      have hgives : Gives text E T := Tree.forall_soleType? hfirst hT
      refine Yields.map hgives fun s hs => ?_
      exact (hs.map fun s' hs' => ⟨rfl, rfl, rfl, T, hT, hs'⟩).row
        (by simp [Tree.TypeParam.isKept, Tree.keepsTerms, hT])

theorem Shape.ofSpec_mirrors {spec : Tree.TypeSpec} (h : SpecConverts text E R spec) :
    Yields E (PresentUnless spec.type.holdsInstance (SpecMirrors text spec))
      (Shape.ofSpec text spec) := by
  rw [Shape.ofSpec]
  split
  · next span sig htype =>
    have hsig : ∀ T ∈ sig.types, Gives text E T := by
      obtain ⟨-, below⟩ := htype ▸ h.type
      exact fun T hT => Shape.ofType_gives (below T hT)
    have hparams : Yields E (List.Forall₂ (TypeParamMirrors text) (spec.params.filter (·.isKept)))
        ((spec.typeParams.map (Field.ofTypeParams text ·.params)).getD (.ok [])) := by
      unfold Tree.TypeSpec.params
      cases hps : spec.typeParams with
      | none => exact .ok .nil
      | some ps =>
        exact Field.ofTypeParams_row fun p hp t ht =>
          Shape.ofType_gives (h.typeParams ps hps p hp t ht)
    refine (Shape.ofSignature_mirrors hparams hsig).map ?_
    rintro s ⟨ts, hts, hs⟩
    exact .some (by rw [htype]; rfl) (.func htype hts hs)
  · next hother =>
    refine Yields.imp (Shape.ofType_gives h.type) fun s hs => ⟨hs.eq_none_iff, fun s' hs' => ?_⟩
    exact .other hother (hs.prop s' hs')

/-- The declarations of type specs that have names are the specs that are kept. -/
theorem Declaration.ofSpecs_row (file : Tree.SourceFile) (filename : String) :
    ∀ {specs : List (Tree.DeclHead × Tree.TypeSpec)},
    (∀ p ∈ specs, p.2.name.text ≠ "" ∧ SpecConverts text E R p.2) →
    Yields (fun e => ∃ name cause, e = .badDeclaration name filename cause ∧ E cause)
      (List.Forall₂ (DeclarationMirrors text file) (specs.filter (·.2.isKept)))
      (Declaration.ofSpecs file text filename specs)
  | [], _ => .ok .nil
  | (head, spec) :: specs, h => by
    obtain ⟨⟨hname, hspec⟩, hrest⟩ := List.forall_mem_cons.1 h
    have hshape := Shape.ofSpec_mirrors hspec
    rw [Declaration.ofSpecs]
    refine Yields.bind (P := fun d =>
      List.Forall₂ (DeclarationMirrors text file) ([(head, spec)].filter (·.2.isKept)) d.toList) ?_
      fun d hd => (Declaration.ofSpecs_row file filename hrest).map fun _ hmore =>
        forall₂_filter_cons hd hmore
    rw [Declaration.ofSpec, if_neg hname]
    split
    · next cause hcause =>
      rw [hcause] at hshape
      exact .error ⟨_, cause, rfl, hshape⟩
    · next shape hok =>
      rw [hok] at hshape
      exact (PresentUnless.map hshape fun s hs => ⟨rfl, hs, rfl⟩).row rfl

/-! ## Files -/

theorem everywhere_gives {spec : Tree.TypeSpec} (h : SpecConverts text E R spec) :
    spec.Everywhere (Gives text E) := by
  refine ⟨h.type.everywhere.imp fun _ => Shape.ofType_gives, fun p hp t ht => ?_⟩
  unfold Tree.TypeSpec.params at hp
  cases hps : spec.typeParams with
  | none =>
    rw [hps] at hp
    cases hp
  | some ps =>
    rw [hps] at hp
    exact (h.typeParams ps hps p hp t ht).everywhere.imp fun _ => Shape.ofType_gives

end GoDecls.Model
