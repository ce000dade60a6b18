/-
  What comes of converting types.

  * `Yields E P x`: if `x` is an error it has `E`, and if it is a value it has `P`;
    there is one rule for each way of putting conversions together;
  * `Shape.Refers R s`: the references in the shape have `R`;
  * `Shape.ofType_yields`: if the names and lengths in a type, at any depth, convert
    as wanted, then so does the type.  It is the same for what is made of types, up to
    the declarations of a file (`Declaration.ofSpecs_yields`);
  * `SourceUnit.file_of_ofText`: a unit of a text comes of a tree, and its declarations
    are converted from the type specs of the tree.
-/
import GoDecls.Model.References
import GoDecls.Model.Unit
import GoDecls.Proofs.Tree.Everywhere

namespace GoDecls.Tree

/-- The type of a union of one type without `~`. -/
def soleType? : List Term → Option TypeExpr
  | [⟨none, type⟩] => some type
  | _ => none

theorem forall_soleType? {P : TypeExpr → Prop} {terms : List Term} (h : ∀ t ∈ terms, P t.type)
    {T : TypeExpr} (hT : soleType? terms = some T) : P T := by
  unfold soleType? at hT
  split at hT
  · cases hT
    exact h _ List.mem_cons_self
  · cases hT

end GoDecls.Tree

namespace GoDecls.Model

/-! ## Values and errors -/

/-- An error has the property `E`, and a value has `P`. -/
def Yields {ε α : Type} (E : ε → Prop) (P : α → Prop) : Except ε α → Prop
  | .error e => E e
  | .ok a => P a

namespace Yields

variable {ε α β : Type} {E : ε → Prop} {P : α → Prop} {Q : β → Prop} {x : Except ε α}

theorem ok {a : α} (h : P a) : Yields E P (.ok a : Except ε α) := h

theorem error {e : ε} (h : E e) : Yields E P (.error e : Except ε α) := h

theorem imp {P' : α → Prop} (h : Yields E P x) (hP : ∀ a, P a → P' a) : Yields E P' x := by
  cases x with
  | error e => exact h
  | ok a => exact hP a h

/-- Of the value is known what it is. -/
theorem value (h : Yields E P x) : Yields E (fun a => x = .ok a) x := by
  cases x with
  | error e => exact h
  | ok a => exact .ok rfl

theorem any (x : Except ε α) : Yields (fun _ => True) (fun _ => True) x := by
  cases x <;> exact trivial

theorem bind {f : α → Except ε β} (h : Yields E P x) (hf : ∀ a, P a → Yields E Q (f a)) :
    Yields E Q (x.bind f) := by
  cases x with
  | error e => exact h
  | ok a => exact hf a h

theorem map {f : α → β} (h : Yields E P x) (hf : ∀ a, P a → Q (f a)) :
    Yields E Q (x.map f) := by
  cases x with
  | error e => exact h
  | ok a => exact hf a h

end Yields

/-! ## References -/

variable {R : Reference → Prop} {E : ConvertError → Prop} {text : List Char}

/-- The references in the shape have the property. -/
def Shape.Refers (R : Reference → Prop) (s : Shape) : Prop := ∀ r ∈ s.references, R r

/-- The references in the shape, if it is there, have the property. -/
def Shape.RefersIfAny (R : Reference → Prop) (s : Option Shape) : Prop := ∀ s' ∈ s, s'.Refers R

/-- The references in the types of the fields have the property. -/
def Field.Refer (R : Reference → Prop) (fs : List Field) : Prop := ∀ f ∈ fs, f.type.Refers R

theorem Shape.RefersIfAny.map {s : Option Shape} {g : Shape → Shape} (h : RefersIfAny R s)
    (hg : ∀ s, s.Refers R → (g s).Refers R) : RefersIfAny R (s.map g) := by
  rintro _ hs
  obtain ⟨s', rfl, rfl⟩ := Option.map_eq_some_iff.1 hs
  exact hg s' (h s' rfl)

theorem Shape.RefersIfAny.some {s : Shape} (h : s.Refers R) : RefersIfAny R (some s) := by
  rintro _ ⟨⟩
  exact h

/-- A field of a shape that may be missing. -/
theorem Field.Refer.toList {s : Option Shape} (h : Shape.RefersIfAny R s) {g : Shape → Field}
    (hg : ∀ s, (g s).type = s) : Field.Refer R (s.map g).toList := by
  intro f hf
  obtain ⟨s', rfl, rfl⟩ := Option.map_eq_some_iff.1 (Option.mem_toList.1 hf)
  rw [hg]
  exact h s' rfl

theorem Field.Refer.append {fs gs : List Field} (hf : Field.Refer R fs) (hg : Field.Refer R gs) :
    Field.Refer R (fs ++ gs) :=
  List.forall_mem_append.2 ⟨hf, hg⟩

theorem Field.Refer.referencesOf : ∀ {fs : List Field}, Field.Refer R fs →
    ∀ r ∈ Field.referencesOf fs, R r
  | [], _ => nofun
  | ⟨_, _, _, _⟩ :: _, h => by
    obtain ⟨hfirst, hrest⟩ := List.forall_mem_cons.1 h
    exact List.forall_mem_append.2 ⟨hfirst, Field.Refer.referencesOf hrest⟩

/-! ## Fields and signatures -/

/-- The conversion of the type yields nothing but references with `R`, or an error
    with `E`. -/
def Converts (text : List Char) (E : ConvertError → Prop) (R : Reference → Prop)
    (T : Tree.TypeExpr) : Prop :=
  Yields E (Shape.RefersIfAny R) (Shape.ofType text T)

theorem Field.ofField_yields {f : Tree.Field} (h : Converts text E R f.type) :
    Yields E (fun x => Field.Refer R x.toList) (Field.ofField text f) := by
  obtain ⟨_, names, ellipsis, type, tag, _⟩ := f
  rw [Field.ofField]
  split
  · exact .ok nofun
  · exact Yields.map h fun s hs => .toList hs fun _ => rfl

theorem Field.ofFields_yields : ∀ {fs : List Tree.Field}, (∀ f ∈ fs, Converts text E R f.type) →
    Yields E (Field.Refer R) (Field.ofFields text fs)
  | [], _ => .ok nofun
  | f :: fs, h => by
    obtain ⟨hfirst, hrest⟩ := List.forall_mem_cons.1 h
    rw [Field.ofFields]
    exact (Field.ofField_yields hfirst).bind fun x hx =>
      (Field.ofFields_yields hrest).map fun _ hmore => hx.append hmore

theorem Field.ofFieldList_yields {l : Tree.FieldList} (h : ∀ T ∈ l.types, Converts text E R T) :
    Yields E (Field.Refer R) (Field.ofFieldList text l) := by
  obtain ⟨_, fields, _⟩ := l
  exact Field.ofFields_yields (List.forall_mem_map.1 h)

theorem Field.ofResults_yields {rs : Tree.Results} (h : ∀ T ∈ rs.types, Converts text E R T) :
    Yields E (Field.Refer R) (Field.ofResults text rs) := by
  cases rs with
  | none => exact .ok nofun
  | single type =>
    rw [Field.ofResults]
    exact (h type List.mem_cons_self).map fun s hs => .toList hs fun _ => rfl
  | list fields => exact Field.ofFieldList_yields h

theorem Shape.ofSignature_yields {typeParams : Except ConvertError (List Field)}
    (ht : Yields E (Field.Refer R) typeParams) {sig : Tree.Signature}
    (h : ∀ T ∈ sig.types, Converts text E R T) :
    Yields E (·.Refers R) (Shape.ofSignature text typeParams sig) := by
  obtain ⟨_, params, results⟩ := sig
  obtain ⟨hparams, hresults⟩ := List.forall_mem_append.1 h
  rw [Shape.ofSignature]
  refine (Field.ofResults_yields hresults).bind fun rs hrs => ht.bind fun ts hts => ?_
  refine (Field.ofFieldList_yields hparams).map fun ps hps => ?_
  exact List.forall_mem_append.2
    ⟨List.forall_mem_append.2 ⟨hts.referencesOf, hps.referencesOf⟩, hrs.referencesOf⟩

/-! ## Unions and members -/

theorem Shape.ofSoleTerm_eq (text : List Char) (terms : List Tree.Term) :
    Shape.ofSoleTerm text terms = (Tree.soleType? terms).map (Shape.ofType text) := by
  unfold Shape.ofSoleTerm Tree.soleType?
  split
  · next t =>
    obtain ⟨_ | _, type⟩ := t
    · rfl
    · rfl
  · next hterms =>
    split
    · next type => exact absurd rfl (hterms _)
    · rfl

theorem Shape.ofSoleTerm_yields {terms : List Tree.Term}
    (h : ∀ t ∈ terms, Converts text E R t.type) {x : Except ConvertError (Option Shape)}
    (hx : Shape.ofSoleTerm text terms = some x) : Yields E (RefersIfAny R) x := by
  rw [Shape.ofSoleTerm_eq] at hx
  obtain ⟨T, hT, rfl⟩ := Option.map_eq_some_iff.1 hx
  exact Tree.forall_soleType? h hT

theorem Field.ofElem_yields {e : Tree.InterfaceElem} (h : ∀ T ∈ e.types, Converts text E R T) :
    Yields E (fun p => Field.Refer R p.1.toList) (Field.ofElem text e) := by
  cases e with
  | method name sig =>
    rw [Field.ofElem]
    refine (Shape.ofSignature_yields (.ok nofun) h).map fun s hs => ?_
    exact Field.Refer.toList (.some hs) fun _ => rfl
  | union terms =>
    rw [Field.ofElem]
    split
    · next x hx =>
      exact (Shape.ofSoleTerm_yields (List.forall_mem_map.1 h) hx).map fun s hs =>
        .toList hs fun _ => rfl
    · exact .ok nofun

theorem Field.ofElems_yields : ∀ {es : List Tree.InterfaceElem},
    (∀ e ∈ es, ∀ T ∈ e.types, Converts text E R T) →
    Yields E (fun p => Field.Refer R p.1) (Field.ofElems text es)
  | [], _ => .ok nofun
  | e :: es, h => by
    obtain ⟨hfirst, hrest⟩ := List.forall_mem_cons.1 h
    rw [Field.ofElems]
    exact (Field.ofElem_yields hfirst).bind fun x hx =>
      (Field.ofElems_yields hrest).map fun _ hmore => hx.append hmore

/-! ## Types -/

/-- The name or the length of the type itself converts as wanted. -/
def ConvertsHere (text : List Char) (E : ConvertError → Prop) (R : Reference → Prop) :
    Tree.TypeExpr → Prop
  | .named _ pkg name _ => Yields E (·.Refers R) (Shape.ofName pkg name)
  | .array _ length _ => Yields E (fun _ => True) (ArraySize.ofLength text length)
  | _ => True

/-- **Types convert as their names and lengths do.** -/
theorem Shape.ofType_yields {T : Tree.TypeExpr} (hT : T.Everywhere (ConvertsHere text E R)) :
    Converts text E R T := by
  induction hT with
  | @intro T here _ ih =>
    unfold Converts
    cases T with
    | named _ pkg name args =>
      rw [Shape.ofType]
      split
      · exact Yields.map here fun _ => .some
      · exact .ok nofun
    | pointer _ _ elem =>
      rw [Shape.ofType]
      exact (ih elem (List.mem_singleton_self elem)).map fun _ h => h.map fun _ h' => h'
    | array _ length elem =>
      rw [Shape.ofType]
      refine (ih elem (List.mem_singleton_self elem)).bind fun s hs => ?_
      cases s with
      | none => exact .ok nofun
      | some s => exact Yields.map here fun _ _ => .some (hs s rfl)
    | slice _ elem =>
      rw [Shape.ofType]
      exact (ih elem (List.mem_singleton_self elem)).map fun _ h => h.map fun _ h' => h'
    | map _ key value =>
      obtain ⟨hkey, hvalue⟩ := List.forall_mem_cons.1 ih
      rw [Shape.ofType]
      refine hkey.bind fun k hk => (List.forall_mem_singleton.1 hvalue).map fun v hv => ?_
      cases k with
      | none => exact nofun
      | some k => exact hv.map fun v hv' => List.forall_mem_append.2 ⟨hk k rfl, hv'⟩
    | chan _ _ elem =>
      rw [Shape.ofType]
      exact (ih elem (List.mem_singleton_self elem)).map fun _ h => h.map fun _ h' => h'
    | struct _ fields =>
      rw [Shape.ofType]
      exact (Field.ofFields_yields (List.forall_mem_map.1 ih)).map fun _ h => .some h.referencesOf
    | interface _ elems =>
      rw [Shape.ofType]
      exact (Field.ofElems_yields (List.forall_mem_flatMap.1 ih)).map fun _ h =>
        .some h.referencesOf
    | func _ sig =>
      rw [Shape.ofType]
      exact (Shape.ofSignature_yields (.ok nofun) ih).map fun _ => .some
    | paren _ inner =>
      rw [Shape.ofType]
      exact ih inner (List.mem_singleton_self inner)

/-! ## Declarations -/

theorem Field.ofTypeParams_yields : ∀ {ps : List Tree.TypeParam},
    (∀ p ∈ ps, ∀ t ∈ p.constraint, Converts text E R t.type) →
    Yields E (Field.Refer R) (Field.ofTypeParams text ps)
  | [], _ => .ok nofun
  | p :: ps, h => by
    obtain ⟨hfirst, hrest⟩ := List.forall_mem_cons.1 h
    rw [Field.ofTypeParams]
    refine Yields.bind (P := fun x => Field.Refer R x.toList) ?_ fun x hx =>
      (Field.ofTypeParams_yields hrest).map fun _ hmore => hx.append hmore
    split
    · next x hx =>
      exact (Shape.ofSoleTerm_yields hfirst hx).map fun s hs => .toList hs fun _ => rfl
    · exact .ok nofun

/-- The types of the declared type convert as wanted, constraints included. -/
structure SpecConverts (text : List Char) (E : ConvertError → Prop) (R : Reference → Prop)
    (spec : Tree.TypeSpec) : Prop where
  type : spec.type.Everywhere (ConvertsHere text E R)
  typeParams : ∀ ps ∈ spec.typeParams, ∀ p ∈ ps.params, ∀ t ∈ p.constraint,
    t.type.Everywhere (ConvertsHere text E R)

theorem Shape.ofSpec_yields {spec : Tree.TypeSpec} (h : SpecConverts text E R spec) :
    Yields E (RefersIfAny R) (Shape.ofSpec text spec) := by
  rw [Shape.ofSpec]
  split
  · next sig htype =>
    have hsig : ∀ T ∈ sig.types, Converts text E R T := by
      obtain ⟨-, below⟩ := htype ▸ h.type
      exact fun T hT => Shape.ofType_yields (below T hT)
    refine (Shape.ofSignature_yields ?_ hsig).map fun _ => .some
    cases hps : spec.typeParams with
    | none => exact .ok nofun
    | some ps =>
      exact Field.ofTypeParams_yields fun p hp t ht =>
        Shape.ofType_yields (h.typeParams ps hps p hp t ht)
  · exact Shape.ofType_yields h.type

/-- The declarations of a file convert as the types in them do. -/
theorem Declaration.ofSpecs_yields (file : Tree.SourceFile) (filename : String) :
    ∀ {specs : List (Tree.DeclHead × Tree.TypeSpec)},
    (∀ p ∈ specs, SpecConverts text E R p.2) →
    Yields (fun e => ∃ name cause, e = .badDeclaration name filename cause ∧ E cause)
      (fun ds => ∀ d ∈ ds, ∀ r ∈ d.references, R r) (Declaration.ofSpecs file text filename specs)
  | [], _ => .ok nofun
  | (head, spec) :: specs, h => by
    obtain ⟨hfirst, hrest⟩ := List.forall_mem_cons.1 h
    rw [Declaration.ofSpecs]
    refine Yields.bind (P := fun d => ∀ d' ∈ d, ∀ r ∈ d'.references, R r) ?_ fun d hd => ?_
    · rw [Declaration.ofSpec]
      split
      · exact .ok nofun
      · have hspec := Shape.ofSpec_yields hfirst
        split
        · next cause hcause =>
          rw [hcause] at hspec
          exact .error ⟨_, cause, rfl, hspec⟩
        · next shape hshape =>
          rw [hshape] at hspec
          refine .ok fun d hd => ?_
          obtain ⟨s, rfl, rfl⟩ := Option.map_eq_some_iff.1 hd
          exact hspec s rfl
    · refine (Declaration.ofSpecs_yields file filename hrest).map fun ds hds d' hd' => ?_
      rcases List.mem_append.1 hd' with h | h
      · exact hd d' (Option.mem_toList.1 h)
      · exact hds d' h

/-! ## Units -/

namespace SourceUnit

variable {text filename : String} {module : Module} {u : SourceUnit} {file : Tree.SourceFile}

/-- A unit of a tree has the imports and declarations of the tree. -/
theorem eq_of_ofTree (h : ofTree file text filename module = .ok u) :
    ∃ imports, (importSpecs file).mapM (Import.ofSpec text.toList) = .ok imports ∧
      Declaration.ofSpecs file text.toList filename (typeSpecs file) = .ok u.declarations ∧
      u = ⟨module, filename, file.package, imports, u.declarations, text⟩ := by
  rw [ofTree] at h
  split at h
  · cases h
  · next imports himports =>
    cases hds : Declaration.ofSpecs file text.toList filename (typeSpecs file) with
    | error e =>
      rw [hds] at h
      cases h
    | ok ds =>
      rw [hds] at h
      cases h
      exact ⟨imports, himports, rfl, rfl⟩

/-- A unit of a text is the unit of the tree of the text. -/
theorem ofTree_of_ofText (h : ofText text filename module = .ok u) :
    ∃ file, Tree.SourceFile.ofText text.toList = .ok file ∧
      ofTree file text filename module = .ok u := by
  rw [ofText] at h
  split at h
  · cases h
  · next file hfile => exact ⟨file, hfile, h⟩

theorem file_of_ofText (h : ofText text filename module = .ok u) :
    ∃ file, Tree.SourceFile.ofText text.toList = .ok file ∧ u.module = module ∧
      Declaration.ofSpecs file text.toList filename (typeSpecs file) = .ok u.declarations := by
  obtain ⟨file, hfile, htree⟩ := ofTree_of_ofText h
  obtain ⟨_, -, hspecs, hu⟩ := eq_of_ofTree htree
  exact ⟨file, hfile, congrArg SourceUnit.module hu, hspecs⟩

/-- A unit keeps the text it is of. -/
theorem text_of_ofText (h : ofText text filename module = .ok u) : u.text = text := by
  obtain ⟨_, -, htree⟩ := ofTree_of_ofText h
  obtain ⟨_, -, -, hu⟩ := eq_of_ofTree htree
  exact congrArg SourceUnit.text hu

end SourceUnit

end GoDecls.Model
