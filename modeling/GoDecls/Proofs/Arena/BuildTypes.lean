/-
  Types are read into a store as they are read without one (`typeIn_builds`).

  There is one lemma for each reader of the grammar of types.  They call each other
  as the readers do, on the same cursors, and so they end for the same reason.  What
  a reader has to hold while others go on is carried along by `StandsFor.later`.
-/
import GoDecls.Proofs.Arena.Builds
import Mathlib.Data.List.Forall2

namespace GoDecls

open Tree Arena Store

/-! ## What the readers of types lay down -/

namespace Arena

variable {s : Store} {L : Ledger s} {α β γ : Type}

theorem bind_map_eq {o : Option α} {p : Option β} {f : α → β → γ} {a : α} {b : β}
    (h : o = some a) (h' : p = some b) : (o.bind fun a => p.map (f a)) = some (f a b) := by
  rw [h, h']; rfl

theorem stands_names (names : List Ident) : StandsFor L names names := by
  induction names with
  | nil => exact .nil
  | cons name names ih =>
    exact .cons ⟨List.forall_mem_nil _, rfl⟩ ih

/-- Names stand for themselves. -/
theorem list?_of_stands {r : ListRef .idents} {names : List Ident} (h : StandsFor L r names) :
    s.list? r = some names := by
  obtain ⟨items, hitems, hnames⟩ := Option.bind_eq_some_iff.1 h.read
  rw [hitems]
  exact (stands_names (L := L) items).read.symm.trans hnames

/-- A type is laid down where all that it holds stands. -/
theorem lays_type {node : TypeNode} {start : Nat} {d : Cursor} {a : TypeExpr}
    (h : ∀ cell ∈ node.cells, L.Has cell)
    (hr : s.typeOf? s.value? node (d.spanFrom start) = some a) :
    Lays L a (storeType node start d s) := lays_alloc (k := .type) h hr

theorem lays_names (names : List Ident) : Lays L names (s.push (b := .idents) names) :=
  lays_push (b := .idents) (stands_names names)

theorem lays_length (length : ArrayLength) : Lays L length (storeLength length s) := by
  cases length with
  | ellipsis span =>
    exact StandsFor.lays ⟨List.forall_mem_nil _, rfl⟩
  | expr span e =>
    have h : Lays L (ArrayLength.expr span e) (s.alloc (k := .expr) e span) :=
      lays_alloc (k := .expr) (List.forall_mem_nil _) rfl
    exact h.andThen fun _ _ expr => StandsFor.lays ⟨expr.has, expr.read⟩

theorem lays_field {names : ListRef .idents} {ns : List Ident} {type : NodeId .type}
    {T : TypeExpr} {span : Span} {ellipsis tag : Option Span} {embedded : Bool}
    (hn : StandsFor L names ns) (ht : StandsFor L type T) :
    Lays L (Tree.Field.mk span ns ellipsis T tag embedded)
      (s.alloc (k := .field) ⟨names, ellipsis, type, tag, embedded⟩ span) := by
  refine lays_alloc (k := .field) ?_ ?_
  · exact List.forall_mem_cons.2 ⟨hn.has _ (List.mem_singleton_self _), ht.has⟩
  · exact bind_map_eq (list?_of_stands hn) ht.read

theorem lays_signature {params : FieldsRef} {ps : FieldList} {results : ResultsRef} {rs : Results}
    {span : Span} (hp : StandsFor L params ps) (hr : StandsFor L results rs) :
    Lays L (Tree.Signature.mk span ps rs) (s.alloc (k := .signature) ⟨params, results⟩ span) := by
  refine lays_alloc (k := .signature) ?_ ?_
  · exact List.forall_mem_append.2 ⟨hp.has, hr.has⟩
  · exact bind_map_eq hp.read hr.read

theorem stands_fields {r : ListRef .fields} {fields : List Field} {lparen rparen : Span}
    (h : StandsFor L r fields) :
    StandsFor L (FieldsRef.mk lparen r rparen) (FieldList.mk lparen fields rparen) := by
  refine ⟨h.has, ?_⟩
  change (s.listOf? r).map _ = _
  rw [show s.listOf? r = some fields from h.read]
  rfl

theorem stands_none : StandsFor L ResultsRef.none Results.none := ⟨List.forall_mem_nil _, rfl⟩

theorem stands_single {type : NodeId .type} {T : TypeExpr} (h : StandsFor L type T) :
    StandsFor L (ResultsRef.single type) (Results.single T) :=
  ⟨h.has, congrArg (Option.map _) h.read⟩

theorem stands_list {fields : FieldsRef} {fs : FieldList} (h : StandsFor L fields fs) :
    StandsFor L (ResultsRef.list fields) (Results.list fs) :=
  ⟨h.has, congrArg (Option.map _) h.read⟩

theorem stands_span {span : Span} : StandsFor L span span := ⟨List.forall_mem_nil _, rfl⟩

theorem stands_span? {span : Option Span} : StandsFor L span span := ⟨List.forall_mem_nil _, rfl⟩

/-! ## Lists of parameters and results -/

namespace Entry

theorem eq_of_stands_bare {name : Ident} {p : Param} (h : StandsFor L (Entry.bare name) p) :
    p = .bare name := (Option.some.inj h.read).symm

theorem of_stands_typed {span : Span} {name : Option Ident} {ellipsis : Option Span}
    {type : NodeId .type} {p : Param} (h : StandsFor L (Entry.typed span name ellipsis type) p) :
    ∃ T, p = .typed span name ellipsis T ∧ StandsFor L type T := by
  obtain ⟨T, hT, rfl⟩ := Option.map_eq_some_iff.1 h.read
  exact ⟨T, rfl, h.has, hT⟩

theorem stands_typed {span : Span} {name : Option Ident} {ellipsis e : Option Span}
    {type : NodeId .type} {T : TypeExpr} (he : StandsFor L ellipsis e) (h : StandsFor L type T) :
    StandsFor L (Entry.typed span name ellipsis type) (Param.typed span name e T) := by
  obtain rfl := Option.some.inj he.read
  exact ⟨h.has, congrArg (Option.map _) h.read⟩

theorem isNamed_of_stands {e : Entry} {p : Param} (h : StandsFor L e p) :
    e.isNamed = p.isNamed := by
  cases e with
  | bare name => obtain rfl := eq_of_stands_bare h; rfl
  | typed span name ellipsis type =>
    obtain ⟨T, rfl, -⟩ := of_stands_typed h
    cases name <;> rfl

theorem any_isNamed {es : List Entry} {ps : List Param} (h : List.Forall₂ (StandsFor L) es ps) :
    es.any isNamed = ps.any Param.isNamed := by
  induction h with
  | nil => rfl
  | cons he _ ih => rw [List.any_cons, List.any_cons, isNamed_of_stands he, ih]

theorem lays_storeAnonymous {e : Entry} {p : Param} (h : StandsFor L e p) :
    Lays L p.toAnonymous (e.storeAnonymous s) := by
  cases e with
  | bare name =>
    obtain rfl := eq_of_stands_bare h
    have hargs : Lays L [] (ListRef.empty, s) := lays_empty (b := .types)
    have htype : Lays L (TypeExpr.named name.span none name [])
        (s.alloc (k := .type) (.named none name .empty) name.span) :=
      hargs.andThen fun _ _ args =>
        lays_alloc (k := .type) args.has (congrArg (Option.map _) args.read)
    exact htype.andThen fun _ _ type => (lays_empty (b := .idents)).andThen fun _ g names =>
      lays_field names (type.later g)
  | typed span name ellipsis type =>
    obtain ⟨T, rfl, type⟩ := of_stands_typed h
    exact (lays_empty (b := .idents)).andThen fun _ g names => lays_field names (type.later g)

/-- Fields are stored as they are made, or refused for the same reason. -/
inductive Resolves (L : Ledger s) :
    Except Diagnostic (List (NodeId .field) × Store) → Except Diagnostic (List Field) → Prop
  | ok {r : List (NodeId .field) × Store} {fields : List Field} (h : Lays L fields r) :
      Resolves L (.ok r) (.ok fields)
  | error {f : Diagnostic} : Resolves L (.error f) (.error f)

theorem Resolves.cons {r : NodeId .field × Store} {field : Field}
    {o : Except Diagnostic (List (NodeId .field) × Store)} {p : Except Diagnostic (List Field)}
    (h : Lays L field r) (hrest : ∀ L' : Ledger r.2, L.Grows L' → Resolves L' o p) :
    Resolves L (o.map fun more => (r.1 :: more.1, more.2)) (p.map (field :: ·)) := by
  obtain ⟨L', g, first⟩ := h
  cases hrest L' g with
  | ok hmore =>
    obtain ⟨L'', g', more⟩ := hmore
    exact .ok ⟨L'', g.trans g', (first.later g').cons more⟩
  | error => exact .error

theorem resolves_storeNamed {es : List Entry} {ps : List Param}
    (h : List.Forall₂ (StandsFor L) es ps) (pending : List Ident) :
    Resolves L (storeNamed pending es s) (Param.toNamed pending ps) := by
  induction es generalizing s ps pending with
  | nil =>
    cases h
    rw [storeNamed, Param.toNamed]
    cases pending.getLast? with
    | none => exact .ok StandsFor.nil.lays
    | some name => exact .error
  | cons e es ih =>
    cases h with
    | @cons _ p _ ps he hes =>
    cases e with
    | bare name =>
      obtain rfl := eq_of_stands_bare he
      exact ih hes _
    | typed span name ellipsis type =>
      obtain ⟨T, rfl, ht⟩ := of_stands_typed he
      refine .cons ((lays_names _).andThen fun _ g names => lays_field names (ht.later g)) ?_
      exact fun L' g => ih (hes.imp fun _ _ h => h.later g) []

/-- The fields of a list. -/
theorem resolves_storeFields {es : List Entry} {ps : List Param} (h : StandsFor L es ps) :
    Resolves L (storeFields es s) (Param.toFields ps) := by
  have h := h.forall₂
  rw [storeFields, Param.toFields, any_isNamed h]
  split
  · exact resolves_storeNamed h []
  · refine .ok (lays_storeAll (List.forall₂_map_right_iff.2 (h.imp ?_)) (.refl L))
    intro e p he t L' g
    exact lays_storeAnonymous (he.later g)

end Entry

end Arena

/-! ## The readers -/

namespace Tree.Cursor

open Arena.Builds

mutual

theorem typeIn_builds (c : Cursor) {s : Store} (L : Ledger s) : Builds L (c.typeIn s) c.type := by
  rw [typeIn, type]
  generalize ht : c.token? = t
  split
  · exact namedTypeIn_builds c L
  · exact (arrayTypeIn_builds c.advance L _).lift _
  · refine ((sameBind _ fun _ d _ => structFieldsIn_builds d L).lift _).map
      fun fields _ e _ _ hfields => ?_
    exact (lays_push (b := .fields) hfields).andThen fun _ _ list =>
      lays_type list.has (congrArg (Option.map _) list.read)
  · refine ((sameBind _ fun _ d _ => interfaceElemsIn_builds d L).lift _).map
      fun elems _ e _ _ helems => ?_
    exact (lays_push (b := .elems) helems).andThen fun _ _ list =>
      lays_type list.has (congrArg (Option.map _) list.read)
  · exact ((typeIn_builds c.advance L).lift _).map fun elem _ d _ _ helem =>
      lays_type helem.has (congrArg (Option.map _) helem.read)
  · refine Builds.lift (sameBind _ fun _ d _ => ?_) _
    refine (typeIn_builds d L).bind fun key _ e _ L _ hkey => sameBind _ fun _ f _ => ?_
    refine (typeIn_builds f L).map fun value _ _ _ g hvalue => ?_
    have hkey := hkey.later g
    exact lays_type (List.forall_mem_cons.2 ⟨hkey.has _ (List.mem_singleton_self _), hvalue.has⟩)
      (bind_map_eq hkey.read hvalue.read)
  · change Builds L (if _ then _ else _) (if _ then _ else _)
    split
    · exact ((typeIn_builds c.advance.advance L).lift _).map fun elem _ d _ _ helem =>
        lays_type helem.has (congrArg (Option.map _) helem.read)
    · exact ((typeIn_builds c.advance L).lift _).map fun elem _ d _ _ helem =>
        lays_type helem.has (congrArg (Option.map _) helem.read)
  · refine Builds.lift (sameBind _ fun _ d _ => ?_) _
    exact (typeIn_builds d L).map fun elem _ e _ _ helem =>
      lays_type helem.has (congrArg (Option.map _) helem.read)
  · exact ((signatureIn_builds c.advance L _).lift _).map fun sig _ d _ _ hsig =>
      lays_type hsig.has (congrArg (Option.map _) hsig.read)
  · refine Builds.lift ((typeIn_builds c.advance L).bind fun inner _ d _ L _ hinner => ?_) _
    exact sameMap _ fun _ e =>
      lays_type hinner.has (congrArg (Option.map _) hinner.read)
  -- both read the token for themselves: cases in which they differ are none
  · (try split) <;> first | exact Builds.fails | simp_all
termination_by 6 * c.left + 1
decreasing_by
  all_goals first | omega | (have h := left_pos ‹_›; simp only [left_advance] at *; omega)

theorem namedTypeIn_builds (c : Cursor) {s : Store} (L : Ledger s) :
    Builds L (c.namedTypeIn s) c.namedType := by
  rw [namedTypeIn, namedType]
  refine sameThen _ fun name d m => ?_
  split
  · refine (((typeArgsIn_builds d.advance L).lift _).after _).map fun args _ e _ _ hargs => ?_
    exact (lays_push (b := .types) hargs).andThen fun _ _ list =>
      lays_type list.has (congrArg (Option.map _) list.read)
  · exact .ok ((lays_empty (b := .types)).andThen fun _ _ args =>
      lays_type args.has (congrArg (Option.map _) args.read))
termination_by 6 * c.left + 0
decreasing_by rw [left_advance]; omega

theorem typeArgsIn_builds (c : Cursor) {s : Store} (L : Ledger s) :
    Builds L (c.typeArgsIn s) c.typeArgs := by
  rw [typeArgsIn, typeArgs]
  split
  · exact .ok StandsFor.nil.lays
  · refine (typeIn_builds c L).bind fun arg _ d _ L _ harg => ?_
    split
    · exact ((typeArgsIn_builds d.advance L).lift _).map fun args _ _ _ g hargs =>
        ((harg.later g).cons hargs).lays
    · exact sameMap _ fun _ _ => (harg.cons .nil).lays
termination_by 6 * c.left + 2
decreasing_by all_goals first | omega | (rw [left_advance]; omega)

theorem arrayTypeIn_builds (c : Cursor) {s : Store} (L : Ledger s) (start : Nat) :
    Builds L (c.arrayTypeIn start s) (c.arrayType start) := by
  rw [arrayTypeIn, arrayType]
  split
  · exact ((typeIn_builds c.advance L).lift _).map fun elem _ d _ _ helem =>
      lays_type helem.has (congrArg (Option.map _) helem.read)
  · split
    · next h =>
      have ht := h.1
      exact (arrayElemIn_builds c.advance L start (lays_length (.ellipsis c.span))).lift _
    · exact sameBind _ fun length d _ => arrayElemIn_builds d L start (lays_length length)
termination_by 6 * c.left + 1
decreasing_by all_goals first | omega | (have h := left_pos ‹_›; rw [left_advance]; omega)

theorem arrayElemIn_builds (c : Cursor) {s : Store} (L : Ledger s) (start : Nat)
    {length : ArrayLength}
    {r : LengthRef × Store} (h : Lays L length r) :
    Builds L (c.arrayElemIn start r.1 r.2) (c.arrayElem start length) := by
  rw [arrayElemIn, arrayElem]
  refine sameBind _ fun _ d _ => h.builds fun L _ hlength => ?_
  refine (typeIn_builds d L).map fun elem _ _ _ g helem => ?_
  have hlength := hlength.later g
  exact lays_type (List.forall_mem_cons.2 ⟨helem.has _ (List.mem_singleton_self _), hlength.has⟩)
    (bind_map_eq hlength.read helem.read)
termination_by 6 * c.left + 0
decreasing_by omega

theorem structFieldsIn_builds (c : Cursor) {s : Store} (L : Ledger s) :
    Builds L (c.structFieldsIn s) c.structFields := by
  rw [structFields]
  split <;> rw [structFieldsIn] <;> split <;> try (simp_all; done)
  · exact Builds.fails
  · exact .ok StandsFor.nil.lays
  · exact (structFieldsIn_builds c.advance L).lift _
  · refine (fieldIn_builds c L).bind fun field _ d _ L _ hfield => ?_
    split
    · exact (structFieldsIn_builds d L).map fun fields _ _ _ g hfields =>
        ((hfield.later g).cons hfields).lays
    · refine sameBind _ fun _ e _ => ?_
      exact (structFieldsIn_builds e L).map fun fields _ _ _ g hfields =>
        ((hfield.later g).cons hfields).lays
termination_by 6 * c.left + 3
decreasing_by all_goals first | omega | (have h := left_pos ‹_›; rw [left_advance]; omega)

theorem fieldIn_builds (c : Cursor) {s : Store} (L : Ledger s) :
    Builds L (c.fieldIn s) c.field := by
  rw [fieldIn, field]
  match c.embedsField? with
  | none => exact Builds.fails
  | some true =>
    refine (typeIn_builds c L).andThen fun type _ d m L _ htype => .ok ?_
    exact (lays_empty (b := .idents)).andThen fun _ g names => lays_field names (htype.later g)
  | some false =>
    refine sameBind _ fun names d _ => (lays_names names).builds fun L _ hnames => ?_
    exact (typeIn_builds d _).andThen fun type _ e m L g htype =>
      .ok (lays_field (hnames.later g) htype)
termination_by 6 * c.left + 2
decreasing_by all_goals omega

theorem interfaceElemsIn_builds (c : Cursor) {s : Store} (L : Ledger s) :
    Builds L (c.interfaceElemsIn s) c.interfaceElems := by
  rw [interfaceElems]
  split <;> rw [interfaceElemsIn] <;> split <;> try (simp_all; done)
  · exact Builds.fails
  · exact .ok StandsFor.nil.lays
  · exact (interfaceElemsIn_builds c.advance L).lift _
  · refine (interfaceElemIn_builds c L).bind fun elem _ d _ L _ helem => ?_
    split
    · exact (interfaceElemsIn_builds d L).map fun elems _ _ _ g helems =>
        ((helem.later g).cons helems).lays
    · refine sameBind _ fun _ e _ => ?_
      exact (interfaceElemsIn_builds e L).map fun elems _ _ _ g helems =>
        ((helem.later g).cons helems).lays
termination_by 6 * c.left + 5
decreasing_by all_goals first | omega | (have h := left_pos ‹_›; rw [left_advance]; omega)

theorem interfaceElemIn_builds (c : Cursor) {s : Store} (L : Ledger s) :
    Builds L (c.interfaceElemIn s) c.interfaceElem := by
  rw [interfaceElemIn, interfaceElem]
  split
  · refine sameBind _ fun name d _ => (signatureIn_builds d L _).map fun sig _ _ _ _ hsig => ?_
    exact StandsFor.lays ⟨hsig.has, congrArg (Option.map _) hsig.read⟩
  · refine (unionIn_builds c L).map fun terms _ _ _ _ hterms => ?_
    exact (lays_push (b := .terms) hterms).andThen fun _ _ list =>
      StandsFor.lays ⟨list.has, congrArg (Option.map _) list.read⟩
termination_by 6 * c.left + 4
decreasing_by all_goals omega

theorem unionIn_builds (c : Cursor) {s : Store} (L : Ledger s) :
    Builds L (c.unionIn s) c.union := by
  rw [unionIn, union]
  refine (termIn_builds c L).andThen fun term _ d m L _ hterm => ?_
  split
  · exact (((unionIn_builds d.advance L).lift _).after _).map fun terms _ _ _ g hterms =>
      ((hterm.later g).cons hterms).lays
  · exact .ok (hterm.cons .nil).lays
termination_by 6 * c.left + 3
decreasing_by all_goals first | omega | (rw [left_advance]; omega)

theorem termIn_builds (c : Cursor) {s : Store} (L : Ledger s) : Builds L (c.termIn s) c.term := by
  rw [termIn, term]
  split
  · exact ((typeIn_builds c.advance L).lift _).map fun type _ _ _ _ htype =>
      StandsFor.lays ⟨htype.has, congrArg (Option.map _) htype.read⟩
  · exact (typeIn_builds c L).map fun type _ _ _ _ htype =>
      StandsFor.lays ⟨htype.has, congrArg (Option.map _) htype.read⟩
termination_by 6 * c.left + 2
decreasing_by all_goals first | omega | (have h := left_pos ‹_›; rw [left_advance]; omega)

theorem signatureIn_builds (c : Cursor) {s : Store} (L : Ledger s) (start : Nat) :
    Builds L (c.signatureIn start s) (c.signature start) := by
  rw [signatureIn, signature]
  refine (fieldListIn_builds c L).andThen fun params _ d m L _ hparams => ?_
  split
  · exact ((fieldListIn_builds d L).after _).map fun results _ _ _ g hresults =>
      lays_signature (hparams.later g) (stands_list hresults)
  · split
    · exact ((typeIn_builds d L).after _).map fun result _ _ _ g hresult =>
        lays_signature (hparams.later g) (stands_single hresult)
    · exact .ok (lays_signature hparams stands_none)
termination_by 6 * c.left + 1
decreasing_by all_goals omega

theorem fieldListIn_builds (c : Cursor) {s : Store} (L : Ledger s) :
    Builds L (c.fieldListIn s) c.fieldList := by
  rw [fieldListIn, fieldList]
  refine sameBind _ fun lparen d _ => ?_
  refine (paramsIn_builds d L).andThen fun entries ps e m L _ hentries => ?_
  have hrparen : entries.1.2 = ps.2 := Option.some.inj hentries.snd.read
  rw [hrparen]
  have hfields := Entry.resolves_storeFields hentries.fst
  generalize Entry.storeFields entries.1.1 entries.2 = x at hfields ⊢
  generalize Param.toFields ps.1 = y at hfields ⊢
  cases hfields with
  | ok hfields =>
    refine Builds.ok (hfields.andThen fun _ _ fields => ?_)
    exact (lays_push (b := .fields) fields).andThen fun _ _ list => (stands_fields list).lays
  | error => exact Builds.error
termination_by 6 * c.left + 0
decreasing_by omega

theorem paramsIn_builds (c : Cursor) {s : Store} (L : Ledger s) :
    Builds L (c.paramsIn s) c.params := by
  rw [paramsIn, params]
  split
  · exact .ok (StandsFor.nil.pair stands_span).lays
  · refine (paramIn_builds c L).bind fun entry _ d _ L _ hentry => ?_
    split
    · exact ((paramsIn_builds d.advance L).lift _).map fun more _ _ _ g hmore =>
        (((hentry.later g).cons hmore.fst).pair hmore.snd).lays
    · exact sameMap _ fun _ _ => ((hentry.cons .nil).pair stands_span).lays
termination_by 6 * c.left + 4
decreasing_by all_goals first | omega | (rw [left_advance]; omega)

theorem paramIn_builds (c : Cursor) {s : Store} (L : Ledger s) :
    Builds L (c.paramIn s) c.param := by
  rw [paramIn, param]
  split
  · refine sameMap _ fun name _ => StandsFor.lays ⟨List.forall_mem_nil _, rfl⟩
  · split
    · refine sameBind _ fun name d _ => (paramTypeIn_builds d L).map fun type _ _ _ _ htype => ?_
      exact (Entry.stands_typed htype.fst htype.snd).lays
    · exact (paramTypeIn_builds c L).map fun type _ _ _ _ htype =>
        (Entry.stands_typed htype.fst htype.snd).lays
termination_by 6 * c.left + 3
decreasing_by all_goals omega

theorem paramTypeIn_builds (c : Cursor) {s : Store} (L : Ledger s) :
    Builds L (c.paramTypeIn s) c.paramType := by
  rw [paramTypeIn, paramType]
  split
  · exact ((typeIn_builds c.advance L).lift _).map fun type _ _ _ _ htype =>
      (stands_span?.pair htype).lays
  · exact (typeIn_builds c L).map fun type _ _ _ _ htype => (stands_span?.pair htype).lays
termination_by 6 * c.left + 2
decreasing_by all_goals first | omega | (have h := left_pos ‹_›; rw [left_advance]; omega)

end

end Tree.Cursor

end GoDecls
