/-
  Declarations are read into a store as they are read without one
  (`declsIn_builds`).

  The comment groups stand there first, and the number of a group is its place
  (`Notes.Laid`); so a doc comment that is held by its id reads back as the number
  that the layout of the text gives it.
-/
import GoDecls.Proofs.Arena.BuildTypes

namespace GoDecls

open Tree Arena Store

/-! ## Comment groups -/

/-- The number that documents a position is that of a group. -/
theorem Layout.docFor?_lt {l : Layout} {pos i : Nat} (h : l.docFor? pos = some i) :
    i < l.groups.length := by
  unfold docFor? at h
  split at h
  · cases h
  · next g j hj =>
    split at h
    · cases h
      have := List.mem_of_mem_filter (List.mem_of_getLast? hj)
      exact (List.mem_zipIdx' this).1
    · cases h

/-- The number that trails a position is that of a group. -/
theorem Layout.lineCommentAfter?_lt {l : Layout} {pos i : Nat}
    (h : l.lineCommentAfter? pos = some i) : i < l.groups.length := by
  unfold lineCommentAfter? at h
  split at h
  · cases h
  · next g j hj =>
    split at h
    · cases h
      exact (List.mem_zipIdx' (List.mem_of_find?_eq_some hj)).1
    · cases h

namespace Arena

variable {s t : Store} {L : Ledger s} {L' : Ledger t} {notes : Notes}

theorem lays_storeComment (c : Comment) : Lays L c (storeComment c s) :=
  lays_alloc (k := .comment) (List.forall_mem_nil _) rfl

theorem lays_storeGroup (g : CommentGroup) : Lays L (g.comments, g.span) (storeGroup g s) := by
  have hids : Lays L g.comments (storeAll storeComment g.comments s) :=
    lays_storeAll (List.forall₂_same.2 fun c _ _ L' _ => lays_storeComment c) (.refl L)
  refine hids.andThen fun _ _ ids => (lays_push (b := .comments) ids).andThen fun _ _ list => ?_
  exact lays_alloc (k := .group) list.has (congrArg (Option.map _) list.read)

/-- The comments of a group are no groups. -/
theorem groups_storeComments (cs : List Comment) (s : Store) :
    (storeAll storeComment cs s).2.nodes .group = s.nodes .group := by
  induction cs generalizing s with
  | nil => rfl
  | cons c cs ih =>
    refine (ih _).trans ?_
    simp [storeComment, alloc, Function.update]

/-- Groups are added one behind the other. -/
theorem place_storeGroups {gs : List CommentGroup} {i : Nat} {id : NodeId .group}
    (h : (storeAll storeGroup gs s).1[i]? = some id) :
    id.place = (s.nodes .group).length + i := by
  induction gs generalizing s i with
  | nil => cases h
  | cons g gs ih =>
    cases i with
    | zero =>
      obtain rfl := Option.some.inj h
      simp [storeGroup, alloc, push, groups_storeComments]
    | succ i =>
      have hlen : ((storeGroup g s).2.nodes .group).length = (s.nodes .group).length + 1 := by
        simp [storeGroup, alloc, push, groups_storeComments]
      rw [ih (s := (storeGroup g s).2) h, hlen]
      omega

/-- The groups of the layout stand in the store, and the number of each is its
    place. -/
structure Notes.Laid (L : Ledger s) (n : Notes) : Prop where
  complete : n.ids.length = n.layout.groups.length
  ids : ∀ {i id}, n.ids[i]? = some id → id.place = i ∧ L.Has (.node id)

/-- The groups of a layout are laid down for themselves. -/
theorem lays_storeGroups (gs : List CommentGroup) :
    Lays L (gs.map fun g => (g.comments, g.span)) (storeAll storeGroup gs s) := by
  refine lays_storeAll (List.forall₂_map_right_iff.2 ?_) (.refl L)
  exact List.forall₂_same.2 fun g _ _ L' _ => lays_storeGroup g

/-- So they are before any declaration is read. -/
theorem laid_storeGroups {layout : Layout}
    {L : Ledger (storeAll storeGroup layout.groups .empty).2}
    (groups : StandsFor L (storeAll storeGroup layout.groups .empty).1
      (layout.groups.map fun g => (g.comments, g.span))) :
    Notes.Laid L ⟨layout, (storeAll storeGroup layout.groups .empty).1⟩ := by
  refine ⟨by simpa using groups.forall₂.length_eq, fun hi => ⟨?_, ?_⟩⟩
  · rw [place_storeGroups hi]
    exact Nat.zero_add _
  · exact groups.has _ (List.mem_flatMap.2
      ⟨_, List.mem_of_getElem? hi, List.mem_singleton_self _⟩)

theorem Notes.Laid.later (h : notes.Laid L) (g : L.Grows L') : notes.Laid L' :=
  ⟨h.complete, fun hi => ⟨(h.ids hi).1, (h.ids hi).2.later g⟩⟩

/-- The number of a group of the layout, as an id. -/
theorem Notes.Laid.stands (h : notes.Laid L) {o : Option Nat}
    (ho : ∀ i ∈ o, i < notes.layout.groups.length) :
    StandsFor L (o.bind fun i => notes.ids[i]?) o := by
  cases o with
  | none => exact ⟨List.forall_mem_nil _, rfl⟩
  | some i =>
    have hi : i < notes.ids.length := h.complete ▸ ho i rfl
    obtain ⟨hplace, hid⟩ := h.ids (List.getElem?_eq_getElem hi)
    rw [Option.bind_some, List.getElem?_eq_getElem hi]
    refine ⟨?_, ?_⟩
    · intro cell hc
      obtain rfl := List.mem_singleton.1 hc
      exact hid
    · have hid : _ < (L.history.store.nodes .group).length := hid
      rw [L.store_eq] at hid
      change (s.node? _).map _ = _
      rw [Store.node?, List.getElem?_eq_getElem hid, Option.map_some, hplace]

theorem Notes.Laid.docFor? (h : notes.Laid L) (pos : Nat) :
    StandsFor L (notes.docFor? pos) (notes.layout.docFor? pos) :=
  h.stands fun _ => Layout.docFor?_lt

theorem Notes.Laid.lineCommentAfter? (h : notes.Laid L) (pos : Nat) :
    StandsFor L (notes.lineCommentAfter? pos) (notes.layout.lineCommentAfter? pos) :=
  h.stands fun _ => Layout.lineCommentAfter?_lt

end Arena

namespace Tree.Cursor

open Arena.Builds

variable {c : Cursor} {s : Store} {L : Ledger s} {notes : Notes}

/-! ## Type parameters -/

theorem typeParamIn_builds (c : Cursor) (L : Ledger s) :
    Builds L (c.typeParamIn s) c.typeParam := by
  unfold typeParamIn typeParam
  refine sameBind _ fun names d _ => (unionIn_builds d L).map fun terms _ e _ _ hterms => ?_
  refine (lays_push (b := .terms) hterms).andThen fun _ _ constraint => ?_
  refine (lays_names names).andThen fun _ g hnames => ?_
  have constraint := constraint.later g
  refine lays_alloc (k := .typeParam) ?_ ?_
  · exact List.forall_mem_cons.2 ⟨hnames.has _ (List.mem_singleton_self _), constraint.has⟩
  · exact bind_map_eq (list?_of_stands hnames) constraint.read

theorem typeParamListIn_builds (c : Cursor) {s : Store} (L : Ledger s) :
    Builds L (c.typeParamListIn s) c.typeParamList := by
  rw [typeParamListIn, typeParamList]
  split
  · exact .ok StandsFor.nil.lays
  · refine (typeParamIn_builds c L).bind fun p _ d m L _ hp => ?_
    split
    · exact ((typeParamListIn_builds d.advance L).lift _).map fun ps _ _ _ g hps =>
        ((hp.later g).cons hps).lays
    · exact sameMap _ fun _ _ => (hp.cons .nil).lays
termination_by c.left
decreasing_by exact Nat.lt_of_le_of_lt d.advance_le m

theorem typeParamsIn_builds (c : Cursor) (L : Ledger s) :
    Builds L (c.typeParamsIn s) c.typeParams := by
  unfold typeParamsIn typeParams
  refine sameBind _ fun _ d _ => (typeParamListIn_builds d L).map fun ps _ e _ _ hps => ?_
  exact (lays_push (b := .typeParams) hps).andThen fun _ _ list =>
    lays_alloc (k := .typeParams) list.has (congrArg (Option.map _) list.read)

/-! ## Specs -/

theorem importSpecIn_builds {id : Option (NodeId .group)} {doc : Option Nat}
    (h : StandsFor L id doc) : Builds L (c.importSpecIn id s) (c.importSpec doc) :=
  sameMap _ fun _ _ => StandsFor.lays ⟨h.has, congrArg (Option.map _) h.read⟩

theorem typeSpecTailIn_builds (hn : notes.Laid L) {id : Option (NodeId .group)}
    {doc : Option Nat} (hdoc : StandsFor L id doc) {name : Ident}
    {ids : Option (NodeId .typeParams)}
    {params : Option TypeParams} (hparams : StandsFor L ids params) :
    Builds L (c.typeSpecTailIn notes id name ids s)
      (c.typeSpecTail notes.layout doc name params) := by
  have item {t : Store} (L' : Ledger t) (g : L.Grows L') {i : NodeId .type} {T : TypeExpr}
      (h : StandsFor L' i T) (stop : Nat) (assign : Option Span) :
      Lays L' (TypeSpec.mk doc (notes.layout.lineCommentAfter? stop) name params assign T)
        (TypeItem.mk id (notes.lineCommentAfter? stop) name ids assign i, t) := by
    have hdoc := hdoc.later g
    have hcomment := (hn.later g).lineCommentAfter? stop
    have hparams := hparams.later g
    refine StandsFor.lays ⟨?_, ?_⟩
    · refine List.forall_mem_cons.2 ⟨h.has _ (List.mem_singleton_self _), ?_⟩
      exact List.forall_mem_append.2
        ⟨List.forall_mem_append.2 ⟨hdoc.has, hcomment.has⟩, hparams.has⟩
    · change ((t.groupNumber? id).bind fun doc => _) = _
      rw [show t.groupNumber? id = some doc from hdoc.read, Option.bind_some,
        show t.groupNumber? _ = some _ from hcomment.read, Option.bind_some]
      exact bind_map_eq hparams.read h.read
  unfold typeSpecTailIn typeSpecTail
  split
  · exact ((typeIn_builds c.advance L).lift _).map fun _ _ _ L' g type => item L' g type _ _
  · exact (typeIn_builds c L).map fun _ _ _ L' g type => item L' g type _ _

theorem typeSpecIn_builds (hn : notes.Laid L) {id : Option (NodeId .group)} {doc : Option Nat}
    (hdoc : StandsFor L id doc) :
    Builds L (c.typeSpecIn notes id s) (c.typeSpec notes.layout doc) := by
  unfold typeSpecIn typeSpec
  refine sameBind _ fun name d _ => ?_
  split
  · refine (typeParamsIn_builds d L).bind fun ps _ e _ _ g hps => ?_
    exact typeSpecTailIn_builds (hn.later g) (hdoc.later g)
      ⟨hps.has, congrArg (Option.map _) hps.read⟩
  · exact typeSpecTailIn_builds hn hdoc ⟨List.forall_mem_nil _, rfl⟩

/-- Specs between parentheses. -/
theorem specsIn_builds {α β : Type} [Stored β α]
    {specIn : (c : Cursor) → Store → Outcome (β × Store) c} {spec : (c : Cursor) → Outcome α c}
    (hspec : ∀ c {t : Store} (L' : Ledger t), L.Grows L' → Builds L' (specIn c t) (spec c))
    (c : Cursor) {t : Store} (L' : Ledger t) (g : L.Grows L') :
    Builds L' (specsIn specIn c t) (specs spec c) := by
  rw [specs]
  split <;> rw [specsIn] <;> split <;> try (simp_all; done)
  · exact Builds.fails
  · exact .ok (StandsFor.nil.pair stands_span).lays
  · exact (specsIn_builds hspec c.advance L' g).lift _
  · refine (hspec c L' g).bind fun item _ d _ L₁ g₁ hitem => ?_
    split
    · exact (specsIn_builds hspec d L₁ (g.trans g₁)).map fun more _ _ _ gm hmore =>
        (((hitem.later gm).cons hmore.fst).pair hmore.snd).lays
    · refine sameBind _ fun _ e _ => ?_
      exact (specsIn_builds hspec e L₁ (g.trans g₁)).map fun more _ _ _ gm hmore =>
        (((hitem.later gm).cons hmore.fst).pair hmore.snd).lays
termination_by c.left
decreasing_by all_goals first | omega | (have h := left_pos ‹_›; rw [left_advance]; omega)

/-! ## Declarations -/

theorem endDecl_builds {α β : Type} [Stored β α] {r : β × Store} {a : α} (h : Lays L a r)
    {d : Cursor} {m : d.left < c.left} : Builds L (endDecl r d m) (endDecl a d m) := by
  unfold endDecl
  split
  · exact .ok h
  · exact .ok h
  · exact Builds.fails.after m

theorem stands_head {id : Option (NodeId .group)} {doc : Option Nat} (h : StandsFor L id doc)
    (keyword : Span) (parens : Option (Span × Span)) :
    StandsFor L (HeadItem.mk id keyword parens) (DeclHead.mk doc keyword parens) :=
  ⟨h.has, congrArg (Option.map _) h.read⟩

/-- A declaration stands where its head and the list of its specs stand. -/
theorem stands_gen {kind : GenKind} {head : HeadItem} {head' : DeclHead} {r : ListRef .specs}
    {specs : List (ImportSpec ⊕ TypeSpec)} {d : Decl} (hh : StandsFor L head head')
    (hr : StandsFor L r specs) (hd : genDecl? kind head' specs = some d) :
    StandsFor L (DeclItem.gen kind head r) d := by
  refine ⟨List.forall_mem_cons.2 ⟨hr.has _ (List.mem_singleton_self _), hh.has⟩, ?_⟩
  obtain ⟨doc, hdoc, rfl⟩ := Option.map_eq_some_iff.1 hh.read
  change (s.groupNumber? head.doc).bind (fun doc => (s.listOf? r).bind _) = _
  rw [hdoc, Option.bind_some, show s.listOf? r = some specs from hr.read, Option.bind_some]
  exact hd

theorem specDeclIn_builds {α β : Type} [Stored β α] (hn : notes.Laid L)
    {specIn : Option (NodeId .group) → (c : Cursor) → Store → Outcome (β × Store) c}
    {spec : Option Nat → (c : Cursor) → Outcome α c}
    (hspec : ∀ c {t : Store} (L' : Ledger t) id doc, L.Grows L' → StandsFor L' id doc →
      Builds L' (specIn id c t) (spec doc c)) :
    Builds L (c.specDeclIn notes specIn s) (c.specDecl notes.layout spec) := by
  have hdoc := hn.docFor? c.start
  unfold specDeclIn specDecl
  dsimp only
  split
  · have hmore := specsIn_builds (fun e _ L' g =>
      hspec e L' _ _ g ((hn.later g).docFor? e.start)) c.advance.advance L (.refl L)
    refine ((hmore.lift _).lift _).andThen fun more p e m _ g hmore => endDecl_builds ?_
    have hrparen : more.1.2 = p.2 := Option.some.inj hmore.snd.read
    rw [hrparen]
    exact ((stands_head (hdoc.later g) _ _).pair hmore.fst).lays
  · refine ((hspec c.advance L none none (.refl L) ⟨List.forall_mem_nil _, rfl⟩).lift _).andThen
      fun item a e m _ g hitem => endDecl_builds ?_
    exact ((stands_head (hdoc.later g) _ _).pair (hitem.cons .nil)).lays

theorem mapM_map_of_inverse {α β : Type} (f : α → β) (f' : β → Option α)
    (h : ∀ a, f' (f a) = some a) (as : List α) : (as.map f).mapM f' = some as := by
  induction as with
  | nil => rfl
  | cons a as ih => rw [List.map_cons, List.mapM_cons, h, ih]; rfl

/-- A declaration is laid down where its head and its specs stand. -/
theorem lays_gen {α β : Type} [Stored β α] {kind : GenKind} {wrap : β → SpecItem}
    (inj : α → ImportSpec ⊕ TypeSpec) (make : DeclHead → List α → Decl)
    (hwrap : ∀ {item a}, StandsFor L item a → StandsFor L (wrap item) (inj a))
    (hmake : ∀ head as, genDecl? kind head (as.map inj) = some (make head as))
    {p : HeadItem × List β} {q : DeclHead × List α} (h : StandsFor L p q) :
    let list := s.push (b := .specs) (p.2.map wrap)
    Lays L (make q.1 q.2) (DeclItem.gen kind p.1 list.1, list.2) := by
  have hspecs : StandsFor L (p.2.map wrap) (q.2.map inj) :=
    .of_forall₂ (List.forall₂_map_left_iff.2 (List.forall₂_map_right_iff.2
      (h.snd.forall₂.imp fun _ _ => hwrap)))
  refine (lays_push (b := .specs) hspecs).andThen fun _ g list => StandsFor.lays ?_
  exact stands_gen (h.fst.later g) list (hmake q.1 q.2)

theorem declIn_builds (hn : notes.Laid L) :
    Builds L (c.declIn notes s) (c.decl notes.layout) := by
  have hhead := stands_head (hn.docFor? c.start) c.span none
  have hempty : Lays L [] (ListRef.empty, s) := lays_empty (b := .specs)
  unfold decl
  dsimp only
  split <;> unfold declIn <;> dsimp only <;> split <;> try (exfalso; simp_all; done)
  · refine (specDeclIn_builds hn fun c _ L' id doc _ hdoc => importSpecIn_builds hdoc).map
      fun p q _ _ _ hp => lays_gen .inl .imports ?_ ?_ hp
    · exact fun h => ⟨h.has, congrArg (Option.map _) h.read⟩
    · exact fun head as => by
        rw [genDecl?, mapM_map_of_inverse Sum.inl Sum.getLeft? fun _ => rfl]; rfl
  · refine (specDeclIn_builds hn fun c _ L' id doc g hdoc =>
      typeSpecIn_builds (hn.later g) hdoc).map fun p q _ _ _ hp => lays_gen .inr .types ?_ ?_ hp
    · exact fun h => ⟨h.has, congrArg (Option.map _) h.read⟩
    · exact fun head as => by
        rw [genDecl?, mapM_map_of_inverse Sum.inr Sum.getRight? fun _ => rfl]; rfl
  · exact .ok (hempty.andThen fun _ g list => (stands_gen (hhead.later g) list rfl).lays)
  · exact .ok (hempty.andThen fun _ g list => (stands_gen (hhead.later g) list rfl).lays)
  · exact .ok (StandsFor.lays ⟨List.forall_mem_nil _, rfl⟩)
  · exact Builds.fails

/-- All declarations up to the end of the text, and what is wrong with them. -/
theorem declsIn_builds (c : Cursor) {s : Store} {L : Ledger s} (hn : notes.Laid L) :
    Lays L (c.decls notes.layout).1 (c.declsIn notes s).1 ∧
      (c.declsIn notes s).2 = (c.decls notes.layout).2 := by
  have h := declIn_builds (c := c) hn
  rw [declsIn, decls]
  generalize c.declIn notes s = o at h ⊢
  generalize c.decl notes.layout = o' at h ⊢
  generalize ht : c.token? = t
  split
  · exact ⟨StandsFor.nil.lays, rfl⟩
  · exact declsIn_builds c.advance hn
  · cases h with
    | @ok r a d m h =>
      obtain ⟨L', g, first⟩ := h
      obtain ⟨hmore, hfaults⟩ := declsIn_builds d (hn.later g)
      have hall : Lays L (a :: (d.decls notes.layout).1)
          ((r.1 :: (d.declsIn notes r.2).1.1, (d.declsIn notes r.2).1.2)) := by
        obtain ⟨L'', g', more⟩ := hmore
        exact ⟨L'', g.trans g', (first.later g').cons more⟩
      dsimp only
      -- both read the token for themselves: cases in which they differ are none
      (try split) <;> first | exact ⟨hall, hfaults⟩ | (exfalso; simp_all)
    | @error f d k =>
      obtain ⟨hmore, hfaults⟩ := declsIn_builds d.recover hn
      dsimp only
      (try split) <;> first | exact ⟨hmore, congrArg (f :: ·) hfaults⟩ | (exfalso; simp_all)
termination_by c.left
decreasing_by all_goals first | assumption | exact advance_lt ‹_› | exact recover_lt ‹_› ‹_›

end Tree.Cursor

end GoDecls
