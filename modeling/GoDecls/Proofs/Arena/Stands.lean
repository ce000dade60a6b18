/-
  What stands in a store for a part of the tree.

  `StandsFor L b a` says that the store with the ledger `L` has all that `b` holds, and
  that `b` reads back as `a`.  It goes on being so in every later store.  `Lays L a r`
  says that something is added to the store that then stands for `a`; nodes and lists
  are added so as soon as what they hold stands there.
-/
import GoDecls.Proofs.Arena.History
import GoDecls.Proofs.Arena.Kept

namespace GoDecls.Arena

open Tree Store

variable {α β γ δ : Type} {s t : Store} {L : Ledger s} {L' : Ledger t}

/-- Values that stand for others by what a store has. -/
class Stored (β : Type) (α : outParam Type) where
  cells : β → List Cell
  read? : Store → β → Option α
  kept : ∀ {s t : Store}, Steps s t → ∀ b, Kept (read? s b) (read? t b)

/-- What the store has of the value stands for `a`. -/
structure StandsFor [Stored β α] (L : Ledger s) (b : β) (a : α) : Prop where
  has : ∀ cell ∈ Stored.cells b, L.Has cell
  read : Stored.read? s b = some a

theorem StandsFor.later [Stored β α] {b : β} {a : α} (h : StandsFor L b a) (g : L.Grows L') :
    StandsFor L' b a :=
  ⟨fun cell hc => (h.has cell hc).later g, Stored.kept g.steps b a h.read⟩

/-! ## What can stand in a store -/

instance (k : Kind) : Stored (NodeId k) (Value k) where
  cells i := [.node i]
  read? s i := s.value? k i
  kept g i := g.kept_value? k i

instance (b : Buffer) : Stored (ListRef b) (List (Element b)) where
  cells r := [.list r]
  read? s r := s.listOf? r
  kept g r := g.kept_listOf? r

instance : Stored LengthRef ArrayLength where
  cells := LengthRef.cells
  read? s length := lengthOf? s.value? length
  kept g length := kept_lengthOf? g.kept_value? length

instance : Stored FieldsRef FieldList where
  cells := FieldsRef.cells
  read? s fs := s.fieldsOf? s.value? fs
  kept g fs := kept_fieldsOf? g g.kept_value? fs

instance : Stored ResultsRef Results where
  cells := ResultsRef.cells
  read? s results := s.resultsOf? s.value? results
  kept g results := kept_resultsOf? g g.kept_value? results

instance : Stored ImportItem ImportSpec where
  cells item := optionalCells item.doc
  read? s item := s.importOf? item
  kept g item := g.kept_importOf? item

instance : Stored TypeItem TypeSpec where
  cells := TypeItem.cells
  read? s item := s.typeSpecOf? s.value? item
  kept g item := kept_typeSpecOf? g g.kept_value? item

/-- Items of a buffer. -/
@[reducible] def storedItem (b : Buffer) : Stored (Item b) (Element b) where
  cells := itemCells b
  read? s item := s.itemOf? s.value? b item
  kept g item := kept_itemOf? g g.kept_value? item

instance : Stored Ident Ident := storedItem .idents

instance : Stored TermItem Term := storedItem .terms

instance : Stored ElemItem InterfaceElem := storedItem .elems

instance : Stored SpecItem (ImportSpec ⊕ TypeSpec) := storedItem .specs

instance : Stored DeclItem Decl := storedItem .decls

instance : Stored (Option (NodeId .group)) (Option Nat) where
  cells := optionalCells
  read? s i := s.groupNumber? i
  kept g i := g.kept_groupNumber? i

instance : Stored (Option (NodeId .typeParams)) (Option TypeParams) where
  cells := optionalCells
  read? s params := typeParamsOf? s.value? params
  kept g params := kept_typeParamsOf? g.kept_value? params

instance : Stored HeadItem DeclHead where
  cells head := optionalCells head.doc
  read? s head := (s.groupNumber? head.doc).map fun doc => ⟨doc, head.keyword, head.parens⟩
  kept g head := (g.kept_groupNumber? head.doc).map _

/-- What an entry of a list of parameters stands for. -/
def Entry.read? (s : Store) : Entry → Option Param
  | .bare name => some (.bare name)
  | .typed span name ellipsis type => (s.value? _ type).map (.typed span name ellipsis)

instance : Stored Entry Param where
  cells
    | .bare _ => []
    | .typed _ _ _ type => [.node type]
  read? := Entry.read?
  kept g
    | .bare _ => .refl _
    | .typed _ _ _ type => (g.kept_value? _ type).map _

instance [Stored β α] : Stored (List β) (List α) where
  cells bs := bs.flatMap Stored.cells
  read? s bs := bs.mapM (Stored.read? s)
  kept g bs := Kept.mapM (Stored.kept g) bs

/-- A place in the text stands for itself. -/
instance : Stored Span Span := ⟨fun _ => [], fun _ => some, fun _ _ => .refl _⟩

instance : Stored (Option Span) (Option Span) := ⟨fun _ => [], fun _ => some, fun _ _ => .refl _⟩

instance [Stored β α] [Stored γ δ] : Stored (β × γ) (α × δ) where
  cells p := Stored.cells p.1 ++ Stored.cells p.2
  read? s p := (Stored.read? s p.1).bind fun a => (Stored.read? s p.2).map (Prod.mk a)
  kept g p := (Stored.kept g p.1).bind fun _ => (Stored.kept g p.2).map _

theorem cells_cons [Stored β α] (b : β) (bs : List β) :
    Stored.cells (b :: bs) = Stored.cells b ++ Stored.cells bs := List.flatMap_cons

namespace StandsFor

theorem nil [Stored β α] : StandsFor L ([] : List β) [] := ⟨by simp [Stored.cells], rfl⟩

theorem cons [Stored β α] {b : β} {bs : List β} {a : α} {as : List α} (h : StandsFor L b a)
    (hs : StandsFor L bs as) : StandsFor L (b :: bs) (a :: as) where
  has cell hc := by
    rw [cells_cons] at hc
    exact (List.mem_append.1 hc).elim (h.has cell) (hs.has cell)
  read := by
    have hr : bs.mapM (Stored.read? s) = some as := hs.read
    change (b :: bs).mapM (Stored.read? s) = some (a :: as)
    rw [List.mapM_cons, h.read, hr]
    rfl

theorem pair [Stored β α] [Stored γ δ] {b : β} {c : γ} {a : α} {d : δ} (h : StandsFor L b a)
    (h' : StandsFor L c d) : StandsFor L (b, c) (a, d) where
  has cell hc := (List.mem_append.1 hc).elim (h.has cell) (h'.has cell)
  read := by
    change (Stored.read? s b).bind (fun a => (Stored.read? s c).map (Prod.mk a)) = _
    rw [h.read, Option.bind_some, h'.read, Option.map_some]

theorem fst [Stored β α] [Stored γ δ] {p : β × γ} {q : α × δ} (h : StandsFor L p q) :
    StandsFor L p.1 q.1 where
  has cell hc := h.has cell (List.mem_append_left _ hc)
  read := by
    obtain ⟨a, ha, hq⟩ := Option.bind_eq_some_iff.1 h.read
    obtain ⟨d, -, rfl⟩ := Option.map_eq_some_iff.1 hq
    exact ha

theorem snd [Stored β α] [Stored γ δ] {p : β × γ} {q : α × δ} (h : StandsFor L p q) :
    StandsFor L p.2 q.2 where
  has cell hc := h.has cell (List.mem_append_right _ hc)
  read := by
    obtain ⟨a, -, hq⟩ := Option.bind_eq_some_iff.1 h.read
    obtain ⟨d, hd, rfl⟩ := Option.map_eq_some_iff.1 hq
    exact hd

/-- Lists stand for lists item by item. -/
theorem forall₂ [Stored β α] {bs : List β} {as : List α} (h : StandsFor L bs as) :
    List.Forall₂ (StandsFor L) bs as := by
  induction bs generalizing as with
  | nil =>
    obtain rfl := Option.some.inj h.read
    exact .nil
  | cons b bs ih =>
    have hr : (b :: bs).mapM (Stored.read? s) = some as := h.read
    rw [List.mapM_cons] at hr
    obtain ⟨a, ha, hr⟩ := Option.bind_eq_some_iff.1 hr
    obtain ⟨as, has, hr⟩ := Option.bind_eq_some_iff.1 hr
    obtain rfl := Option.some.inj hr
    have held := h.has
    rw [cells_cons] at held
    exact .cons ⟨fun cell hc => held cell (List.mem_append_left _ hc), ha⟩
      (ih ⟨fun cell hc => held cell (List.mem_append_right _ hc), has⟩)

theorem of_forall₂ [Stored β α] {bs : List β} {as : List α}
    (h : List.Forall₂ (StandsFor L) bs as) : StandsFor L bs as := by
  induction h with
  | nil => exact nil
  | cons h _ ih => exact h.cons ih

end StandsFor

/-! ## What is laid down in a store -/

/-- Something is added to the store that stands for `a`. -/
def Lays [Stored β α] (L : Ledger s) (a : α) (r : β × Store) : Prop :=
  ∃ L' : Ledger r.2, L.Grows L' ∧ StandsFor L' r.1 a

/-- What stands there already. -/
theorem StandsFor.lays [Stored β α] {b : β} {a : α} (h : StandsFor L b a) : Lays L a (b, s) :=
  ⟨L, .refl L, h⟩

/-- One thing is laid down, then another. -/
theorem Lays.andThen [Stored β α] [Stored γ δ] {a : α} {d : δ} {r : β × Store}
    {q : γ × Store} (h : Lays L a r)
    (h' : ∀ L' : Ledger r.2, L.Grows L' → StandsFor L' r.1 a → Lays L' d q) : Lays L d q := by
  obtain ⟨L', g, hr⟩ := h
  obtain ⟨L'', g', hq⟩ := h' L' g hr
  exact ⟨L'', g.trans g', hq⟩

/-- A node is laid down where all that it holds stands. -/
theorem lays_alloc {k : Kind} {node : Node k} {span : Span} {a : Value k}
    (h : ∀ cell ∈ nodeCells k node, L.Has cell) (hr : s.nodeOf? s.value? k node span = some a) :
    Lays L a (s.alloc node span) := by
  have g := L.grows_add (.node node span) h
  refine ⟨L.add (.node node span) h, g, ?_, ?_⟩
  · intro cell hc
    obtain rfl := List.mem_singleton.1 hc
    have hnode : (L.add (.node node span) h).history.store.node? (s.alloc node span).1 =
        some (node, span) := by
      rw [(L.add (.node node span) h).store_eq]
      exact node?_alloc s node span
    exact (List.getElem?_eq_some_iff.1 hnode).1
  · -- the new store reads one node deeper than the old one
    change (s.alloc node span).2.value? k (s.alloc node span).1 = some a
    rw [value?, size_alloc, valueAt?, node?_alloc, Option.bind_some]
    exact kept_nodeOf? g.steps (g.steps.kept_valueAt? (Nat.le_refl _)) node span a hr

/-- A list is laid down where its items stand. -/
theorem lays_push {b : Buffer} {items : List (Item b)} {as : List (Element b)}
    (h : letI := storedItem b; StandsFor L items as) : Lays L as (s.push items) := by
  let _ := storedItem b
  have g := L.grows_add (.list items) h.has
  refine ⟨L.add (.list items) h.has, g, ?_, ?_⟩
  · intro cell hc
    obtain rfl := List.mem_singleton.1 hc
    refine ⟨items, ?_⟩
    have hr : (s.push items).1 = (L.history.store.push items).1 := by rw [L.store_eq]
    exact hr ▸ .added (List.suffix_refl _)
  · change (s.push items).2.listOf? (s.push items).1 = some as
    rw [listOf?, list?_push, Option.bind_some]
    exact Kept.mapM (kept_itemOf? g.steps g.steps.kept_value?) items as h.read

/-- The list that is not written stands for no items. -/
theorem lays_empty {b : Buffer} : Lays L ([] : List (Element b)) (ListRef.empty (b := b), s) := by
  have made : L.history.Made (ListRef.empty (b := b)) [] := .unwritten
  refine StandsFor.lays ⟨fun cell hc => ?_, ?_⟩
  · obtain rfl := List.mem_singleton.1 hc
    exact ⟨[], made⟩
  · change s.listOf? ListRef.empty = some []
    have hlist := made.list?
    rw [L.store_eq] at hlist
    rw [listOf?, hlist]
    rfl

/-- Things are laid down one after the other, if each can be in every later store. -/
theorem lays_storeAll [Stored β α] {f : γ → Store → β × Store} {as : List α} {cs : List γ}
    (h : List.Forall₂ (fun c a => ∀ {t : Store} (L' : Ledger t), L.Grows L' → Lays L' a (f c t))
      cs as) (g : L.Grows L') : Lays L' as (storeAll f cs t) := by
  induction h generalizing t with
  | nil => exact StandsFor.nil.lays
  | cons hc _ ih =>
    exact (hc L' g).andThen fun L₁ g₁ first => (ih (g.trans g₁)).andThen fun _ g₂ rest =>
      ((first.later g₂).cons rest).lays

end GoDecls.Arena
