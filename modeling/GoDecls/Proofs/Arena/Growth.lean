/-
  How stores grow.

  `Cell`: a node or a list, as nodes and items hold them.  `Steps`: nodes and lists are added
  behind what is there, so every id and every list goes on saying what it said (`Steps.node?`,
  `Steps.list?`).  `Refers`: a node, or an item of a list, holds something.
-/
import GoDecls.Arena.ReadBack
import Mathlib.Logic.Relation
import Mathlib.Data.List.Basic

namespace GoDecls.Arena

open Tree Relation

/-! ## What nodes and items hold -/

/-- A part of a store. -/
inductive Cell where
  | node {k : Kind} (i : NodeId k)
  | list {b : Buffer} (r : ListRef b)

/-- What an array length holds. -/
def LengthRef.cells : LengthRef → List Cell
  | .ellipsis _ => []
  | .expr i => [.node i]

/-- What a type holds. -/
def TypeNode.cells : TypeNode → List Cell
  | .named _ _ args => [.list args]
  | .pointer _ elem | .slice elem | .chan _ elem => [.node elem]
  | .array length elem => .node elem :: length.cells
  | .map key value => [.node key, .node value]
  | .struct fields => [.list fields]
  | .interface elems => [.list elems]
  | .func sig => [.node sig]
  | .paren inner => [.node inner]

/-- What fields between parentheses hold. -/
def FieldsRef.cells (fs : FieldsRef) : List Cell := [.list fs.fields]

/-- What results hold. -/
def ResultsRef.cells : ResultsRef → List Cell
  | .none => []
  | .single type => [.node type]
  | .list fields => fields.cells

/-- What a member of an interface holds. -/
def ElemItem.cells : ElemItem → List Cell
  | .method _ sig => [.node sig]
  | .union terms => [.list terms]

/-- What a node, if there is one, adds to what is held. -/
def optionalCells {k : Kind} (i : Option (NodeId k)) : List Cell := i.toList.map .node

/-- What a declared type holds. -/
def TypeItem.cells (item : TypeItem) : List Cell :=
  .node item.type ::
    (optionalCells item.doc ++ optionalCells item.comment ++ optionalCells item.typeParams)

/-- What a spec holds. -/
def SpecItem.cells : SpecItem → List Cell
  | .imported item => optionalCells item.doc
  | .type item => item.cells

/-- What a declaration holds. -/
def DeclItem.cells : DeclItem → List Cell
  | .func _ => []
  | .gen _ head specs => .list specs :: optionalCells head.doc

/-- What a node holds. -/
def nodeCells (k : Kind) (node : Node k) : List Cell :=
  match k, node with
  | .type, node => node.cells
  | .expr, _ => []
  | .signature, node => node.params.cells ++ node.results.cells
  | .field, node => [.list node.names, .node node.type]
  | .typeParams, r => [.list r]
  | .typeParam, node => [.list node.names, .list node.constraint]
  | .comment, _ => []
  | .group, r => [.list r]

/-- What an item of a list holds. -/
def itemCells (b : Buffer) (item : Item b) : List Cell :=
  match b, item with
  | .idents, _ => []
  | .types, i => [.node i]
  | .fields, i => [.node i]
  | .specs, item => item.cells
  | .decls, item => item.cells
  | .terms, item => [.node item.type]
  | .elems, item => item.cells
  | .typeParams, i => [.node i]
  | .comments, i => [.node i]
  | .groups, i => [.node i]

namespace Store

variable {s t u : Store}

/-! ## Growth -/

/-- A node or a list is added. -/
inductive Step (s : Store) : Store → Prop
  | alloc {k : Kind} (node : Node k) (span : Span) : Step s (s.alloc node span).2
  | push {b : Buffer} (items : List (Item b)) : Step s (s.push items).2

/-- Nodes and lists are added. -/
abbrev Steps : Store → Store → Prop := ReflTransGen Step

/-- Nodes stay where they are. -/
theorem Steps.nodes (h : Steps s t) (k : Kind) : s.nodes k <+: t.nodes k := by
  induction h with
  | refl => exact List.prefix_refl _
  | @tail t _ _ step ih =>
    refine ih.trans ?_
    cases step with
    | @alloc j node span =>
      by_cases h : j = k
      · subst h; simp [alloc]
      · simp [alloc, Function.update_of_ne (Ne.symm h)]
    | push items => exact List.prefix_refl _

/-- Lists stay where they are. -/
theorem Steps.lists (h : Steps s t) (b : Buffer) : s.lists b <+: t.lists b := by
  induction h with
  | refl => exact List.prefix_refl _
  | @tail t _ _ step ih =>
    refine ih.trans ?_
    cases step with
    | alloc node span => exact List.prefix_refl _
    | @push j items =>
      by_cases h : j = b
      · subst h; simp [push]
      · simp [push, Function.update_of_ne (Ne.symm h)]

/-- An id goes on naming its node. -/
theorem Steps.node? (h : Steps s t) {k : Kind} {i : NodeId k} {p : Node k × Span}
    (hp : s.node? i = some p) : t.node? i = some p := by
  obtain ⟨more, hmore⟩ := h.nodes k
  obtain ⟨hi, -⟩ := List.getElem?_eq_some_iff.1 hp
  rw [Store.node?, ← hmore, List.getElem?_append_left hi]
  exact hp

/-- A list goes on naming its items. -/
theorem Steps.list? (h : Steps s t) {b : Buffer} {r : ListRef b} {items : List (Item b)}
    (hr : s.list? r = some items) : t.list? r = some items := by
  obtain ⟨more, hmore⟩ := h.lists b
  unfold Store.list? at hr ⊢
  split at hr
  · rename_i hle
    have hlen : r.len ≤ ((s.lists b).drop r.start).length := by
      rw [List.length_drop]; omega
    rw [← hmore, if_pos (by rw [List.length_append]; omega),
      List.drop_append_of_le_length (by omega), List.take_append_of_le_length hlen]
    exact hr
  · cases hr

/-- The number of nodes does not sink. -/
theorem Steps.size_le (h : Steps s t) : s.size ≤ t.size := by
  have hk (k : Kind) := (h.nodes k).length_le
  have := hk .type; have := hk .expr; have := hk .signature; have := hk .field
  have := hk .typeParams; have := hk .typeParam; have := hk .comment; have := hk .group
  unfold size; omega

@[simp] theorem node?_alloc {k : Kind} (s : Store) (node : Node k) (span : Span) :
    (s.alloc node span).2.node? (s.alloc node span).1 = some (node, span) := by
  simp [Store.node?, alloc]

@[simp] theorem list?_push {b : Buffer} (s : Store) (items : List (Item b)) :
    (s.push items).2.list? (s.push items).1 = some items := by
  simp [Store.list?, push]

@[simp] theorem size_alloc {k : Kind} (s : Store) (node : Node k) (span : Span) :
    (s.alloc node span).2.size = s.size + 1 := by
  cases k <;> simp [size, alloc, Function.update] <;> omega

/-- A list that can be read lies in its buffer. -/
theorem inside_of_list? {b : Buffer} {r : ListRef b} {items : List (Item b)}
    (h : t.list? r = some items) : r.start + r.len ≤ (t.lists b).length := by
  unfold Store.list? at h
  split at h
  · assumption
  · cases h

theorem mem_of_list? {b : Buffer} {r : ListRef b} {items : List (Item b)} {item : Item b}
    (h : t.list? r = some items) (hi : item ∈ items) : item ∈ t.lists b := by
  unfold Store.list? at h
  split at h
  · obtain rfl := Option.some.inj h
    exact List.mem_of_mem_drop (List.mem_of_mem_take hi)
  · cases h

/-! ## What is held -/

/-- A node or a list holds something. -/
inductive Refers (s : Store) : Cell → Cell → Prop
  | node {k : Kind} {i : NodeId k} {node : Node k} {span : Span} {cell : Cell}
      (h : s.node? i = some (node, span)) (hc : cell ∈ nodeCells k node) : Refers s (.node i) cell
  | list {b : Buffer} {r : ListRef b} {items : List (Item b)} {item : Item b} {cell : Cell}
      (h : s.list? r = some items) (hi : item ∈ items) (hc : cell ∈ itemCells b item) :
      Refers s (.list r) cell

/-- Only members of interfaces and declarations are items that hold lists, and what
    they hold are lists of terms and of specs. -/
theorem Refers.of_lists {b b' : Buffer} {r : ListRef b} {r' : ListRef b'}
    (h : s.Refers (.list r) (.list r')) :
    (b = .elems ∨ b = .decls) ∧ (b' = .terms ∨ b' = .specs) := by
  cases h with
  | @list _ _ _ item _ _ _ hc =>
    cases b with
    | elems => cases item <;> simp_all [itemCells, ElemItem.cells]
    | decls => cases item <;> simp_all [itemCells, DeclItem.cells, optionalCells]
    | specs => cases item <;> simp_all [itemCells, SpecItem.cells, TypeItem.cells, optionalCells]
    | _ => simp_all [itemCells]

end Store

end GoDecls.Arena
