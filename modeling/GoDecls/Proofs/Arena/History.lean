/-
  The additions that make a store.

  * `History`: what was added to the empty store, the last addition first, so that a later
    history ends in every earlier one;
  * `History.Made`: a list was added in the history, with its items.  It goes on being read back
    as these (`Made.list?`, `Made.later`), and two such lists do not overlap (`Made.apart`);
  * `History.Held`: each addition holds only what the store before it has.  Hence what is
    reached from what a store has is there as well (`Held.has_of_reaches`), the nodes of a kind
    that a node of that kind reaches stand before it (`Held.descends`), and nothing reaches
    itself (`Held.acyclic`);
  * `Ledger s`: such a history of the store `s`.
-/
import GoDecls.Proofs.Arena.Growth

namespace GoDecls.Arena

open Tree Relation Store

/-- Something that is added to a store. -/
inductive Addition where
  | node {k : Kind} (node : Node k) (span : Span)
  | list {b : Buffer} (items : List (Item b))

/-- What the addition holds. -/
def Addition.cells : Addition → List Cell
  | @Addition.node k n _ => nodeCells k n
  | @Addition.list b items => items.flatMap (itemCells b)

/-- The store with the addition. -/
def Store.add (s : Store) : Addition → Store
  | .node node span => (s.alloc node span).2
  | .list items => (s.push items).2

theorem Store.step_add (s : Store) (a : Addition) : Step s (s.add a) := by
  cases a with
  | node node span => exact .alloc node span
  | list items => exact .push items

/-- Additions to the empty store, the last one first. -/
abbrev History := List Addition

namespace History

/-- The store that the additions make. -/
def store : History → Store
  | [] => .empty
  | a :: h => (store h).add a

variable {h h' older : History} {a : Addition}

/-- The store of a later history has grown from that of an earlier one. -/
theorem steps_of_suffix (g : h <:+ h') : Steps h.store h'.store := by
  obtain ⟨new, rfl⟩ := g
  induction new with
  | nil => exact .refl
  | cons a new ih => exact ih.tail (step_add _ a)

/-! ## Lists that were added -/

/-- The list was added with the items, or it is the one that is not written. -/
inductive Made (h : History) {b : Buffer} : ListRef b → List (Item b) → Prop
  | unwritten : Made h .empty []
  | added {older : History} {items : List (Item b)} (hs : (.list items :: older) <:+ h) :
    Made h (older.store.push items).1 items

variable {b : Buffer} {r r' : ListRef b} {items items' : List (Item b)}

theorem Made.later (hr : h.Made r items) (g : h <:+ h') : h'.Made r items := by
  cases hr with
  | unwritten => exact .unwritten
  | added hs => exact .added (hs.trans g)

/-- A list reads back as the items it was added with, whatever was added before and after. -/
theorem Made.list? (hr : h.Made r items) : h.store.list? r = some items := by
  cases hr with
  | unwritten => simp [Store.list?, ListRef.empty]
  | added hs => exact (steps_of_suffix hs).list? (list?_push _ items)

/-- What was added earlier to the buffer lies before what was added later. -/
theorem stop_le_of_suffix (g : (.list items :: older) <:+ h) :
    (older.store.push items).1.start + (older.store.push items).1.len ≤
      (h.store.lists b).length := by
  refine Nat.le_trans (Nat.le_of_eq ?_) ((steps_of_suffix g).lists b).length_le
  simp [store, add, push]

/-- **Lists that were added do not overlap.** -/
theorem Made.apart (hr : h.Made r items) (hr' : h.Made r' items') :
    r = r' ∨ r.start + r.len ≤ r'.start ∨ r'.start + r'.len ≤ r.start := by
  cases hr with
  | unwritten => exact .inr (.inl (Nat.zero_le _))
  | added hs =>
    cases hr' with
    | unwritten => exact .inr (.inr (Nat.zero_le _))
    | added hs' =>
      rcases List.suffix_or_suffix_of_suffix hs hs' with g | g
      · rcases List.suffix_cons_iff.1 g with heq | g
        · cases heq
          exact .inl rfl
        · exact .inr (.inl (stop_le_of_suffix g))
      · rcases List.suffix_cons_iff.1 g with heq | g
        · cases heq
          exact .inl rfl
        · exact .inr (.inr (stop_le_of_suffix g))

/-! ## What a store has -/

/-- The store has the node, or the list was added to it. -/
def Has (h : History) : Cell → Prop
  | .node (k := k) i => i.place < (h.store.nodes k).length
  | .list r => ∃ items, h.Made r items

/-- What a store has, it keeps. -/
theorem Has.later {cell : Cell} (hc : h.Has cell) (g : h <:+ h') : h'.Has cell := by
  cases cell with
  | node i => exact Nat.lt_of_lt_of_le hc ((steps_of_suffix g).nodes _).length_le
  | list r =>
    obtain ⟨items, hr⟩ := hc
    exact ⟨items, hr.later g⟩

/-- A node was added to a store of as many nodes of its kind as stand before it. -/
theorem exists_of_node? {k : Kind} {i : NodeId k} {node : Node k} {span : Span}
    (hi : h.store.node? i = some (node, span)) :
    ∃ older : History, (.node node span :: older) <:+ h ∧
      i.place = (older.store.nodes k).length := by
  induction h with
  | nil => cases hi
  | cons a h ih =>
    have old (hi : (store h).node? i = some (node, span)) : ∃ older : History,
        (.node node span :: older) <:+ a :: h ∧ i.place = (older.store.nodes k).length := by
      obtain ⟨older, hs, hplace⟩ := ih hi
      exact ⟨older, hs.trans (List.suffix_cons a h), hplace⟩
    cases a with
    | @node j newNode newSpan =>
      by_cases hj : j = k
      · subst hj
        simp only [store, add, Store.node?, alloc, Function.update_self] at hi
        rcases Nat.lt_or_ge i.place ((store h).nodes j).length with hlt | hge
        · exact old (by rwa [List.getElem?_append_left hlt] at hi)
        · -- nothing stands behind the new node
          rw [List.getElem?_append_right hge, List.getElem?_singleton] at hi
          split at hi
          · cases hi
            exact ⟨h, List.suffix_refl _, by omega⟩
          · cases hi
      · exact old (by
          simpa only [store, add, Store.node?, alloc, Function.update_of_ne (Ne.symm hj)] using hi)
    | list items => exact old hi

/-- An item of a buffer was added in a list. -/
theorem exists_of_mem_lists {item : Item b} (hi : item ∈ h.store.lists b) :
    ∃ (items : List (Item b)) (older : History), (.list items :: older) <:+ h ∧ item ∈ items := by
  induction h with
  | nil => cases hi
  | cons a h ih =>
    have old (hi : item ∈ (store h).lists b) : ∃ (items : List (Item b)) (older : History),
        (.list items :: older) <:+ a :: h ∧ item ∈ items := by
      obtain ⟨items, older, hs, hmem⟩ := ih hi
      exact ⟨items, older, hs.trans (List.suffix_cons a h), hmem⟩
    cases a with
    | node node span => exact old hi
    | @list j items =>
      by_cases hj : j = b
      · subst hj
        simp only [store, add, push, Function.update_self, List.mem_append] at hi
        exact hi.elim old fun hi => ⟨items, h, List.suffix_refl _, hi⟩
      · exact old (by
          simpa only [store, add, push, Function.update_of_ne (Ne.symm hj)] using hi)

/-! ## What is held -/

/-- Each addition holds only what the store before it has. -/
def Held (h : History) : Prop :=
  ∀ a older, (a :: older) <:+ h → ∀ cell ∈ a.cells, Has older cell

theorem Held.nil : Held [] := by
  intro a older g
  cases List.suffix_nil.1 g

theorem Held.cons (hh : h.Held) (ha : ∀ cell ∈ a.cells, h.Has cell) : Held (a :: h) := by
  intro a' older g
  rcases List.suffix_cons_iff.1 g with heq | g
  · cases heq
    exact ha
  · exact hh a' older g

theorem Held.of_suffix (hh : h'.Held) (g : h <:+ h') : h.Held :=
  fun a older g' => hh a older (g'.trans g)

variable {c d : Cell}

/-- The store has what something that it has holds. -/
theorem Held.has_of_refers (hh : h.Held) (hr : h.store.Refers c d) : h.Has d := by
  cases hr with
  | @node k i node span _ hi hc =>
    obtain ⟨older, g, -⟩ := exists_of_node? hi
    exact (hh _ older g d hc).later ((List.suffix_cons _ older).trans g)
  | list hr hi hc =>
    obtain ⟨items, older, g, hmem⟩ := exists_of_mem_lists (mem_of_list? hr hi)
    have hcell := hh _ older g d (List.mem_flatMap.2 ⟨_, hmem, hc⟩)
    exact hcell.later ((List.suffix_cons _ older).trans g)

/-- What something held in a store that the store had before, it held before. -/
theorem refers_of_later (hr : h'.store.Refers c d) (g : h <:+ h') (hc : h.Has c) :
    h.store.Refers c d := by
  cases hr with
  | node hi hd =>
    have hs : h.store.node? _ = some _ := List.getElem?_eq_getElem hc
    exact .node (hs.trans (((steps_of_suffix g).node? hs).symm.trans hi)) hd
  | list hr hi hd =>
    obtain ⟨items, made⟩ := hc
    obtain rfl := Option.some.inj ((made.later g).list?.symm.trans hr)
    exact .list made.list? hi hd

/-- What is reached later from something that the store has, the store has. -/
theorem Held.has_of_reaches (hh : h.Held) (g : h <:+ h') (hc : h.Has c)
    (hr : ReflTransGen h'.store.Refers c d) : h.Has d := by
  induction hr with
  | refl => exact hc
  | tail _ hr ih => exact hh.has_of_refers (refers_of_later hr g ih)

/-- A node of a kind reaches only such nodes of that kind as stand before it. -/
theorem Held.descends (hh : h.Held) {k : Kind} {i j : NodeId k}
    (hr : TransGen h.store.Refers (.node i) (.node j)) : j.place < i.place := by
  obtain ⟨cell, first, rest⟩ := TransGen.head'_iff.1 hr
  cases first with
  | node hi hc =>
    obtain ⟨older, g, hplace⟩ := exists_of_node? hi
    have hold := hh _ older g cell hc
    have g' : older <:+ h := (List.suffix_cons _ older).trans g
    have hj : Has older (.node j) := (hh.of_suffix g').has_of_reaches g' hold rest
    exact hplace ▸ hj

/-- Nothing in the store reaches itself. -/
theorem Held.acyclic (hh : h.Held) (cell : Cell) : ¬ TransGen h.store.Refers cell cell := by
  have node {k : Kind} (i : NodeId k) : ¬ TransGen h.store.Refers (.node i) (.node i) :=
    fun hr => Nat.lt_irrefl _ (hh.descends hr)
  cases cell with
  | node i => exact node i
  | list r =>
    intro hr
    obtain ⟨c, first, rest⟩ := TransGen.head'_iff.1 hr
    cases c with
    | node i => exact node i (TransGen.tail' rest first)
    | list r' =>
      -- the list that is held holds no list, so the way back leads over a node
      have leaf {d : Cell} (hd : h.store.Refers (.list r') d) :
          ∃ k, ∃ i : NodeId k, d = .node i := by
        cases d with
        | node i => exact ⟨_, i, rfl⟩
        | list r'' =>
          rcases first.of_lists.2 with rfl | rfl <;> rcases hd.of_lists.1 with hd | hd <;> cases hd
      rcases rest.cases_head with heq | ⟨d, second, rest⟩
      · rw [heq] at leaf
        obtain ⟨k, i, hi⟩ := leaf first
        cases hi
      · obtain ⟨k, i, rfl⟩ := leaf second
        exact node i (.trans_right rest (.tail (.single first) second))

end History

/-! ## Ledgers -/

/-- How the store came to be: by additions each of which holds only what was there. -/
structure Ledger (s : Store) where
  history : History
  store_eq : history.store = s
  held : history.Held

namespace Ledger

variable {s t u : Store} {L : Ledger s} {L' : Ledger t} {L'' : Ledger u}

/-- Nothing has been added yet. -/
def empty : Ledger .empty := ⟨[], rfl, .nil⟩

/-- The store has the node, or the list was added to it. -/
abbrev Has (L : Ledger s) (cell : Cell) : Prop := L.history.Has cell

/-- The second store came to be from the first. -/
def Grows (L : Ledger s) (L' : Ledger t) : Prop := L.history <:+ L'.history

theorem Grows.refl (L : Ledger s) : L.Grows L := List.suffix_refl _

theorem Grows.trans (g : L.Grows L') (g' : L'.Grows L'') : L.Grows L'' := List.IsSuffix.trans g g'

theorem Grows.steps (g : L.Grows L') : Steps s t := by
  rw [← L.store_eq, ← L'.store_eq]
  exact History.steps_of_suffix g

/-- The ledger with one more addition. -/
def add (L : Ledger s) (a : Addition) (h : ∀ cell ∈ a.cells, L.Has cell) : Ledger (s.add a) :=
  ⟨a :: L.history, congrArg (Store.add · a) L.store_eq, L.held.cons h⟩

theorem grows_add (L : Ledger s) (a : Addition) (h : ∀ cell ∈ a.cells, L.Has cell) :
    L.Grows (L.add a h) := List.suffix_cons a L.history

end Ledger

end GoDecls.Arena
