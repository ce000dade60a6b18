/-
  The stored file of a text is well formed, and stands for the tree of the text
  (`StoredFile.ofText_wellFormed`).

  * `StoredFile.WellFormed`: every id that is reached from the file is the place of a
    node, a node of a kind reaches only such nodes of that kind as stand before it, and
    the store has a history in which every list that is reached was added, with the items
    as which it reads back, so that no two of them overlap;
  * `StoredFile.Denotes`: reading the store back gives the tree.

  The store is no larger than the text, so ids of 32 bits can tell apart what
  positions of 32 bits can.
-/
import GoDecls.Proofs.Arena.BuildFile
import GoDecls.Proofs.Arena.SizeFile

namespace GoDecls.Arena

open Tree Store Relation

/-! ## Files -/

namespace StoredFile

/-- What a file holds itself. -/
def roots (p : StoredFile) : List Cell :=
  .list p.decls :: .list p.comments :: optionalCells p.doc

/-- What is reached from a file. -/
def Reaches (p : StoredFile) (cell : Cell) : Prop :=
  ∃ root ∈ p.roots, ReflTransGen p.store.Refers root cell

/-- Ids and lists of the file lead to what they were given out for, and never in
    circles. -/
structure WellFormed (p : StoredFile) : Prop where
  ids : ∀ {k : Kind} {i : NodeId k}, p.Reaches (.node i) → i.place < (p.store.nodes k).length
  descends : ∀ {k : Kind} {i j : NodeId k},
    TransGen p.store.Refers (.node i) (.node j) → j.place < i.place
  acyclic : ∀ cell, ¬ TransGen p.store.Refers cell cell
  lists : ∃ L : Ledger p.store, ∀ {b : Buffer} {r : ListRef b}, p.Reaches (.list r) →
    r.start + r.len ≤ (p.store.lists b).length ∧
      ∃ items, L.history.Made r items ∧ p.store.list? r = some items
  apart : ∀ {b : Buffer} {r r' : ListRef b}, p.Reaches (.list r) → p.Reaches (.list r') →
    r = r' ∨ r.start + r.len ≤ r'.start ∨ r'.start + r'.len ≤ r.start

/-- Reading the stored file back gives the tree of a file. -/
structure Denotes (p : StoredFile) (file : SourceFile) : Prop where
  keyword : p.keyword = file.keyword
  package : p.package = file.package
  doc : p.store.groupNumber? p.doc = some file.doc
  decls : p.decls? = some file.decls
  comments : p.comments? = some (file.comments.map fun g => (g.comments, g.span))

/-- A file is well formed if its store has what the file holds. -/
theorem wellFormed {p : StoredFile} (L : Ledger p.store) (h : ∀ cell ∈ p.roots, L.Has cell) :
    p.WellFormed := by
  have has {cell : Cell} : p.Reaches cell → L.Has cell := by
    rintro ⟨root, hroot, hreach⟩
    refine L.held.has_of_reaches (List.suffix_refl _) (h root hroot) ?_
    rwa [L.store_eq]
  refine ⟨fun hr => ?_, fun hr => ?_, fun cell hr => ?_, ⟨L, fun hr => ?_⟩, fun hr hr' => ?_⟩
  · have hi := has hr
    change _ < (L.history.store.nodes _).length at hi
    rwa [L.store_eq] at hi
  · rw [← L.store_eq] at hr
    exact L.held.descends hr
  · rw [← L.store_eq] at hr
    exact L.held.acyclic cell hr
  · obtain ⟨items, made⟩ := has hr
    have hlist := made.list?
    rw [L.store_eq] at hlist
    exact ⟨inside_of_list? hlist, items, made, hlist⟩
  · obtain ⟨items, made⟩ := has hr
    obtain ⟨items', made'⟩ := has hr'
    exact made.apart made'

/-- The file of declarations that are read is well formed and stands for them. -/
theorem ofDecls_wellFormed {keyword : Span} {package : String} {id : Option (NodeId .group)}
    {doc : Option Nat} {ids : List (NodeId .group)} {groups : List CommentGroup} {s : Store}
    {L : Ledger s} {r : List DeclItem × Store} {decls : List Decl} (hdoc : StandsFor L id doc)
    (hids : StandsFor L ids (groups.map fun g => (g.comments, g.span))) (hr : Lays L decls r) :
    (ofDecls keyword package id ids r).WellFormed ∧
      (ofDecls keyword package id ids r).Denotes ⟨keyword, package, doc, decls, groups⟩ := by
  obtain ⟨L₁, g₁, items⟩ := hr
  obtain ⟨L₂, g₂, list⟩ := lays_push (b := .decls) items
  have g₂ : L.Grows L₂ := g₁.trans g₂
  obtain ⟨L₃, g₃, comments⟩ := lays_push (b := .groups) (hids.later g₂)
  have list := list.later g₃
  have hdoc := hdoc.later (g₂.trans g₃)
  refine ⟨wellFormed L₃ ?_, rfl, rfl, hdoc.read, list.read, comments.read⟩
  refine List.forall_mem_cons.2 ⟨list.has _ (List.mem_singleton_self _), ?_⟩
  exact List.forall_mem_cons.2 ⟨comments.has _ (List.mem_singleton_self _), hdoc.has⟩

/-- The stored file of the tokens, next to the tree. -/
theorem read_wellFormed (layout : Layout) (c : Cursor) :
    (read layout c).2 = (SourceFile.read layout c).2 ∧ (read layout c).1.WellFormed ∧
      (read layout c).1.Denotes (SourceFile.read layout c).1 := by
  obtain ⟨L, -, groups⟩ := lays_storeGroups (L := .empty) layout.groups
  have notes := laid_storeGroups groups
  unfold read SourceFile.read
  dsimp only
  cases c.packageClause with
  | ok p next m =>
    obtain ⟨decls, faults⟩ := next.declsIn_builds notes
    exact ⟨faults, ofDecls_wellFormed (notes.docFor? _) groups decls⟩
  | error fault stop k =>
    obtain ⟨decls, faults⟩ := stop.recover.declsIn_builds notes
    exact ⟨congrArg (fault :: ·) faults, ofDecls_wellFormed (notes.docFor? _) groups decls⟩

/-- A text is refused as a stored file for what it is refused for as a tree. -/
theorem ofText_error_iff {text : List Char} {ds : List Diagnostic} :
    ofText text = .error ds ↔ SourceFile.ofText text = .error ds := by
  unfold ofText SourceFile.ofText
  dsimp only
  split
  · rw [(read_wellFormed _ _).1]
    split
    · exact iff_of_false (fun h => by cases h) (fun h => by cases h)
    · rw [Except.error.injEq, Except.error.injEq]
  · rw [Except.error.injEq, Except.error.injEq]

/-- A stored file of a text is well formed and stands for a tree of the text. -/
theorem denotes_ofText {text : List Char} {p : StoredFile} (h : ofText text = .ok p) :
    p.WellFormed ∧ ∃ file, SourceFile.ofText text = .ok file ∧ p.Denotes file := by
  unfold ofText at h
  unfold SourceFile.ofText
  dsimp only at h ⊢
  split at h
  · next hlexer =>
    rw [if_pos hlexer]
    obtain ⟨hfaults, hwell, hdenotes⟩ := read_wellFormed
      (Layout.of text (Lexer.ofText text).run.1 (Lexer.ofText text).run.2.comments)
      ⟨(Lexer.ofText text).run.1, 0, Text.byteLength text⟩
    rw [hfaults] at h
    split at h
    · next hnone =>
      cases h
      exact ⟨hwell, _, if_pos hnone, hdenotes⟩
    · cases h
  · cases h

/-- **A text that is accepted has a stored file that is well formed, no larger than
    the text, and stands for the tree of the text.** -/
theorem ofText_wellFormed {text : List Char} {file : SourceFile}
    (h : SourceFile.ofText text = .ok file) :
    ∃ p, ofText text = .ok p ∧ p.WellFormed ∧ (∀ x, p.store.count x ≤ text.length) ∧
      p.Denotes file := by
  cases hp : ofText text with
  | error ds =>
    rw [ofText_error_iff.1 hp] at h
    cases h
  | ok p =>
    obtain ⟨hwell, file', hfile, hdenotes⟩ := denotes_ofText hp
    obtain rfl := Except.ok.inj (hfile.symm.trans h)
    exact ⟨p, rfl, hwell, count_le hp, hdenotes⟩

/-- Type parameters and parameters that share a type, an array, a union with a term
    behind `~`, and a comment. -/
theorem ofText_wellFormed_generic :
    let text := "package p // q
type T[A, B any] struct { f func(x, y [3]int) (z A) }
type I interface { m(); ~int | T[A, B] }".toList
    ∃ file p, SourceFile.ofText text = .ok file ∧ ofText text = .ok p ∧
      p.store.count (.nodes .type) = 11 ∧ p.store.count (.items .idents) = 6 ∧
      p.WellFormed ∧ (∀ x, p.store.count x ≤ text.length) ∧ p.Denotes file := by
  intro text
  have haccepted : (SourceFile.ofText text).toOption.isSome := by decide +kernel
  have hcounts : ((ofText text).toOption.map fun p =>
      (p.store.count (.nodes .type), p.store.count (.items .idents))) = some (11, 6) := by
    decide +kernel
  cases h : SourceFile.ofText text with
  | error ds =>
    rw [h] at haccepted
    cases haccepted
  | ok file =>
    obtain ⟨p, hp, hwell⟩ := ofText_wellFormed h
    rw [hp] at hcounts
    obtain ⟨htypes, hidents⟩ := Prod.mk.inj (Option.some.inj hcounts)
    exact ⟨file, p, rfl, hp, htypes, hidents, hwell⟩

end StoredFile

end GoDecls.Arena
