/-
  The comment groups that a tree has for its nodes are those that stand at them.

  * `SourceFile.attachments`: the nodes of a file that comment groups can belong to, in
    the order of the text, and the numbers of the groups that the tree has for them;
  * `Attached l lo hi as`: they are the groups that the layout finds for nodes one behind
    the other between two positions.  This is the invariant of the readers
    (`Cursor.decl_attached`, `Cursor.decls_attached`);
  * `SourceFile.commented_ofText`: of the tree of a text it follows that each node has the
    one group that stands at it, if there is one, and no two have the same.
-/
import GoDecls.Proofs.Comment.Attached
import GoDecls.Proofs.Tree.EchoFile
import GoDecls.Proofs.Tree.PlacedFile

namespace GoDecls.Tree

open Outcome Text

variable {text : List Char} {l : Layout}

/-! ## The nodes with comments -/

/-- A node by its role, and the number of the group that the tree has for it. -/
structure Attachment where
  role : Role
  group? : Option Nat
deriving DecidableEq, Repr

/-- Where a spec begins, the number of its doc comment, and what else in it can have a
    comment. -/
structure SpecNotes where
  start : Nat
  doc : Option Nat
  behind : List Attachment

/-- Where the name of an import begins. -/
def ImportName.start : ImportName → Nat
  | .dot span | .blank span => span.start
  | .named name => name.span.start

/-- The notes of an import. -/
def ImportSpec.notes (s : ImportSpec) : SpecNotes :=
  ⟨(s.name.map (·.start)).getD s.path.start, s.doc, []⟩

/-- The notes of a declared type. -/
def TypeSpec.notes (s : TypeSpec) : SpecNotes :=
  ⟨s.name.span.start, s.doc, [⟨.line s.type.span.stop, s.comment⟩]⟩

/-- The nodes with comments in a spec; it is one itself if it is between parentheses. -/
def SpecNotes.attachments (grouped : Bool) (s : SpecNotes) : List Attachment :=
  if grouped then ⟨.doc s.start, s.doc⟩ :: s.behind else s.behind

/-- The nodes with comments in a declaration. -/
def DeclHead.attachments (head : DeclHead) (specs : List SpecNotes) : List Attachment :=
  ⟨.doc head.keyword.start, head.doc⟩ :: specs.flatMap (·.attachments head.parens.isSome)

/-- The head of a declaration that has one. -/
def Decl.head? : Decl → Option DeclHead
  | .func _ => none
  | .imports head _ | .consts head | .types head _ | .vars head => some head

/-- The notes of the specs of a declaration. -/
def Decl.notes : Decl → List SpecNotes
  | .imports _ specs => specs.map (·.notes)
  | .types _ specs => specs.map (·.notes)
  | .func _ | .consts _ | .vars _ => []

/-- The nodes with comments in a declaration. -/
def Decl.attachments (d : Decl) : List Attachment :=
  match d.head? with
  | none => []
  | some head => head.attachments d.notes

/-- Without parentheses the doc comment is the declaration's, and its spec has none. -/
def Decl.Bare (d : Decl) : Prop :=
  ∀ head ∈ d.head?, head.parens = none → ∀ s ∈ d.notes, s.doc = none

/-- The nodes with comments in a file. -/
def SourceFile.attachments (file : SourceFile) : List Attachment :=
  ⟨.doc file.keyword.start, file.doc⟩ :: file.decls.flatMap (·.attachments)

/-! ## Nodes in a row -/

/-- The groups are those that the layout finds for nodes at tokens, one behind the other
    between two positions. -/
def Attached (l : Layout) : Nat → Nat → List Attachment → Prop
  | lo, hi, [] => lo ≤ hi
  | lo, hi, a :: as => a.group? = l.attached? a.role ∧
      ∃ t ∈ l.tokens, lo ≤ t.start ∧ a.role.At t ∧ Attached l t.stop hi as

namespace Attached

variable {lo lo' mid hi hi' : Nat} {a : Attachment} {as bs : List Attachment}

theorem nil (h : lo ≤ hi) : Attached l lo hi [] := h

theorem mono (h : Attached l lo hi as) (hlo : lo' ≤ lo) (hhi : hi ≤ hi') :
    Attached l lo' hi' as := by
  induction as generalizing lo lo' with
  | nil => exact Nat.le_trans hlo (Nat.le_trans h hhi)
  | cons a as ih =>
    obtain ⟨hgroup, t, ht, hle, hat, has⟩ := h
    exact ⟨hgroup, t, ht, Nat.le_trans hlo hle, hat, ih has (Nat.le_refl _)⟩

theorem append (h : Attached l lo mid as) (h' : Attached l mid hi bs) :
    Attached l lo hi (as ++ bs) := by
  induction as generalizing lo with
  | nil => exact h'.mono h (Nat.le_refl _)
  | cons a as ih =>
    obtain ⟨hgroup, t, ht, hle, hat, has⟩ := h
    exact ⟨hgroup, t, ht, hle, hat, ih has⟩

theorem exists_token (hl : l.TokensInOrder) (h : Attached l lo hi as) :
    ∀ a ∈ as, a.group? = l.attached? a.role ∧ ∃ t ∈ l.tokens, lo ≤ t.start ∧ a.role.At t := by
  induction as generalizing lo with
  | nil => exact List.forall_mem_nil _
  | cons a as ih =>
    obtain ⟨hgroup, t, ht, hle, hat, has⟩ := h
    refine List.forall_mem_cons.2 ⟨⟨hgroup, t, ht, hle, hat⟩, fun b hb => ?_⟩
    obtain ⟨hgroup', u, hu, hle', hat'⟩ := ih has b hb
    have := hl.extent t ht
    exact ⟨hgroup', u, hu, by omega, hat'⟩

/-- No two nodes have the same role. -/
theorem distinct (hl : l.TokensInOrder) (h : Attached l lo hi as) :
    as.Pairwise (·.role ≠ ·.role) := by
  induction as generalizing lo with
  | nil => exact .nil
  | cons a as ih =>
    obtain ⟨-, t, ht, -, hat, has⟩ := h
    refine List.pairwise_cons.2 ⟨fun b hb hrole => ?_, ih has⟩
    obtain ⟨-, u, hu, hle, hat'⟩ := has.exists_token hl b hb
    have hextent := hl.extent t ht
    have hextent' := hl.extent u hu
    rw [← hrole] at hat'
    cases hr : a.role with
    | doc p =>
      rw [hr] at hat hat'
      have : t.start = u.start := Eq.trans hat hat'.symm
      omega
    | line p =>
      rw [hr] at hat hat'
      have : t.stop = u.stop := Eq.trans hat hat'.symm
      omega

end Attached

/-! ## Tokens of the layout -/

namespace Cursor

/-- The tokens that are left are tokens of the layout. -/
def Among (l : Layout) (c : Cursor) : Prop :=
  ∀ t ∈ c.rest, t.isInserted = false → ⟨t.start, t.stop⟩ ∈ l.tokens

variable {c d : Cursor} {t : Token}

theorem Among.skip (hl : c.Among l) (n : Nat) : (c.skip n).Among l := by
  intro u hu
  rw [skip_rest] at hu
  exact hl u (List.mem_of_mem_drop hu)

theorem Among.advance (hl : c.Among l) : c.advance.Among l := hl.skip 1

theorem Among.past {ts : List Token} (hl : c.Among l) (hp : Past ts c d) : d.Among l :=
  hp.skip ▸ hl.skip ts.length

theorem Placed.exists_token (hc : c.Placed text) (hl : c.Among l) (h : c.token? = some t)
    (ht : t ≠ .punct .semi) : ∃ u ∈ l.tokens, u.start = c.start ∧ u.stop = c.advance.last := by
  obtain ⟨u, us, hrest, rfl, -, -, hlast⟩ := hc.token_spec h ht
  refine ⟨⟨u.start, u.stop⟩, hl u (hrest ▸ List.mem_cons_self) ?_, (hc.start_eq hrest).symm,
    hlast.symm⟩
  rw [Lexeme.isInserted, beq_eq_false_iff_ne.2 ht, Bool.false_and]

/-- A token moves the end of what is read to its own, unless it has no extent. -/
theorem Placed.last_advance (hc : c.Placed text) (hl : c.Among l) :
    c.advance.last = c.last ∨ ∃ u ∈ l.tokens, c.start ≤ u.start ∧ u.stop = c.advance.last := by
  cases hrest : c.rest with
  | nil =>
    left
    rw [Cursor.advance, hrest]
  | cons u us =>
    have hu := hc.tokens u (hrest ▸ List.mem_cons_self)
    have hlast : c.advance.last = if u.span.isEmpty then c.last else u.span.stop := by
      rw [Cursor.advance, hrest]
    rw [hc.span_eq hu] at hlast
    by_cases hempty : u.start = u.stop
    · left
      rw [hlast, hempty, if_pos (by simp [Span.isEmpty, Span.length])]
    · right
      have hextent : u.start < u.stop := Nat.lt_of_le_of_ne hu.le hempty
      refine ⟨⟨u.start, u.stop⟩, hl u (hrest ▸ List.mem_cons_self) ?_,
        Nat.le_of_eq (hc.start_eq hrest), ?_⟩
      · rw [Lexeme.isInserted, beq_eq_false_iff_ne.2 hempty, Bool.and_false]
      · rw [hlast, if_neg (by simp [Span.isEmpty, Span.length]; omega)]

/-- What is read ends with a token behind the cursor, or has moved no end. -/
theorem Placed.last_skip (hc : c.Placed text) (hl : c.Among l) (n : Nat) :
    (c.skip n).last = c.last ∨ ∃ u ∈ l.tokens, c.start ≤ u.start ∧ u.stop = (c.skip n).last := by
  induction n generalizing c with
  | zero => exact .inl rfl
  | succ n ih =>
    rcases ih hc.advance hl.advance with h | ⟨u, hu, hle, hstop⟩
    · rw [skip, h]
      exact hc.last_advance hl
    · exact .inr ⟨u, hu, Nat.le_trans hc.start_le_advance hle, hstop⟩

end Cursor

/-! ## Single tokens and types -/

namespace Outcome.Leads

variable {α : Type} {c : Cursor} {o : Outcome α c} {P : List Token → Prop} {r : α → α → Prop}
  {Q : α → Cursor → Prop}

/-- What is read leaves a rest of the same tokens. -/
theorem among (h : o.Leads text Q) (he : o.Echoes [] P r o) (hl : c.Among l) :
    o.Leads text fun a d => d.Among l ∧ Q a d := by
  intro a d m ho
  obtain ⟨ts, -, -, -, -, -, -, hp, -⟩ := he a d m ho (Nat.zero_le _)
  exact ⟨(h a d m ho).1, hl.past hp, (h a d m ho).2⟩

end Outcome.Leads

namespace Cursor

variable {c d : Cursor} {lo : Nat}

/-- A token of the layout begins at the cursor `c` and ends before `d`. -/
def Begins (l : Layout) (c d : Cursor) : Prop :=
  ∃ u ∈ l.tokens, u.start = c.start ∧ u.stop ≤ d.last

theorem Placed.begins (hc : c.Placed text) (hl : c.Among l) {t : Token} (h : c.token? = some t)
    (ht : t ≠ .punct .semi) : Begins l c c.advance := by
  obtain ⟨u, hu, hstart, hstop⟩ := hc.exists_token hl h ht
  exact ⟨u, hu, hstart, Nat.le_of_eq hstop⟩

theorem expect_attached (hc : c.Placed text) (hl : c.Among l) {t : Token} (ht : t ≠ .punct .semi)
    (what : String) :
    (c.expect t what).Leads text fun span d => d.Among l ∧ span = c.span ∧ Begins l c d := by
  unfold expect
  split
  · next h => exact .ok hc.advance ⟨hl.advance, rfl, hc.begins hl h ht⟩
  · exact fails_leads what

theorem ident_attached (hc : c.Placed text) (hl : c.Among l) (what : String) :
    (c.ident what).Leads text fun name d => d.Among l ∧ name.span = c.span ∧ Begins l c d := by
  unfold ident
  split
  · next h => exact .ok hc.advance ⟨hl.advance, rfl, hc.begins hl h (by simp)⟩
  · exact fails_leads what

theorem stringLiteral_attached (hc : c.Placed text) (hl : c.Among l) (what : String) :
    (c.stringLiteral what).Leads text fun path d =>
      d.Among l ∧ path = c.span ∧ Begins l c d := by
  unfold stringLiteral
  split
  · next h => exact .ok hc.advance ⟨hl.advance, rfl, hc.begins hl h (by simp)⟩
  · next h => exact .ok hc.advance ⟨hl.advance, rfl, hc.begins hl h (by simp)⟩
  · exact fails_leads what

/-! ## Types -/

/-- A type ends with a token of the layout. -/
theorem type_attached (hc : c.Placed text) (hl : c.Among l) :
    c.type.Leads text fun T d => d.Among l ∧ T.span.stop = d.last ∧
      ∃ u ∈ l.tokens, c.start ≤ u.start ∧ u.stop = d.last := by
  intro T d m h
  obtain ⟨hd, hrow⟩ := type_spans c hc T d m h
  obtain ⟨hspan, -⟩ := made_of_type h
  obtain ⟨t, ht, hstarts⟩ := token?_of_type h
  have hsemi : t ≠ .punct .semi := by
    rintro rfl
    cases hstarts
  obtain ⟨ts, -, -, -, -, -, -, hp, -⟩ :=
    type_echo (k := False) c c (.of_tokens rfl) (.inl rfl) T d m h (Nat.zero_le _)
  refine ⟨hd, hl.past hp, ?_, ?_⟩
  · rw [hspan, spanFrom, Nat.max_eq_left hrow.le]
    exact Nat.min_eq_left (hd.boundary_le hd.last)
  · have hleft := hp.left
    obtain ⟨n, hn⟩ := Nat.exists_eq_add_one_of_ne_zero (n := ts.length) (by omega)
    have hskip := hp.skip
    rw [hn, skip] at hskip
    rw [hskip]
    rcases hc.advance.last_skip hl.advance n with hlast | ⟨u, hu, hle, hstop⟩
    · obtain ⟨u, hu, hstart, hstop⟩ := hc.exists_token hl ht hsemi
      exact ⟨u, hu, Nat.le_of_eq hstart.symm, hstop.trans hlast.symm⟩
    · exact ⟨u, hu, Nat.le_trans hc.start_le_advance hle, hstop⟩

end Cursor

/-! ## Specs -/

/-- The spec between two cursors has the given doc comment, and its first token is at
    the first cursor. -/
structure SpecNotes.Stands (l : Layout) (c d : Cursor) (doc : Option Nat) (s : SpecNotes) :
    Prop where
  doc : s.doc = doc
  start : s.start = c.start
  behind : ∃ u ∈ l.tokens, u.start = c.start ∧ Attached l u.stop d.last s.behind

namespace SpecNotes.Stands

variable {c d : Cursor} {s : SpecNotes}

theorem grouped (h : s.Stands l c d (l.docFor? c.start)) :
    Attached l c.start d.last (s.attachments true) := by
  obtain ⟨u, hu, hstart, hbehind⟩ := h.behind
  refine ⟨?_, u, hu, Nat.le_of_eq hstart.symm, hstart.trans h.start.symm, hbehind⟩
  rw [Layout.attached?, h.start]
  exact h.doc

theorem single {doc : Option Nat} (hl : l.TokensInOrder) (h : s.Stands l c d doc) :
    Attached l c.start d.last (s.attachments false) := by
  obtain ⟨u, hu, hstart, hbehind⟩ := h.behind
  have := hl.extent u hu
  exact hbehind.mono (by omega) (Nat.le_refl _)

end SpecNotes.Stands

namespace Cursor

variable {c d : Cursor} {lo : Nat}

theorem Begins.le (hl : l.TokensInOrder) (h : Begins l c d) : c.start ≤ d.last := by
  obtain ⟨u, hu, hstart, hstop⟩ := h
  have := hl.extent u hu
  omega

theorem typeSpecTail_attached (hc : c.Placed text) (hal : c.Among l) (doc : Option Nat)
    (name : Ident) (params : Option TypeParams) :
    (c.typeSpecTail l doc name params).Leads text fun s d => d.Among l ∧ s.notes.doc = doc ∧
      s.notes.start = name.span.start ∧ Attached l c.start d.last s.notes.behind := by
  have hline {c d : Cursor} {T : TypeExpr} (hstop : T.span.stop = d.last)
      (hu : ∃ u ∈ l.tokens, c.start ≤ u.start ∧ u.stop = d.last) :
      Attached l c.start d.last [⟨.line T.span.stop, l.lineCommentAfter? d.last⟩] := by
    obtain ⟨u, hu, hle, hlast⟩ := hu
    rw [hstop]
    exact ⟨rfl, u, hu, hle, hlast, .nil (Nat.le_of_eq hlast)⟩
  unfold typeSpecTail
  split
  · refine (type_attached hc.advance hal.advance).lift.map fun type d _ ⟨hd, hstop, hu⟩ => ?_
    exact ⟨hd, rfl, rfl, (hline hstop hu).mono hc.start_le_advance (Nat.le_refl _)⟩
  · refine (type_attached hc hal).map fun type d _ ⟨hd, hstop, hu⟩ => ?_
    exact ⟨hd, rfl, rfl, hline hstop hu⟩

/-- The name of an import, if it is given one, begins at the cursor. -/
theorem Placed.importName?_attached (hc : c.Placed text) (hal : c.Among l) :
    c.importName? = (none, c) ∨
      ∃ name, c.importName? = (some name, c.advance) ∧ name.start = c.start ∧
        Begins l c c.advance := by
  unfold importName?
  split
  · next h => exact .inr ⟨_, rfl, rfl, hc.begins hal h (by simp)⟩
  · next s h =>
    refine .inr ⟨_, rfl, ?_, hc.begins hal h (by simp)⟩
    split <;> rfl
  · exact .inl rfl

theorem endDecl_attached {β : Type} {b : β} {m : d.left < c.left} {as : List Attachment}
    (hd : d.Placed text) (hdl : d.Among l) (has : Attached l lo d.last as) :
    (endDecl b d m).Leads text fun b' e => b' = b ∧ e.Among l ∧ Attached l lo e.last as := by
  unfold endDecl
  split
  · exact .ok hd ⟨rfl, hdl, has⟩
  · exact .ok hd.advance ⟨rfl, hdl.advance, has.mono (Nat.le_refl _) hd.advance_spec.2.1⟩
  · exact (fails_leads _).after

/-- The doc comment of a declaration stands before its keyword. -/
theorem head_attached (hc : c.Placed text) (hal : c.Among l) {t : Token} (h : c.token? = some t)
    (ht : t ≠ .punct .semi) {hi : Nat} {as : List Attachment}
    (has : Attached l c.advance.last hi as) :
    Attached l c.start hi (⟨.doc c.span.start, l.docFor? c.start⟩ :: as) := by
  obtain ⟨u, hu, hstart, hstop⟩ := hc.begins hal h ht
  exact ⟨rfl, u, hu, Nat.le_of_eq hstart.symm, hstart, has.mono hstop (Nat.le_refl _)⟩

theorem typeSpec_attached (hc : c.Placed text) (hal : c.Among l) (doc : Option Nat) :
    (c.typeSpec l doc).Leads text fun s d => d.Among l ∧ s.notes.Stands l c d doc := by
  unfold typeSpec
  refine (ident_attached hc hal _).bind fun name d _ hd ⟨hdl, hname, u, hu, hstart, hstop⟩ => ?_
  have hstands {e : Cursor} (hle : d.start ≤ e.start) {s : TypeSpec} {f : Cursor}
      (hdoc : s.notes.doc = doc) (hs : s.notes.start = name.span.start)
      (hbehind : Attached l e.start f.last s.notes.behind) : s.notes.Stands l c f doc := by
    refine ⟨hdoc, hs.trans (by rw [hname]; rfl), u, hu, hstart, hbehind.mono ?_ (Nat.le_refl _)⟩
    exact Nat.le_trans hstop (Nat.le_trans hd.last_le_start hle)
  split
  · have hparams := (typeParams_spans hd).among (typeParams_echo (k := False) (.of_tokens rfl)) hdl
    refine hparams.bind fun ps e _ he ⟨hel, hrow⟩ => ?_
    have hle := Nat.le_trans hrow.le he.last_le_start
    exact (typeSpecTail_attached he hel doc name (some ps)).imp
      fun s f ⟨hfl, hdoc, hs, hbehind⟩ => ⟨hfl, hstands hle hdoc hs hbehind⟩
  · exact (typeSpecTail_attached hd hdl doc name none).imp
      fun s f ⟨hfl, hdoc, hs, hbehind⟩ => ⟨hfl, hstands (Nat.le_refl _) hdoc hs hbehind⟩

section

variable (hl : l.TokensInOrder)

include hl

theorem importSpec_attached (hc : c.Placed text) (hal : c.Among l) (doc : Option Nat) :
    (c.importSpec doc).Leads text fun s d => d.Among l ∧ s.notes.Stands l c d doc := by
  have hname := hc.importName?_attached hal
  unfold importSpec
  generalize c.importName?_le = hle
  revert hle
  generalize c.importName? = p at hname
  intro hle
  obtain rfl | ⟨name, rfl, hstart, u, hu, hu_start, hu_stop⟩ := hname
  · refine (stringLiteral_attached hc hal _).lift.map fun path e _ he => ⟨he.1, rfl, ?_, he.2.2⟩
    rw [he.2.1]
    rfl
  · refine (stringLiteral_attached hc.advance hal.advance _).lift.map fun path e _ he =>
      ⟨he.1, rfl, hstart, u, hu, hu_start, ?_⟩
    exact Nat.le_trans hu_stop (Nat.le_trans hc.advance.last_le_start (he.2.2.le hl))

/-! ## Declarations -/

section

variable {α : Type} {f : α → SpecNotes}

theorem specs_attached {spec : (c : Cursor) → Outcome α c}
    (hspec : ∀ c : Cursor, c.Placed text → c.Among l → (spec c).Leads text fun s d =>
      d.Among l ∧ (f s).Stands l c d (l.docFor? c.start))
    (c : Cursor) (hc : c.Placed text) (hal : c.Among l) :
    (specs spec c).Leads text fun p d =>
      d.Among l ∧ Attached l c.start d.last ((p.1.map f).flatMap (·.attachments true)) := by
  intro p d m h
  refine (specs_loop spec).induct
    (Q := fun e p d => e.Placed text → e.Among l → d.Placed text ∧ d.Among l ∧
      Attached l e.start d.last ((p.1.map f).flatMap (·.attachments true))) c h
    (fun ht he hel => ⟨he.advance, hel.advance, .nil ((he.begins hel ht nofun).le hl)⟩)
    (fun _ hmore he hel => ?_) (fun _ hs hmore he hel => ?_) hc hal
  · obtain ⟨hd, hdl, hmore⟩ := hmore he.advance hel.advance
    exact ⟨hd, hdl, hmore.mono he.start_le_advance (Nat.le_refl _)⟩
  · obtain ⟨hf, hfl, hs⟩ := hspec _ he hel _ _ _ hs
    obtain ⟨hd, hdl, hmore⟩ := hmore hf hfl
    exact ⟨hd, hdl, hs.grouped.append (hmore.mono hf.last_le_start (Nat.le_refl _))⟩

theorem specDecl_attached {spec : Option Nat → (c : Cursor) → Outcome α c}
    (hspec : ∀ doc, ∀ c : Cursor, c.Placed text → c.Among l → (spec doc c).Leads text fun s d =>
      d.Among l ∧ (f s).Stands l c d doc)
    (hc : c.Placed text) (hal : c.Among l) {t : Token} (h : c.token? = some t)
    (ht : t ≠ .punct .semi) :
    (c.specDecl l spec).Leads text fun p d => d.Among l ∧
      (p.1.parens = none → ∀ s ∈ p.2.map f, s.doc = none) ∧
      Attached l c.start d.last (p.1.attachments (p.2.map f)) := by
  have hd := hc.advance
  have hdl := hal.advance
  unfold specDecl
  dsimp only
  split
  · next hparen =>
    have hmore := specs_attached hl (fun e he hel => hspec (l.docFor? e.start) e he hel)
      c.advance.advance hd.advance hdl.advance
    refine hmore.lift.lift.andThen fun more e m he hspecs => ?_
    obtain ⟨hel, hspecs⟩ := hspecs
    have hrow := head_attached hc hal h ht (hspecs.mono
      (Nat.le_trans hd.last_le_start hd.start_le_advance) (Nat.le_refl _))
    refine (endDecl_attached he hel hrow).imp fun p d hp => ?_
    obtain ⟨rfl, hdl', hrow⟩ := hp
    refine ⟨hdl', fun hparens => ?_, hrow⟩
    cases hparens
  · refine (hspec none c.advance hd hdl).lift.andThen fun s e m he hs => ?_
    obtain ⟨hel, hs⟩ := hs
    have hrow := head_attached hc hal h ht
      ((hs.single hl).mono hd.last_le_start (Nat.le_refl _))
    refine (endDecl_attached he hel hrow).imp fun p d hp => ?_
    obtain ⟨rfl, hdl', hrow⟩ := hp
    refine ⟨hdl', fun _ => List.forall_mem_singleton.2 hs.doc, ?_⟩
    rw [DeclHead.attachments, List.map_singleton, List.flatMap_singleton]
    exact hrow

end

theorem decl_attached (hc : c.Placed text) (hal : c.Among l) :
    (c.decl l).Leads text fun d next => next.Among l ∧ d.Bare ∧
      Attached l c.start next.last d.attachments := by
  have hskip := hc.skip_spec (declExtent 0 c.rest)
  have hskipped {t : Token} (h : c.token? = some t) (ht : t ≠ .punct .semi) :
      Attached l c.start c.skipDecl.last [⟨.doc c.span.start, l.docFor? c.start⟩] :=
    head_attached hc hal h ht (.nil (hc.last_le_skip (declExtent_pos h)))
  have hbare {d : Decl} {head : DeclHead} (hhead : d.head? = some head)
      (h : head.parens = none → ∀ s ∈ d.notes, s.doc = none) : d.Bare := by
    intro head' hhead'
    obtain rfl := Option.some.inj (hhead.symm.trans hhead')
    exact h
  unfold decl
  dsimp only
  split
  · next h =>
    have hspecs := specDecl_attached hl
      (fun doc _ he hel => importSpec_attached hl he hel doc) hc hal h (by simp)
    exact hspecs.map fun p d _ hp => ⟨hp.1, hbare rfl hp.2.1, hp.2.2⟩
  · next h =>
    have hspecs := specDecl_attached hl
      (fun doc _ he hel => typeSpec_attached he hel doc) hc hal h (by simp)
    exact hspecs.map fun p d _ hp => ⟨hp.1, hbare rfl hp.2.1, hp.2.2⟩
  · next h =>
    have hrow := hskipped h (by simp)
    exact .ok hskip.1 ⟨hal.skip _, hbare rfl fun _ => List.forall_mem_nil _, hrow⟩
  · next h =>
    have hrow := hskipped h (by simp)
    exact .ok hskip.1 ⟨hal.skip _, hbare rfl fun _ => List.forall_mem_nil _, hrow⟩
  · next h =>
    have hle := Nat.le_trans (hc.token_row h (by simp)).le (hc.last_le_skip (declExtent_pos h))
    exact .ok hskip.1 ⟨hal.skip _, nofun, .nil hle⟩
  · exact fails_leads _

theorem decls_attached (c : Cursor) (hc : c.Placed text) (hal : c.Among l)
    (hfaults : (c.decls l).2 = []) :
    Attached l c.start (byteLength text) ((c.decls l).1.flatMap (·.attachments)) ∧
      ∀ d ∈ (c.decls l).1, d.Bare := by
  obtain ⟨ht, hdecls⟩ | ⟨ht, hdecls⟩ | ⟨d, next, m, hd⟩ := decls_cases hfaults
  · rw [hdecls]
    exact ⟨hc.start.le, List.forall_mem_nil _⟩
  · have hlt := advance_lt ht
    rw [hdecls] at hfaults ⊢
    obtain ⟨hrow, hbare⟩ := decls_attached c.advance hc.advance hal.advance hfaults
    exact ⟨hrow.mono hc.start_le_advance (Nat.le_refl _), hbare⟩
  · obtain ⟨hnext, hnextl, hbare, hrow⟩ := decl_attached hl hc hal d next m hd
    rw [decls_of_decl hd] at hfaults ⊢
    obtain ⟨hrest, hmore⟩ := decls_attached next hnext hnextl hfaults
    refine ⟨?_, List.forall_mem_cons.2 ⟨hbare, hmore⟩⟩
    exact hrow.append (hrest.mono hnext.last_le_start (Nat.le_refl _))
termination_by c.left

theorem packageClause_attached (hc : c.Placed text) (hal : c.Among l) :
    c.packageClause.Leads text fun p d => d.Among l ∧
      Attached l c.start d.last [⟨.doc p.1.start, l.docFor? c.start⟩] := by
  unfold packageClause
  refine (expect_attached hc hal (by simp) _).bind fun keyword d _ hd ⟨hdl, hkeyword, hu⟩ => ?_
  obtain ⟨u, hu, hstart, hstop⟩ := hu
  refine (ident_attached hd hdl _).andThen fun name e m he ⟨hel, hname, hbegins⟩ => ?_
  have hle := Nat.le_trans hd.last_le_start (hbegins.le hl)
  have hrow : Attached l c.start e.last [⟨.doc keyword.start, l.docFor? c.start⟩] := by
    rw [hkeyword]
    exact ⟨rfl, u, hu, Nat.le_of_eq hstart.symm, hstart, .nil (Nat.le_trans hstop hle)⟩
  refine (endDecl_attached he hel hrow).imp fun p f ⟨hp, hfl, hrow⟩ => ?_
  subst hp
  exact ⟨hfl, hrow⟩

end

end Cursor

open Cursor

/-! ## Files -/

/-- The comments of a file are where a layout has them.  Each node has the one group that
    is one for its role, if there is one; no two nodes have the same; and what is declared
    without parentheses has no doc comment beside that of the declaration. -/
structure SourceFile.Commented (l : Layout) (file : SourceFile) : Prop where
  comments : file.comments = l.groups
  onToken : ∀ a ∈ file.attachments, a.role.OnToken l
  only : ∀ a ∈ file.attachments, ∀ i,
    a.group? = some i ↔ ∃ g, file.comments[i]? = some g ∧ a.role.Fits l g
  distinct : (file.attachments.filterMap (·.group?)).Nodup
  bare : ∀ d ∈ file.decls, d.Bare

theorem SourceFile.attached_read (hl : l.TokensInOrder) {c : Cursor} (hc : c.Placed text)
    (hal : c.Among l) (hfaults : (SourceFile.read l c).2 = []) :
    Attached l c.start (byteLength text) (SourceFile.read l c).1.attachments ∧
      ∀ d ∈ (SourceFile.read l c).1.decls, d.Bare := by
  obtain ⟨keyword, name, next, m, hclause⟩ := SourceFile.clause_of_read hfaults
  obtain ⟨hnext, hnextl, hrow⟩ := packageClause_attached hl hc hal _ next m hclause
  rw [SourceFile.read_of_clause hclause] at hfaults ⊢
  obtain ⟨hrest, hbare⟩ := decls_attached hl next hnext hnextl hfaults
  exact ⟨hrow.append (hrest.mono hnext.last_le_start (Nat.le_refl _)), hbare⟩

theorem SourceFile.commented_of_attached {cs : List Comment} {lo hi : Nat} {file : SourceFile}
    (hl : l.TokensInOrder) (hparted : l.Parted l.groups) (hgroups : l.Grouped cs)
    (hcomments : file.comments = l.groups) (hrow : Attached l lo hi file.attachments)
    (hbare : ∀ d ∈ file.decls, d.Bare) : file.Commented l := by
  have honToken : ∀ a ∈ file.attachments, a.role.OnToken l := by
    intro a ha
    obtain ⟨-, u, hu, -, hat⟩ := hrow.exists_token hl a ha
    exact ⟨u, hu, hat⟩
  have honly : ∀ a ∈ file.attachments, ∀ i,
      a.group? = some i ↔ ∃ g, file.comments[i]? = some g ∧ a.role.Fits l g := by
    intro a ha i
    rw [(hrow.exists_token hl a ha).1, hcomments]
    exact Layout.attached?_eq_some_iff hl hparted hgroups (honToken a ha)
  refine ⟨hcomments, honToken, honly, ?_, hbare⟩
  -- the same group would be one for two roles
  refine List.pairwise_filterMap.2 ((hrow.distinct hl).imp_of_mem ?_)
  rintro a b ha hb hrole i hi j hj rfl
  obtain ⟨g, hg, hfits⟩ := (honly a ha i).1 hi
  obtain ⟨g', hg', hfits'⟩ := (honly b hb i).1 hj
  rw [hg] at hg'
  cases hg'
  exact hrole (Role.eq_of_fits hl (honToken a ha) (honToken b hb) hfits hfits')

theorem among_run (cs : List Comment) :
    (Cursor.mk (Lexer.ofText text).run.1 0 (byteLength text)).Among
      (Layout.of text (Lexer.ofText text).run.1 cs) := by
  intro t ht hreal
  simp only [Layout.of, List.mem_map, List.mem_filter]
  exact ⟨t, ⟨ht, by rw [hreal]; rfl⟩, rfl⟩

/-- In the tree of a text that is not too long for its spans, the groups are those that
    the layout of the text finds. -/
theorem SourceFile.attached_ofText {file : SourceFile} (hlimit : byteLength text ≤ Span.limit)
    (h : SourceFile.ofText text = .ok file) :
    let l := Layout.of text (Lexer.ofText text).run.1 (Lexer.ofText text).run.2.comments
    file.comments = l.groups ∧ (∃ lo, Attached l lo (byteLength text) file.attachments) ∧
      ∀ d ∈ file.decls, d.Bare := by
  obtain ⟨hlex, hread⟩ := SourceFile.ofText_eq_ok_iff.1 h
  have hcs := Layout.commentsInOrder_run hlex
  obtain ⟨hrow, hbare⟩ := SourceFile.attached_read hcs.toTokensInOrder (placed_run hlimit)
    (among_run _) (congrArg Prod.snd hread)
  have hcomments := SourceFile.read_comments
    (Layout.of text (Lexer.ofText text).run.1 (Lexer.ofText text).run.2.comments)
    ⟨(Lexer.ofText text).run.1, 0, byteLength text⟩
  rw [hread] at hrow hbare hcomments
  exact ⟨hcomments, ⟨_, hrow⟩, hbare⟩

/-- The tree of a text has its comments where the layout of the text has them. -/
theorem SourceFile.commented_layout {file : SourceFile} (hlimit : byteLength text ≤ Span.limit)
    (h : SourceFile.ofText text = .ok file) :
    file.Commented
      (Layout.of text (Lexer.ofText text).run.1 (Lexer.ofText text).run.2.comments) := by
  have hlex := (SourceFile.ofText_eq_ok_iff.1 h).1
  have hcs := Layout.commentsInOrder_run hlex
  have hgroups := Layout.groups_of text (Lexer.ofText text).run.1
    (Lexer.ofText text).run.2.comments
  obtain ⟨hcomments, ⟨_, hrow⟩, hbare⟩ := SourceFile.attached_ofText hlimit h
  exact SourceFile.commented_of_attached hcs.toTokensInOrder
    (hgroups ▸ Layout.parted_group hcs) (Layout.grouped_layout hlex) hcomments hrow hbare

/-- **Comments belong to exactly the right nodes.**  In the tree of a text that is not too
    long for its spans, every import, constant, type or variable declaration, every spec in
    parentheses and every declared type has the only group of comments that stands at it in
    the layout of the text, and no group belongs to two of them. -/
theorem SourceFile.commented_ofText {file : SourceFile} (hlimit : byteLength text ≤ Span.limit)
    (h : SourceFile.ofText text = .ok file) :
    file.Commented
      (Layout.of text (Lexer.ofText text).run.1 (Lexer.ofText text).run.2.comments) :=
  SourceFile.commented_layout hlimit h

/-- Two types on a line share no comment, a comment behind a type does not document the
    next one, and a blank line parts a comment from what follows. -/
theorem SourceFile.commented_ofText_types :
    let text :=
      "package p\n// a\ntype (\n// b\nT int // c\nU = T; V T // d\nW T\n)\n// e\n\nvar x = 1\n".toList
    let run := (Lexer.ofText text).run
    byteLength text ≤ Span.limit ∧ ∃ file, SourceFile.ofText text = .ok file ∧
      file.attachments.map (·.group?) =
        [none, some 0, some 1, some 2, none, none, none, some 3, none, none, none] ∧
      file.Commented (Layout.of text run.1 run.2.comments) := by
  intro text run
  have hlimit : byteLength text ≤ Span.limit := by decide +kernel
  have hgroups : ((SourceFile.ofText text).toOption.map fun file =>
      file.attachments.map (·.group?)) =
        some [none, some 0, some 1, some 2, none, none, none, some 3, none, none, none] := by
    decide +kernel
  cases hfile : SourceFile.ofText text with
  | error e =>
    rw [hfile] at hgroups
    cases hgroups
  | ok file =>
    rw [hfile] at hgroups
    exact ⟨hlimit, file, rfl, Option.some.inj hgroups, SourceFile.commented_ofText hlimit hfile⟩

end GoDecls.Tree
