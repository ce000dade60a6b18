/-
  Reading of whole files.

  A file is its package clause and its declarations.  After a diagnostic,
  reading goes on behind the next semicolon that a declaration or the end
  follows, so that a file has all its diagnostics; one is enough to refuse it.

  `SourceFile.ofText` is the tree of a text, or its diagnostics: the lexical
  ones if there are any, else the syntactic ones.
-/
import GoDecls.Token.Lexer
import GoDecls.Tree.Decls

namespace GoDecls.Tree

namespace Cursor

/-- The cursor where reading goes on after a diagnostic. -/
def recover (c : Cursor) : Cursor := c.skip (recoverExtent c.rest)

/-- Recovery moves on, unless nothing is left. -/
theorem recover_lt {c d : Cursor} {t : Token} (h : c.token? = some t) (k : d.left ≤ c.left) :
    d.recover.left < c.left := by
  have hp := left_pos h
  rw [recover, left_skip]
  cases hr : d.rest with
  | nil =>
    have : d.left = 0 := by simp [left, hr]
    omega
  | cons l ls =>
    have : 0 < recoverExtent (l :: ls) := by unfold recoverExtent; split <;> omega
    omega

/-- Reads the package clause. -/
def packageClause (c : Cursor) : Outcome (Span × Ident) c :=
  (c.expect (.keyword .package) "package clause").bind fun keyword d _ =>
    (d.ident "package name").andThen fun name e m => endDecl (keyword, name) e m

/-- Reads declarations to the end of the text. -/
def decls (layout : Layout) (c : Cursor) : List Decl × List Diagnostic :=
  match _h : c.token? with
  | none => ([], [])
  | some (.punct .semi) => c.advance.decls layout
  | some _ =>
    match c.decl layout with
    | .ok d next _ =>
      let more := next.decls layout
      (d :: more.1, more.2)
    | .error fault stop _ =>
      let more := stop.recover.decls layout
      (more.1, fault :: more.2)
termination_by c.left
decreasing_by
  · exact advance_lt _h
  · assumption
  · exact recover_lt _h (by assumption)

end Cursor

/-- The file that the cursor is at the front of, and its diagnostics. -/
def SourceFile.read (layout : Layout) (c : Cursor) : SourceFile × List Diagnostic :=
  let doc := layout.docFor? c.start
  match c.packageClause with
  | .ok (keyword, name) next _ =>
    let more := next.decls layout
    (⟨keyword, name.text, doc, more.1, layout.groups⟩, more.2)
  | .error fault stop _ =>
    let more := stop.recover.decls layout
    (⟨.zero, "", doc, more.1, layout.groups⟩, fault :: more.2)

/-- The tree of a text, if it has no diagnostics. -/
def SourceFile.ofText (text : List Char) : Except (List Diagnostic) SourceFile :=
  let (tokens, lexer) := (Lexer.ofText text).run
  if lexer.diagnostics.isEmpty then
    let layout := Layout.of text tokens lexer.comments
    let (file, faults) := SourceFile.read layout ⟨tokens, 0, Text.byteLength text⟩
    if faults.isEmpty then .ok file else .error faults
  else .error lexer.diagnostics

/-- The comments of a file are those of its layout. -/
theorem SourceFile.read_comments (layout : Layout) (c : Cursor) :
    (SourceFile.read layout c).1.comments = layout.groups := by
  unfold SourceFile.read
  dsimp only
  split <;> rfl

/-- A text has a tree if neither the lexer nor the reader has anything against it. -/
theorem SourceFile.ofText_eq_ok_iff {text : List Char} {file : SourceFile} :
    SourceFile.ofText text = .ok file ↔ (Lexer.ofText text).run.2.diagnostics = [] ∧
      SourceFile.read (Layout.of text (Lexer.ofText text).run.1 (Lexer.ofText text).run.2.comments)
        ⟨(Lexer.ofText text).run.1, 0, Text.byteLength text⟩ = (file, []) := by
  unfold SourceFile.ofText
  simp only [← List.isEmpty_iff (l := (Lexer.ofText text).run.2.diagnostics)]
  split
  · next hlex =>
    split
    · next hread =>
      rw [List.isEmpty_iff] at hread
      constructor
      · intro h
        cases h
        exact ⟨hlex, Prod.ext rfl hread⟩
      · rintro ⟨-, h⟩
        rw [h]
    · next hread =>
      refine ⟨nofun, fun h => ?_⟩
      rw [h.2] at hread
      exact absurd rfl hread
  · next hlex => exact ⟨nofun, fun h => absurd h.1 hlex⟩

end GoDecls.Tree
