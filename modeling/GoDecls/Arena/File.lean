/-
  Reading of declarations and files into a store.

  The comment groups are added first, so that declarations can hold their ids; the
  lists of the declarations and of the groups are added last.  A declaration that is
  refused leaves nothing in the store: its file is refused too.

  `StoredFile.ofText` is the file of a text, or its diagnostics.
-/
import GoDecls.Arena.Types
import GoDecls.Tree.File

namespace GoDecls

open Tree

namespace Arena

/-! ## Comment groups -/

/-- Adds a comment. -/
def storeComment (c : Comment) (s : Store) : NodeId .comment × Store :=
  s.alloc (k := .comment) c.kind c.span

/-- Adds a comment group. -/
def storeGroup (g : CommentGroup) (s : Store) : NodeId .group × Store :=
  let ids := storeAll storeComment g.comments s
  let list := ids.2.push (b := .comments) ids.1
  list.2.alloc (k := .group) list.1 g.span

/-- The layout of a text, and the ids of its comment groups. -/
structure Notes where
  layout : Layout
  ids : List (NodeId .group)

namespace Notes

/-- The group that documents what begins at the position. -/
def docFor? (n : Notes) (pos : Nat) : Option (NodeId .group) :=
  (n.layout.docFor? pos).bind fun i => n.ids[i]?

/-- The group that trails what ends at the position. -/
def lineCommentAfter? (n : Notes) (pos : Nat) : Option (NodeId .group) :=
  (n.layout.lineCommentAfter? pos).bind fun i => n.ids[i]?

end Notes

end Arena

namespace Tree.Cursor

open Arena

/-! ## Type parameters -/

/-- Reads names of type parameters and their constraint. -/
def typeParamIn (c : Cursor) (s : Store) : Outcome (NodeId .typeParam × Store) c :=
  (c.names "type parameter name").bind fun names d _ =>
    (d.unionIn s).map fun terms e =>
      let constraint := terms.2.push (b := .terms) terms.1
      let names := constraint.2.push (b := .idents) names
      names.2.alloc (k := .typeParam) ⟨names.1, constraint.1⟩ (e.spanFrom c.start)

/-- Reads type parameters up to and with the closing bracket. -/
def typeParamListIn (c : Cursor) (s : Store) :
    Outcome (List (NodeId .typeParam) × Store) c :=
  if h : c.token? = some (.punct .rbrack) then .ok ([], s) c.advance (advance_lt h)
  else
    (c.typeParamIn s).bind fun p d _m =>
      if d.token? = some (.punct .comma) then
        ((d.advance.typeParamListIn p.2).lift d.advance_le).map fun ps _ =>
          (p.1 :: ps.1, ps.2)
      else (d.expect (.punct .rbrack) "']'").map fun _ _ => ([p.1], p.2)
termination_by c.left
decreasing_by exact Nat.lt_of_le_of_lt d.advance_le _m

/-- Reads type parameters with their brackets. -/
def typeParamsIn (c : Cursor) (s : Store) : Outcome (NodeId .typeParams × Store) c :=
  (c.expect (.punct .lbrack) "'['").bind fun _ d _ =>
    (d.typeParamListIn s).map fun ps e =>
      let list := ps.2.push (b := .typeParams) ps.1
      list.2.alloc (k := .typeParams) list.1 (e.spanFrom c.start)

/-! ## Specs -/

/-- Reads an imported path, which a name may precede. -/
def importSpecIn (doc : Option (NodeId .group)) (c : Cursor) (s : Store) :
    Outcome (ImportItem × Store) c :=
  ((c.importName?.2.stringLiteral "import path").lift c.importName?_le).map fun path _ =>
    (⟨doc, c.importName?.1, path⟩, s)

/-- Reads a declared type behind its name and type parameters. -/
def typeSpecTailIn (notes : Notes) (doc : Option (NodeId .group)) (name : Ident)
    (params : Option (NodeId .typeParams)) (c : Cursor) (s : Store) :
    Outcome (TypeItem × Store) c :=
  if c.token? = some (.punct .assign) then
    ((c.advance.typeIn s).lift c.advance_le).map fun type d =>
      (⟨doc, notes.lineCommentAfter? d.last, name, params, some c.span, type.1⟩, type.2)
  else
    (c.typeIn s).map fun type d =>
      (⟨doc, notes.lineCommentAfter? d.last, name, params, none, type.1⟩, type.2)

/-- Reads a declared type. -/
def typeSpecIn (notes : Notes) (doc : Option (NodeId .group)) (c : Cursor) (s : Store) :
    Outcome (TypeItem × Store) c :=
  (c.ident "type name").bind fun name d _ =>
    if d.atTypeParams then
      (d.typeParamsIn s).bind fun ps e _ => e.typeSpecTailIn notes doc name (some ps.1) ps.2
    else d.typeSpecTailIn notes doc name none s

/-- Reads specs up to and with the closing parenthesis, whose place is given
    too. -/
def specsIn {β : Type} (spec : (c : Cursor) → Store → Outcome (β × Store) c) (c : Cursor)
    (s : Store) : Outcome ((List β × Span) × Store) c :=
  match h : c.token? with
  | none => c.fails "')'"
  | some (.punct .rparen) => .ok (([], c.span), s) c.advance (advance_lt h)
  | some (.punct .semi) => (specsIn spec c.advance s).lift c.advance_le
  | some _ =>
    (spec c s).bind fun item d _ =>
      if d.token? = some (.punct .rparen) then
        (specsIn spec d item.2).map fun more _ => ((item.1 :: more.1.1, more.1.2), more.2)
      else
        (d.expect (.punct .semi) "';' or ')'").bind fun _ e _ =>
          (specsIn spec e item.2).map fun more _ => ((item.1 :: more.1.1, more.1.2), more.2)
termination_by c.left
decreasing_by all_goals grind [left_advance, left_pos]

/-! ## Declarations -/

/-- Reads a declaration of specs, from its keyword on. -/
def specDeclIn {β : Type} (notes : Notes)
    (spec : Option (NodeId .group) → (c : Cursor) → Store → Outcome (β × Store) c)
    (c : Cursor) (s : Store) : Outcome ((HeadItem × List β) × Store) c :=
  let doc := notes.docFor? c.start
  let d := c.advance
  if d.token? = some (.punct .lparen) then
    (((specsIn (fun e => spec (notes.docFor? e.start) e) d.advance s).lift d.advance_le).lift
        c.advance_le).andThen fun more e m =>
      endDecl ((⟨doc, c.span, some (d.span, more.1.2)⟩, more.1.1), more.2) e m
  else
    ((spec none d s).lift c.advance_le).andThen fun item e m =>
      endDecl ((⟨doc, c.span, none⟩, [item.1]), item.2) e m

/-- Passes over a declaration that is not read. -/
def passed {α : Type} {t : Token} (a : α) (c : Cursor) (h : c.token? = some t) : Outcome α c :=
  .ok a c.skipDecl (skipDecl_lt h)

/-- Reads a declaration. -/
def declIn (notes : Notes) (c : Cursor) (s : Store) : Outcome (DeclItem × Store) c :=
  let head : HeadItem := ⟨notes.docFor? c.start, c.span, none⟩
  match h : c.token? with
  | some (.keyword .import_) =>
    (c.specDeclIn notes importSpecIn s).map fun p _ =>
      let list := p.2.push (b := .specs) (p.1.2.map .imported)
      (.gen .imports p.1.1 list.1, list.2)
  | some (.keyword .type) =>
    (c.specDeclIn notes (typeSpecIn notes) s).map fun p _ =>
      let list := p.2.push (b := .specs) (p.1.2.map .type)
      (.gen .types p.1.1 list.1, list.2)
  | some (.keyword .const) => passed (.gen .consts head .empty, s) c h
  | some (.keyword .var) => passed (.gen .vars head .empty, s) c h
  | some (.keyword .func) => passed (.func (c.skipDecl.spanFrom c.start), s) c h
  | _ => c.fails "declaration"

/-- Reads declarations to the end of the text. -/
def declsIn (notes : Notes) (c : Cursor) (s : Store) :
    (List DeclItem × Store) × List Diagnostic :=
  match _h : c.token? with
  | none => (([], s), [])
  | some (.punct .semi) => c.advance.declsIn notes s
  | some _ =>
    match c.declIn notes s with
    | .ok decl next _ =>
      let more := next.declsIn notes decl.2
      ((decl.1 :: more.1.1, more.1.2), more.2)
    | .error fault stop _ =>
      let more := stop.recover.declsIn notes s
      (more.1, fault :: more.2)
termination_by c.left
decreasing_by
  · exact advance_lt _h
  · assumption
  · exact recover_lt _h (by assumption)

end Tree.Cursor

/-! ## Files -/

namespace Arena

/-- A file and the store of its nodes and lists. -/
structure StoredFile where
  keyword : Span
  package : String
  doc : Option (NodeId .group)
  decls : ListRef .decls
  comments : ListRef .groups
  store : Store

namespace StoredFile

/-- The file of declarations that are read. -/
def ofDecls (keyword : Span) (package : String) (doc : Option (NodeId .group))
    (groups : List (NodeId .group)) (decls : List DeclItem × Store) : StoredFile :=
  let list := decls.2.push (b := .decls) decls.1
  let comments := list.2.push (b := .groups) groups
  ⟨keyword, package, doc, list.1, comments.1, comments.2⟩

/-- The file that the cursor is at the front of, and its diagnostics. -/
def read (layout : Layout) (c : Cursor) : StoredFile × List Diagnostic :=
  let groups := storeAll storeGroup layout.groups .empty
  let notes : Notes := ⟨layout, groups.1⟩
  let doc := notes.docFor? c.start
  match c.packageClause with
  | .ok (keyword, name) next _ =>
    let more := next.declsIn notes groups.2
    (ofDecls keyword name.text doc groups.1 more.1, more.2)
  | .error fault stop _ =>
    let more := stop.recover.declsIn notes groups.2
    (ofDecls .zero "" doc groups.1 more.1, fault :: more.2)

/-- The file of a text, if it has no diagnostics. -/
def ofText (text : List Char) : Except (List Diagnostic) StoredFile :=
  let (tokens, lexer) := (Lexer.ofText text).run
  if lexer.diagnostics.isEmpty then
    let layout := Layout.of text tokens lexer.comments
    let (file, faults) := read layout ⟨tokens, 0, Text.byteLength text⟩
    if faults.isEmpty then .ok file else .error faults
  else .error lexer.diagnostics

end StoredFile

end Arena

end GoDecls
