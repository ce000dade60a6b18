/-
  Reading of declarations.

  An import or type declaration holds one spec, or several between parentheses;
  of the other declarations only the extent is found.  A spec between
  parentheses has its own doc comment, a single one has that of its declaration.
-/
import GoDecls.Tree.Types

namespace GoDecls.Tree

namespace Cursor

/-! ## Type parameters -/

/-- What may follow the first name of a list of type parameters: in an array
    length it would not. -/
def continuesTypeParams : Token → Bool
  | .ident _ => true
  | .punct .comma | .punct .tilde | .punct .lbrack => true
  | .keyword .interface | .keyword .struct | .keyword .map => true
  | .keyword .chan | .keyword .func => true
  | _ => false

/-- The square bracket at the cursor opens a list of type parameters. -/
def atTypeParams (c : Cursor) : Bool :=
  match c.rest.map Lexeme.token with
  | .punct .lbrack :: .ident _ :: t :: _ => continuesTypeParams t
  | _ => false

/-- Reads names of type parameters and their constraint. -/
def typeParam (c : Cursor) : Outcome TypeParam c :=
  (c.names "type parameter name").bind fun names d _ =>
    d.union.map fun terms e => ⟨e.spanFrom c.start, names, terms⟩

/-- Reads type parameters up to and with the closing bracket. -/
def typeParamList (c : Cursor) : Outcome (List TypeParam) c :=
  if h : c.token? = some (.punct .rbrack) then .ok [] c.advance (advance_lt h)
  else
    c.typeParam.bind fun p d _m =>
      if d.token? = some (.punct .comma) then
        (d.advance.typeParamList.lift d.advance_le).map fun ps _ => p :: ps
      else (d.expect (.punct .rbrack) "']'").map fun _ _ => [p]
termination_by c.left
decreasing_by exact Nat.lt_of_le_of_lt d.advance_le _m

/-- Reads type parameters with their brackets. -/
def typeParams (c : Cursor) : Outcome TypeParams c :=
  (c.expect (.punct .lbrack) "'['").bind fun _ d _ =>
    d.typeParamList.map fun ps e => ⟨e.spanFrom c.start, ps⟩

/-! ## Specs -/

/-- The name at the cursor that an import is given, and the cursor behind it. -/
def importName? (c : Cursor) : Option ImportName × Cursor :=
  match c.token? with
  | some (.punct .dot) => (some (.dot c.span), c.advance)
  | some (.ident s) =>
    (some (if s = "_" then .blank c.span else .named ⟨s, c.span⟩), c.advance)
  | _ => (none, c)

theorem importName?_le (c : Cursor) : c.importName?.2.left ≤ c.left := by
  unfold importName?; split
  · exact c.advance_le
  · exact c.advance_le
  · exact Nat.le_refl _

/-- Reads a string literal. -/
def stringLiteral (c : Cursor) (what : String) : Outcome Span c :=
  match h : c.token? with
  | some (.string _) => .ok c.span c.advance (advance_lt h)
  | some (.rawString _) => .ok c.span c.advance (advance_lt h)
  | _ => c.fails what

/-- Reads an imported path, which a name may precede. -/
def importSpec (doc : Option Nat) (c : Cursor) : Outcome ImportSpec c :=
  ((c.importName?.2.stringLiteral "import path").lift c.importName?_le).map fun path _ =>
    ⟨doc, c.importName?.1, path⟩

/-- Reads a declared type behind its name and type parameters. -/
def typeSpecTail (layout : Layout) (doc : Option Nat) (name : Ident)
    (params : Option TypeParams) (c : Cursor) : Outcome TypeSpec c :=
  if c.token? = some (.punct .assign) then
    (c.advance.type.lift c.advance_le).map fun type d =>
      ⟨doc, layout.lineCommentAfter? d.last, name, params, some c.span, type⟩
  else
    c.type.map fun type d =>
      ⟨doc, layout.lineCommentAfter? d.last, name, params, none, type⟩

/-- Reads a declared type. -/
def typeSpec (layout : Layout) (doc : Option Nat) (c : Cursor) : Outcome TypeSpec c :=
  (c.ident "type name").bind fun name d _ =>
    if d.atTypeParams then
      d.typeParams.bind fun ps e _ => e.typeSpecTail layout doc name (some ps)
    else d.typeSpecTail layout doc name none

/-- Reads specs up to and with the closing parenthesis, whose place is given
    too. -/
def specs {α : Type} (spec : (c : Cursor) → Outcome α c) (c : Cursor) :
    Outcome (List α × Span) c :=
  match h : c.token? with
  | none => c.fails "')'"
  | some (.punct .rparen) => .ok ([], c.span) c.advance (advance_lt h)
  | some (.punct .semi) => (specs spec c.advance).lift c.advance_le
  | some _ =>
    (spec c).bind fun s d _ =>
      if d.token? = some (.punct .rparen) then
        (specs spec d).map fun more _ => (s :: more.1, more.2)
      else
        (d.expect (.punct .semi) "';' or ')'").bind fun _ e _ =>
          (specs spec e).map fun more _ => (s :: more.1, more.2)
termination_by c.left
decreasing_by all_goals grind [left_advance, left_pos]

/-! ## Declarations -/

/-- Ends a declaration at `d`: a semicolon must stand there, or nothing. -/
def endDecl {α : Type} {c : Cursor} (a : α) (d : Cursor) (m : d.left < c.left) : Outcome α c :=
  match d.token? with
  | none => .ok a d m
  | some (.punct .semi) => .ok a d.advance (Nat.lt_of_le_of_lt d.advance_le m)
  | some _ => (d.fails "';' or newline").after m

/-- Reads a declaration of specs, from its keyword on. -/
def specDecl {α : Type} (layout : Layout) (spec : Option Nat → (c : Cursor) → Outcome α c)
    (c : Cursor) : Outcome (DeclHead × List α) c :=
  let doc := layout.docFor? c.start
  let d := c.advance
  if d.token? = some (.punct .lparen) then
    (((specs (fun e => spec (layout.docFor? e.start) e) d.advance).lift d.advance_le).lift
        c.advance_le).andThen fun more e m =>
      endDecl (⟨doc, c.span, some (d.span, more.2)⟩, more.1) e m
  else
    ((spec none d).lift c.advance_le).andThen fun s e m =>
      endDecl (⟨doc, c.span, none⟩, [s]) e m

/-- The cursor behind a declaration whose content is not read. -/
def skipDecl (c : Cursor) : Cursor := c.skip (declExtent 0 c.rest)

theorem skipDecl_lt {c : Cursor} {t : Token} (h : c.token? = some t) :
    c.skipDecl.left < c.left := by
  have hp := left_pos h
  have : 0 < declExtent 0 c.rest := by
    unfold left at hp
    cases hr : c.rest with
    | nil => simp [hr] at hp
    | cons l ls => unfold declExtent; split <;> omega
  rw [skipDecl, left_skip]
  omega

/-- Reads a declaration. -/
def decl (layout : Layout) (c : Cursor) : Outcome Decl c :=
  let head : DeclHead := ⟨layout.docFor? c.start, c.span, none⟩
  match h : c.token? with
  | some (.keyword .import_) =>
    (c.specDecl layout importSpec).map fun p _ => .imports p.1 p.2
  | some (.keyword .type) =>
    (c.specDecl layout (typeSpec layout)).map fun p _ => .types p.1 p.2
  | some (.keyword .const) => .ok (.consts head) c.skipDecl (skipDecl_lt h)
  | some (.keyword .var) => .ok (.vars head) c.skipDecl (skipDecl_lt h)
  | some (.keyword .func) =>
    .ok (.func (c.skipDecl.spanFrom c.start)) c.skipDecl (skipDecl_lt h)
  | _ => c.fails "declaration"

end Cursor

end GoDecls.Tree
