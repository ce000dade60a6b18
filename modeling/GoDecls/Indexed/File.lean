/-
  Reading of declarations and of whole files by index.
-/
import GoDecls.Indexed.Types
import GoDecls.Tree.File

namespace GoDecls.Indexed

open Tree

/-! ## Type parameters -/

/-- The square bracket opens a list of type parameters. -/
def Tokens.opensTypeParams (toks : Tokens) : Read Bool := do
  match ← toks.tok, ← toks.nth 1, ← toks.nth 2 with
  | some (.punct .lbrack), some (.ident _), some t => return Cursor.continuesTypeParams t
  | _, _, _ => return false

/-- Reads names of type parameters and their constraint. -/
def Tokens.typeParam (toks : Tokens) : Read TypeParam := do
  let start ← toks.start
  let names ← toks.names "type parameter name"
  let terms ← toks.union
  return ⟨← spanFrom start, names, terms⟩

/-- A round over a list of type parameters. -/
def Tokens.typeParamRound (toks : Tokens) : Read (Round TypeParam) :=
  toks.listRound (.punct .rbrack) toks.typeParam

/-- Reads type parameters with their brackets. -/
def Tokens.typeParams (toks : Tokens) : Read TypeParams := do
  let start ← toks.start
  let _ ← toks.expect (.punct .lbrack) "'['"
  let params ← toks.typeParamRound.rounds
  let _ ← toks.expect (.punct .rbrack) "']'"
  return ⟨← spanFrom start, params⟩

/-! ## Specs -/

/-- Reads the name that an import is given, if it has one. -/
def Tokens.importName (toks : Tokens) : Read (Option ImportName) := do
  match ← toks.tok with
  | some (.punct .dot) => return some (.dot (← toks.bump))
  | some (.ident s) =>
    if s = "_" then return some (.blank (← toks.bump))
    else return some (.named (← toks.ident "import name"))
  | _ => return none

/-- Reads the path that is imported. -/
def Tokens.importPath (toks : Tokens) : Read Span := do
  match ← toks.stringLiteral with
  | some path => return path
  | none => toks.unexpected "import path"

/-- Reads an imported path, which a name may precede. -/
def Tokens.importSpec (toks : Tokens) (doc : Option Nat) : Read ImportSpec := do
  let name ← toks.importName
  return ⟨doc, name, ← toks.importPath⟩

/-- Reads a declared type. -/
def Tokens.typeSpec (toks : Tokens) (layout : Layout) (doc : Option Nat) : Read TypeSpec := do
  let name ← toks.ident "type name"
  let params ←
    if ← toks.opensTypeParams then pure (some (← toks.typeParams)) else pure none
  let assign ← toks.eat (.punct .assign)
  let type ← toks.type
  return ⟨doc, layout.lineCommentAfter? (← lastEnd), name, params, assign, type⟩

/-- A round over the specs between parentheses; each has its own doc comment. -/
def Tokens.specRound {α : Type} (toks : Tokens) (layout : Layout)
    (spec : Option Nat → Read α) : Read (Round α) :=
  toks.memberRound (.punct .rparen) "')'" "';' or ')'" do
    spec (layout.docFor? (← toks.start))

/-! ## Declarations -/

/-- Ends a declaration: a semicolon must stand here, or nothing. -/
def Tokens.endDecl (toks : Tokens) : Read Unit := do
  match ← toks.tok with
  | none => return ()
  | some (.punct .semi) =>
    let _ ← toks.bump
    return ()
  | some _ => toks.unexpected "';' or newline"

/-- Reads a declaration of specs, from its keyword on. -/
def Tokens.specDecl {α : Type} (toks : Tokens) (layout : Layout)
    (spec : Option Nat → Read α) : Read (DeclHead × List α) := do
  let doc := layout.docFor? (← toks.start)
  let keyword ← toks.bump
  match ← toks.eat (.punct .lparen) with
  | some lparen =>
    let specs ← (toks.specRound layout spec).rounds
    let rparen ← toks.bump
    toks.endDecl
    return (⟨doc, keyword, some (lparen, rparen)⟩, specs)
  | none =>
    let s ← spec none
    toks.endDecl
    return (⟨doc, keyword, none⟩, [s])

/-- Goes on behind the semicolon outside all brackets that ends a declaration. -/
def Tokens.skipDecl (toks : Tokens) (depth : Nat) : Read Unit := do
  match ← toks.tok with
  | none => return ()
  | some t =>
    let _ ← toks.bump
    if t = .punct .semi ∧ depth = 0 then return () else toks |>.skipDecl (nest depth t)
partial_fixpoint

/-- Reads a declaration. -/
def Tokens.decl (toks : Tokens) (layout : Layout) : Read Decl := do
  let start ← toks.start
  let head : DeclHead := ⟨layout.docFor? start, ← toks.span, none⟩
  match ← toks.tok with
  | some (.keyword .import_) =>
    let (head, specs) ← toks.specDecl layout toks.importSpec
    return .imports head specs
  | some (.keyword .type) =>
    let (head, specs) ← toks.specDecl layout (toks.typeSpec layout)
    return .types head specs
  | some (.keyword .const) =>
    toks.skipDecl 0
    return .consts head
  | some (.keyword .var) =>
    toks.skipDecl 0
    return .vars head
  | some (.keyword .func) =>
    toks.skipDecl 0
    return .func (← spanFrom start)
  | _ => toks.unexpected "declaration"

/-! ## Files -/

/-- Reads the package clause. -/
def Tokens.packageClause (toks : Tokens) : Read (Span × Ident) := do
  let keyword ← toks.expect (.keyword .package) "package clause"
  let name ← toks.ident "package name"
  toks.endDecl
  return (keyword, name)

/-- A round of recovery: one token, which is the last if it is a semicolon and a
    declaration or nothing follows. -/
def Tokens.recoverRound (toks : Tokens) : Read (Round Unit) := do
  match ← toks.tok with
  | none => return .done none
  | some t =>
    let _ ← toks.bump
    let next ← toks.tok
    if t = .punct .semi ∧ next.all declares then return .done none else return .again none

/-- Goes on to where reading goes on after a diagnostic. -/
def Tokens.recover (toks : Tokens) : Read Unit := do
  let _ ← toks.recoverRound.rounds

/-- A round over the declarations of a file: one, or the diagnostic behind which reading
    goes on. -/
def Tokens.fileRound (toks : Tokens) (layout : Layout) : Read (Round (Except Diagnostic Decl)) := do
  match ← toks.tok with
  | none => return .done none
  | some (.punct .semi) =>
    let _ ← toks.bump
    return .again none
  | some _ =>
    match ← attempt (toks.decl layout) with
    | .ok d => return .again (some (.ok d))
    | .error fault =>
      toks.recover
      return .again (some (.error fault))

/-- The declarations and the diagnostics of what was read, each in order. -/
def sorted (read : List (Except Diagnostic Decl)) : List Decl × List Diagnostic :=
  (read.filterMap fun | .ok d => some d | .error _ => none,
    read.filterMap fun | .ok _ => none | .error fault => some fault)

/-- Reads a file. -/
def Tokens.file (toks : Tokens) (layout : Layout) : Read (SourceFile × List Diagnostic) := do
  let doc := layout.docFor? (← toks.start)
  match ← attempt toks.packageClause with
  | .ok (keyword, name) =>
    let (decls, faults) := sorted (← (toks.fileRound layout).rounds)
    return (⟨keyword, name.text, doc, decls, layout.groups⟩, faults)
  | .error fault =>
    toks.recover
    let (decls, faults) := sorted (← (toks.fileRound layout).rounds)
    return (⟨.zero, "", doc, decls, layout.groups⟩, fault :: faults)

end GoDecls.Indexed
