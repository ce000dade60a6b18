/-
  Reading of types by index.

  The readers call each other, each on the position where the one before has ended; that
  they end, and where, is not part of their definition.
-/
import GoDecls.Indexed.Basic

namespace GoDecls.Indexed

open Tree

/-- The field is embedded, or has names. -/
def Tokens.embedsField (toks : Tokens) : Read Bool := do
  match ← toks.tok with
  | some (.punct .star) => return true
  | some (.ident _) =>
    match ← toks.nth 1 with
    | none => return true
    | some (.punct .dot) => return true
    | some (.punct .semi) => return true
    | some (.punct .rbrace) => return true
    | some (.string _) => return true
    | some (.rawString _) => return true
    | some (.punct .lbrack) => return !(← toks.bracketThenType 1)
    | some _ => return false
  | _ => toks.unexpected "field name or embedded type"

/-- Reads a string literal, if there is one. -/
def Tokens.stringLiteral (toks : Tokens) : Read (Option Span) := do
  match ← toks.tok with
  | some t => if t.isString then return some (← toks.bump) else return none
  | none => return none

/-- Reads a name and the package before it, if there is one. -/
def Tokens.qualified (toks : Tokens) : Read (Option Ident × Ident) := do
  let first ← toks.ident "type name"
  match ← toks.eat (.punct .dot) with
  | some _ => return (some first, ← toks.ident "type name")
  | none => return (none, first)

/-- Reads the name of a parameter, if it has one whose type follows. -/
def Tokens.paramName (toks : Tokens) : Read (Option Ident) := do
  match ← toks.tok, ← toks.nth 1 with
  | some (.ident _), some (.punct .lbrack) =>
    if ← toks.bracketThenType 1 then return some (← toks.ident "parameter name")
    else return none
  | some (.ident _), some (.punct .dot) => return none
  | some (.ident _), some (.punct .ellipsis) => return some (← toks.ident "parameter name")
  | some (.ident _), some t =>
    if t.startsType then return some (← toks.ident "parameter name") else return none
  | _, _ => return none

/-- The list of these entries, if all of them are named or none is. -/
def fieldListOf (lparen : Span) (params : List Param) (rparen : Span) : Read FieldList :=
  match Param.toFields params with
  | .ok fields => return ⟨lparen, fields, rparen⟩
  | .error fault => throw (.refused fault)

mutual

/-- Reads a type. -/
def Tokens.type (toks : Tokens) : Read TypeExpr := do
  let start ← toks.start
  match ← toks.tok with
  | some (.ident _) => toks |>.namedType
  | some (.punct .lbrack) => toks |>.arrayOrSlice
  | some (.keyword .struct) => toks |>.struct
  | some (.keyword .interface) => toks |>.interface
  | some (.punct .star) =>
    let star ← toks.bump
    let elem ← toks |>.type
    return .pointer (← spanFrom start) star elem
  | some (.keyword .map) =>
    let _ ← toks.bump
    let _ ← toks.expect (.punct .lbrack) "'['"
    let key ← toks |>.type
    let _ ← toks.expect (.punct .rbrack) "']'"
    let value ← toks |>.type
    return .map (← spanFrom start) key value
  | some (.keyword .chan) =>
    let _ ← toks.bump
    let dir := match ← toks.eat (.punct .arrow) with
      | some _ => .send
      | none => .both
    let elem ← toks |>.type
    return .chan (← spanFrom start) dir elem
  | some (.punct .arrow) =>
    let _ ← toks.bump
    let _ ← toks.expect (.keyword .chan) "'chan'"
    let elem ← toks |>.type
    return .chan (← spanFrom start) .recv elem
  | some (.keyword .func) =>
    let _ ← toks.bump
    let sig ← toks |>.signature start
    return .func (← spanFrom start) sig
  | some (.punct .lparen) =>
    let _ ← toks.bump
    let inner ← toks |>.type
    let _ ← toks.expect (.punct .rparen) "')'"
    return .paren (← spanFrom start) inner
  | _ => toks.unexpected "type"
partial_fixpoint

/-- Reads a type that is a name, perhaps of a package, perhaps with arguments. -/
def Tokens.namedType (toks : Tokens) : Read TypeExpr := do
  let start ← toks.start
  let (pkg, name) ← toks.qualified
  let args ← match ← toks.eat (.punct .lbrack) with
    | some _ => toks |>.typeArgs
    | none => pure []
  return .named (← spanFrom start) pkg name args
partial_fixpoint

/-- Reads type arguments up to and with the closing bracket. -/
def Tokens.typeArgs (toks : Tokens) : Read (List TypeExpr) := do
  let args ← toks |>.typeArgRounds
  let _ ← toks.expect (.punct .rbrack) "']'"
  return args
partial_fixpoint

/-- Goes through the rounds of a list of type arguments. -/
def Tokens.typeArgRounds (toks : Tokens) : Read (List TypeExpr) := do
  match ← toks.listRound (.punct .rbrack) (toks |>.type) with
  | .done a => return a.toList
  | .again a => return a.toList ++ (← toks |>.typeArgRounds)
partial_fixpoint

/-- Reads an array or slice type. -/
def Tokens.arrayOrSlice (toks : Tokens) : Read TypeExpr := do
  let start ← toks.start
  let _ ← toks.expect (.punct .lbrack) "'['"
  match ← toks.eat (.punct .rbrack) with
  | some _ =>
    let elem ← toks |>.type
    return .slice (← spanFrom start) elem
  | none =>
    let length ←
      if (← toks.isAt (.punct .ellipsis)) ∧ (← toks.nth 1) = some (.punct .rbrack) then
        pure (.ellipsis (← toks.bump))
      else toks.arrayLength
    let _ ← toks.expect (.punct .rbrack) "']'"
    let elem ← toks |>.type
    return .array (← spanFrom start) length elem
partial_fixpoint

/-- Reads a struct type. -/
def Tokens.struct (toks : Tokens) : Read TypeExpr := do
  let start ← toks.start
  let _ ← toks.expect (.keyword .struct) "'struct'"
  let _ ← toks.expect (.punct .lbrace) "'\x7b'"
  let fields ← toks |>.structRounds
  let _ ← toks.bump
  return .struct (← spanFrom start) fields
partial_fixpoint

/-- Goes through the rounds of the fields of a struct. -/
def Tokens.structRounds (toks : Tokens) : Read (List Field) := do
  match ← toks.memberRound (.punct .rbrace) "'\x7d'" "';' or '\x7d'" (toks |>.field) with
  | .done a => return a.toList
  | .again a => return a.toList ++ (← toks |>.structRounds)
partial_fixpoint

/-- Reads a field of a struct, its tag included. -/
def Tokens.field (toks : Tokens) : Read Field := do
  let start ← toks.start
  let embedded ← toks.embedsField
  let names ← if embedded then pure [] else toks.names "field name"
  let type ← toks |>.type
  let tag ← toks.stringLiteral
  return ⟨← spanFrom start, names, none, type, tag, embedded⟩
partial_fixpoint

/-- Reads an interface type. -/
def Tokens.interface (toks : Tokens) : Read TypeExpr := do
  let start ← toks.start
  let _ ← toks.expect (.keyword .interface) "'interface'"
  let _ ← toks.expect (.punct .lbrace) "'\x7b'"
  let elems ← toks |>.interfaceRounds
  let _ ← toks.bump
  return .interface (← spanFrom start) elems
partial_fixpoint

/-- Goes through the rounds of the members of an interface. -/
def Tokens.interfaceRounds (toks : Tokens) : Read (List InterfaceElem) := do
  match ← toks.memberRound (.punct .rbrace) "'\x7d'" "';' or '\x7d'" (toks |>.interfaceElem) with
  | .done a => return a.toList
  | .again a => return a.toList ++ (← toks |>.interfaceRounds)
partial_fixpoint

/-- Reads a member of an interface. -/
def Tokens.interfaceElem (toks : Tokens) : Read InterfaceElem := do
  match ← toks.tok, ← toks.nth 1 with
  | some (.ident _), some (.punct .lparen) =>
    let start ← toks.start
    let name ← toks.ident "method name"
    return .method name (← toks |>.signature start)
  | _, _ => return .union (← toks |>.union)
partial_fixpoint

/-- Reads types joined by `|`. -/
def Tokens.union (toks : Tokens) : Read (List Term) := do
  let term ← toks |>.term
  match ← toks.eat (.punct .pipe) with
  | some _ => return term :: (← toks |>.union)
  | none => return [term]
partial_fixpoint

/-- Reads a type, perhaps behind `~`. -/
def Tokens.term (toks : Tokens) : Read Term := do
  let tilde ← toks.eat (.punct .tilde)
  let type ← toks |>.type
  return ⟨tilde, type⟩
partial_fixpoint

/-- Reads parameters and results; the stretch begins at `start`. -/
def Tokens.signature (toks : Tokens) (start : Nat) : Read Signature := do
  let params ← toks |>.fieldList
  match ← toks.tok with
  | some (.punct .lparen) =>
    let results ← toks |>.fieldList
    return ⟨← spanFrom start, params, .list results⟩
  | some t =>
    if t.startsType then
      let result ← toks |>.type
      return ⟨← spanFrom start, params, .single result⟩
    else return ⟨← spanFrom start, params, .none⟩
  | none => return ⟨← spanFrom start, params, .none⟩
partial_fixpoint

/-- Reads a list of parameters or results with its parentheses. -/
def Tokens.fieldList (toks : Tokens) : Read FieldList := do
  let lparen ← toks.expect (.punct .lparen) "'('"
  let params ← toks |>.paramRounds
  let rparen ← toks.expect (.punct .rparen) "')'"
  fieldListOf lparen params rparen
partial_fixpoint

/-- Goes through the rounds of a list of parameters or results. -/
def Tokens.paramRounds (toks : Tokens) : Read (List Param) := do
  match ← toks.listRound (.punct .rparen) (toks |>.param) with
  | .done a => return a.toList
  | .again a => return a.toList ++ (← toks |>.paramRounds)
partial_fixpoint

/-- Reads an entry of a list of parameters or results. -/
def Tokens.param (toks : Tokens) : Read Param := do
  let start ← toks.start
  match ← toks.tok, ← toks.nth 1 with
  | some (.ident _), some (.punct .comma) => return .bare (← toks.ident "parameter name")
  | some (.ident _), some (.punct .rparen) => return .bare (← toks.ident "parameter name")
  | _, _ =>
    let name ← toks.paramName
    let (ellipsis, type) ← toks |>.paramType
    return .typed (← spanFrom start) name ellipsis type
partial_fixpoint

/-- Reads the type of a parameter, which `...` may precede. -/
def Tokens.paramType (toks : Tokens) : Read (Option Span × TypeExpr) := do
  let ellipsis ← toks.eat (.punct .ellipsis)
  let type ← toks |>.type
  return (ellipsis, type)
partial_fixpoint

end

end GoDecls.Indexed
