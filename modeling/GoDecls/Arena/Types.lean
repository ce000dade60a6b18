/-
  Reading of types into a store.

  The readers are those of `Tree.Types`, with the store carried along: a node is
  added when all that it holds is there, and a list when its last item is.  So the
  names of a field stand before its type, the items of inner lists before those of
  outer ones, and the fields of a list of parameters behind all its types.
-/
import GoDecls.Arena.Basic
import GoDecls.Tree.Types

namespace GoDecls

open Tree

/-! ## Lists of parameters and results -/

namespace Arena

/-- An entry of a list as it is written. -/
inductive Entry where
  /-- a name, or a type that is a name -/
  | bare (name : Ident)
  | typed (span : Span) (name : Option Ident) (ellipsis : Option Span) (type : NodeId .type)
deriving Repr

namespace Entry

/-- The entry has both a name and a type. -/
def isNamed : Entry → Bool
  | .typed _ (some _) _ _ => true
  | _ => false

/-- Adds the entry as a field without names. -/
def storeAnonymous : Entry → Store → NodeId .field × Store
  | .bare name, s =>
    let type := s.alloc (k := .type) (.named none name .empty) name.span
    type.2.alloc (k := .field) ⟨.empty, none, type.1, none, false⟩ name.span
  | .typed span _ ellipsis type, s =>
    s.alloc (k := .field) ⟨.empty, ellipsis, type, none, false⟩ span

/-- Adds the fields of a list with names; `pending` are the bare names before. -/
def storeNamed (pending : List Ident) :
    List Entry → Store → Except Diagnostic (List (NodeId .field) × Store)
  | [], s =>
    match pending.getLast? with
    | none => .ok ([], s)
    | some name => .error ⟨name.span, .parse .mixedParameters⟩
  | .bare name :: es, s => storeNamed (pending ++ [name]) es s
  | .typed span name ellipsis type :: es, s =>
    let start := (pending.head?.map (·.span.start)).getD span.start
    let names := s.push (b := .idents) (pending ++ name.toList)
    let field := names.2.alloc (k := .field) ⟨names.1, ellipsis, type, none, false⟩
      ⟨start, span.stop⟩
    (storeNamed [] es field.2).map fun more => (field.1 :: more.1, more.2)

/-- Adds the fields of a list. -/
def storeFields (es : List Entry) (s : Store) :
    Except Diagnostic (List (NodeId .field) × Store) :=
  if es.any isNamed then storeNamed [] es s else .ok (storeAll storeAnonymous es s)

end Entry

/-- Adds the expression of an array length. -/
def storeLength : ArrayLength → Store → LengthRef × Store
  | .ellipsis span, s => (.ellipsis span, s)
  | .expr span e, s =>
    let expr := s.alloc (k := .expr) e span
    (.expr expr.1, expr.2)

/-- Adds a type that ends before `d`. -/
def storeType (node : TypeNode) (start : Nat) (d : Cursor) (s : Store) : NodeId .type × Store :=
  s.alloc (k := .type) node (d.spanFrom start)

end Arena

/-! ## Types -/

namespace Tree.Cursor

open Arena

mutual

/-- Reads a type. -/
def typeIn (c : Cursor) (s : Store) : Outcome (NodeId .type × Store) c :=
  match _h : c.token? with
  | some (.ident _) => c.namedTypeIn s
  | some (.punct .lbrack) => (c.advance.arrayTypeIn c.start s).lift c.advance_le
  | some (.keyword .struct) =>
    ((c.advance.expect (.punct .lbrace) "'\x7b'").bind fun _ d _ =>
      d.structFieldsIn s).lift c.advance_le
      |>.map fun fields e =>
        let list := fields.2.push (b := .fields) fields.1
        storeType (.struct list.1) c.start e list.2
  | some (.keyword .interface) =>
    ((c.advance.expect (.punct .lbrace) "'\x7b'").bind fun _ d _ =>
      d.interfaceElemsIn s).lift c.advance_le
      |>.map fun elems e =>
        let list := elems.2.push (b := .elems) elems.1
        storeType (.interface list.1) c.start e list.2
  | some (.punct .star) =>
    ((c.advance.typeIn s).lift c.advance_le).map fun elem d =>
      storeType (.pointer c.span elem.1) c.start d elem.2
  | some (.keyword .map) =>
    ((c.advance.expect (.punct .lbrack) "'['").bind fun _ d _ =>
      (d.typeIn s).bind fun key e _ =>
        (e.expect (.punct .rbrack) "']'").bind fun _ f _ =>
          (f.typeIn key.2).map fun value g =>
            storeType (.map key.1 value.1) c.start g value.2).lift c.advance_le
  | some (.keyword .chan) =>
    if c.advance.token? = some (.punct .arrow) then
      ((c.advance.advance.typeIn s).lift (Nat.le_trans c.advance.advance_le c.advance_le)).map
        fun elem d => storeType (.chan .send elem.1) c.start d elem.2
    else
      ((c.advance.typeIn s).lift c.advance_le).map fun elem d =>
        storeType (.chan .both elem.1) c.start d elem.2
  | some (.punct .arrow) =>
    ((c.advance.expect (.keyword .chan) "'chan'").bind fun _ d _ =>
      (d.typeIn s).map fun elem e =>
        storeType (.chan .recv elem.1) c.start e elem.2).lift c.advance_le
  | some (.keyword .func) =>
    ((c.advance.signatureIn c.start s).lift c.advance_le).map fun sig d =>
      storeType (.func sig.1) c.start d sig.2
  | some (.punct .lparen) =>
    ((c.advance.typeIn s).bind fun inner d _ =>
      (d.expect (.punct .rparen) "')'").map fun _ e =>
        storeType (.paren inner.1) c.start e inner.2).lift c.advance_le
  | _ => c.fails "type"
termination_by 6 * c.left + 1
decreasing_by all_goals grind [left_advance, left_pos]

/-- Reads a type that is a name, perhaps with arguments. -/
def namedTypeIn (c : Cursor) (s : Store) : Outcome (NodeId .type × Store) c :=
  c.qualified.andThen fun name d m =>
    if d.token? = some (.punct .lbrack) then
      (((d.advance.typeArgsIn s).lift d.advance_le).after m).map fun args e =>
        let list := args.2.push (b := .types) args.1
        storeType (.named name.1 name.2 list.1) c.start e list.2
    else
      let type := storeType (.named name.1 name.2 .empty) c.start d s
      .ok type d m
termination_by 6 * c.left + 0
decreasing_by all_goals grind [left_advance, left_pos]

/-- Reads type arguments up to and with the closing bracket. -/
def typeArgsIn (c : Cursor) (s : Store) : Outcome (List (NodeId .type) × Store) c :=
  if h : c.token? = some (.punct .rbrack) then .ok ([], s) c.advance (advance_lt h)
  else
    (c.typeIn s).bind fun arg d _ =>
      if d.token? = some (.punct .comma) then
        ((d.advance.typeArgsIn arg.2).lift d.advance_le).map fun args _ =>
          (arg.1 :: args.1, args.2)
      else (d.expect (.punct .rbrack) "']'").map fun _ _ => ([arg.1], arg.2)
termination_by 6 * c.left + 2
decreasing_by all_goals grind [left_advance, left_pos]

/-- Reads an array or slice type behind its opening bracket. -/
def arrayTypeIn (c : Cursor) (start : Nat) (s : Store) : Outcome (NodeId .type × Store) c :=
  if _h : c.token? = some (.punct .rbrack) then
    ((c.advance.typeIn s).lift c.advance_le).map fun elem d =>
      storeType (.slice elem.1) start d elem.2
  else if _h : c.token? = some (.punct .ellipsis) ∧ c.second? = some (.punct .rbrack) then
    (c.advance.arrayElemIn start (.ellipsis c.span) s).lift c.advance_le
  else
    c.arrayLength.bind fun length d _ =>
      let length := storeLength length s
      d.arrayElemIn start length.1 length.2
termination_by 6 * c.left + 1
decreasing_by all_goals grind [left_advance, left_pos]

/-- Reads the closing bracket of an array length and the element type. -/
def arrayElemIn (c : Cursor) (start : Nat) (length : LengthRef) (s : Store) :
    Outcome (NodeId .type × Store) c :=
  (c.expect (.punct .rbrack) "']'").bind fun _ d _ =>
    (d.typeIn s).map fun elem e => storeType (.array length elem.1) start e elem.2
termination_by 6 * c.left + 0
decreasing_by all_goals grind [left_advance, left_pos]

/-- Reads the fields of a struct up to and with the closing brace. -/
def structFieldsIn (c : Cursor) (s : Store) : Outcome (List (NodeId .field) × Store) c :=
  match h : c.token? with
  | none => c.fails "'\x7d'"
  | some (.punct .rbrace) => .ok ([], s) c.advance (advance_lt h)
  | some (.punct .semi) => (c.advance.structFieldsIn s).lift c.advance_le
  | some _ =>
    (c.fieldIn s).bind fun field d _ =>
      if d.token? = some (.punct .rbrace) then
        (d.structFieldsIn field.2).map fun fields _ => (field.1 :: fields.1, fields.2)
      else
        (d.expect (.punct .semi) "';' or '\x7d'").bind fun _ e _ =>
          (e.structFieldsIn field.2).map fun fields _ => (field.1 :: fields.1, fields.2)
termination_by 6 * c.left + 3
decreasing_by all_goals grind [left_advance, left_pos]

/-- Reads a field of a struct, its tag included. -/
def fieldIn (c : Cursor) (s : Store) : Outcome (NodeId .field × Store) c :=
  match c.embedsField? with
  | none => c.fails "field name or embedded type"
  | some true =>
    (c.typeIn s).andThen fun type d m =>
      let tag := d.tag?
      let field := type.2.alloc (k := .field) ⟨.empty, none, type.1, tag.1, true⟩
        (tag.2.spanFrom c.start)
      .ok field tag.2 (Nat.lt_of_le_of_lt d.tag?_le m)
  | some false =>
    (c.names "field name").bind fun names d _ =>
      let names := s.push (b := .idents) names
      (d.typeIn names.2).andThen fun type e m =>
        let tag := e.tag?
        let field := type.2.alloc (k := .field) ⟨names.1, none, type.1, tag.1, false⟩
          (tag.2.spanFrom c.start)
        .ok field tag.2 (Nat.lt_of_le_of_lt e.tag?_le m)
termination_by 6 * c.left + 2
decreasing_by all_goals grind [left_advance, left_pos]

/-- Reads the members of an interface up to and with the closing brace. -/
def interfaceElemsIn (c : Cursor) (s : Store) : Outcome (List ElemItem × Store) c :=
  match h : c.token? with
  | none => c.fails "'\x7d'"
  | some (.punct .rbrace) => .ok ([], s) c.advance (advance_lt h)
  | some (.punct .semi) => (c.advance.interfaceElemsIn s).lift c.advance_le
  | some _ =>
    (c.interfaceElemIn s).bind fun elem d _ =>
      if d.token? = some (.punct .rbrace) then
        (d.interfaceElemsIn elem.2).map fun elems _ => (elem.1 :: elems.1, elems.2)
      else
        (d.expect (.punct .semi) "';' or '\x7d'").bind fun _ e _ =>
          (e.interfaceElemsIn elem.2).map fun elems _ => (elem.1 :: elems.1, elems.2)
termination_by 6 * c.left + 5
decreasing_by all_goals grind [left_advance, left_pos]

/-- Reads a member of an interface. -/
def interfaceElemIn (c : Cursor) (s : Store) : Outcome (ElemItem × Store) c :=
  if c.atMethod then
    (c.ident "method name").bind fun name d _ =>
      (d.signatureIn c.start s).map fun sig _ => (.method name sig.1, sig.2)
  else
    (c.unionIn s).map fun terms _ =>
      let list := terms.2.push (b := .terms) terms.1
      (.union list.1, list.2)
termination_by 6 * c.left + 4
decreasing_by all_goals grind [left_advance, left_pos]

/-- Reads types joined by `|`. -/
def unionIn (c : Cursor) (s : Store) : Outcome (List TermItem × Store) c :=
  (c.termIn s).andThen fun term d m =>
    if d.token? = some (.punct .pipe) then
      (((d.advance.unionIn term.2).lift d.advance_le).after m).map fun terms _ =>
        (term.1 :: terms.1, terms.2)
    else .ok ([term.1], term.2) d m
termination_by 6 * c.left + 3
decreasing_by all_goals grind [left_advance, left_pos]

/-- Reads a type, perhaps behind `~`. -/
def termIn (c : Cursor) (s : Store) : Outcome (TermItem × Store) c :=
  if _h : c.token? = some (.punct .tilde) then
    ((c.advance.typeIn s).lift c.advance_le).map fun type _ =>
      (⟨some c.span, type.1⟩, type.2)
  else (c.typeIn s).map fun type _ => (⟨none, type.1⟩, type.2)
termination_by 6 * c.left + 2
decreasing_by all_goals grind [left_advance, left_pos]

/-- Reads parameters and results; the stretch begins at `start`. -/
def signatureIn (c : Cursor) (start : Nat) (s : Store) :
    Outcome (NodeId .signature × Store) c :=
  (c.fieldListIn s).andThen fun params d m =>
    if d.token? = some (.punct .lparen) then
      ((d.fieldListIn params.2).after m).map fun results e =>
        results.2.alloc (k := .signature) ⟨params.1, .list results.1⟩ (e.spanFrom start)
    else if d.token?.any Token.startsType then
      ((d.typeIn params.2).after m).map fun result e =>
        result.2.alloc (k := .signature) ⟨params.1, .single result.1⟩ (e.spanFrom start)
    else
      let sig := params.2.alloc (k := .signature) ⟨params.1, .none⟩ (d.spanFrom start)
      .ok sig d m
termination_by 6 * c.left + 1
decreasing_by all_goals grind [left_advance, left_pos]

/-- Reads a list of parameters or results with its parentheses. -/
def fieldListIn (c : Cursor) (s : Store) : Outcome (FieldsRef × Store) c :=
  (c.expect (.punct .lparen) "'('").bind fun lparen d _ =>
    (d.paramsIn s).andThen fun entries e m =>
      match Entry.storeFields entries.1.1 entries.2 with
      | .ok fields =>
        let list := fields.2.push (b := .fields) fields.1
        .ok (⟨lparen, list.1, entries.1.2⟩, list.2) e m
      | .error fault => .error fault e (Nat.le_of_lt m)
termination_by 6 * c.left + 0
decreasing_by all_goals grind [left_advance, left_pos]

/-- Reads the entries of a list up to and with the closing parenthesis, whose
    place is given too. -/
def paramsIn (c : Cursor) (s : Store) : Outcome ((List Entry × Span) × Store) c :=
  if h : c.token? = some (.punct .rparen) then .ok (([], c.span), s) c.advance (advance_lt h)
  else
    (c.paramIn s).bind fun entry d _ =>
      if d.token? = some (.punct .comma) then
        ((d.advance.paramsIn entry.2).lift d.advance_le).map fun more _ =>
          ((entry.1 :: more.1.1, more.1.2), more.2)
      else (d.expect (.punct .rparen) "')'").map fun rparen _ => (([entry.1], rparen), entry.2)
termination_by 6 * c.left + 4
decreasing_by all_goals grind [left_advance, left_pos]

/-- Reads an entry of a list of parameters or results. -/
def paramIn (c : Cursor) (s : Store) : Outcome (Entry × Store) c :=
  if c.atBareParam then (c.ident "parameter name").map fun name _ => (.bare name, s)
  else if c.atNamedParam then
    (c.ident "parameter name").bind fun name d _ =>
      (d.paramTypeIn s).map fun type e =>
        (.typed (e.spanFrom c.start) (some name) type.1.1 type.1.2, type.2)
  else
    (c.paramTypeIn s).map fun type d =>
      (.typed (d.spanFrom c.start) none type.1.1 type.1.2, type.2)
termination_by 6 * c.left + 3
decreasing_by all_goals grind [left_advance, left_pos]

/-- Reads the type of a parameter, which `...` may precede. -/
def paramTypeIn (c : Cursor) (s : Store) :
    Outcome ((Option Span × NodeId .type) × Store) c :=
  if _h : c.token? = some (.punct .ellipsis) then
    ((c.advance.typeIn s).lift c.advance_le).map fun type _ => ((some c.span, type.1), type.2)
  else (c.typeIn s).map fun type _ => ((none, type.1), type.2)
termination_by 6 * c.left + 2
decreasing_by all_goals grind [left_advance, left_pos]

end

end Tree.Cursor

end GoDecls
