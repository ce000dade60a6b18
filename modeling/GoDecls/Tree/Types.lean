/-
  Reading of types.

  The readers follow the grammar; each takes at least one token, and the loops
  end with the closing bracket they look for.  Three places need to look ahead:
  a name before a square bracket is a field or parameter name if a type follows
  the brackets; a name in an interface is a method if a parenthesis follows; and
  a name in a list of parameters is bare if a comma or the end follows.
-/
import GoDecls.Tree.Brackets
import GoDecls.Tree.Params

namespace GoDecls.Tree

namespace Cursor

/-! ## Looking ahead -/

/-- A name and the package before it, if there is one. -/
def qualified (c : Cursor) : Outcome (Option Ident × Ident) c :=
  (c.ident "type name").andThen fun first d m =>
    if d.token? = some (.punct .dot) then
      (((d.advance.ident "type name").lift d.advance_le).after m).map
        fun name _ => (some first, name)
    else .ok (none, first) d m

/-- The field at the cursor is embedded, or has names; `none` if no field can
    begin here. -/
def embedsField? (c : Cursor) : Option Bool :=
  match c.token?, c.second? with
  | some (.punct .star), _ => some true
  | some (.ident _), none => some true
  | some (.ident _), some (.punct .dot) => some true
  | some (.ident _), some (.punct .semi) => some true
  | some (.ident _), some (.punct .rbrace) => some true
  | some (.ident _), some (.string _) => some true
  | some (.ident _), some (.rawString _) => some true
  | some (.ident _), some (.punct .lbrack) => some (!bracketThenType c.rest.tail)
  | some (.ident _), some _ => some false
  | _, _ => none

/-- The name at the cursor is an entry of a list of parameters by itself. -/
def atBareParam (c : Cursor) : Bool :=
  match c.token?, c.second? with
  | some (.ident _), some (.punct .comma) => true
  | some (.ident _), some (.punct .rparen) => true
  | _, _ => false

/-- The name at the cursor names a parameter whose type follows. -/
def atNamedParam (c : Cursor) : Bool :=
  match c.token?, c.second? with
  | some (.ident _), some (.punct .lbrack) => bracketThenType c.rest.tail
  | some (.ident _), some (.punct .ellipsis) => true
  | some (.ident _), some t => t.startsType
  | _, _ => false

/-- The name at the cursor names a method. -/
def atMethod (c : Cursor) : Bool :=
  match c.token?, c.second? with
  | some (.ident _), some (.punct .lparen) => true
  | _, _ => false

/-- The string literal at the cursor and the cursor behind it. -/
def tag? (c : Cursor) : Option Span × Cursor :=
  if c.token?.any Token.isString then (some c.span, c.advance) else (none, c)

theorem tag?_le (c : Cursor) : c.tag?.2.left ≤ c.left := by
  unfold tag?; split
  · exact c.advance_le
  · exact Nat.le_refl _

/-! ## Types -/

mutual

/-- Reads a type. -/
def type (c : Cursor) : Outcome TypeExpr c :=
  match _h : c.token? with
  | some (.ident _) => c.namedType
  | some (.punct .lbrack) => (c.advance.arrayType c.start).lift c.advance_le
  | some (.keyword .struct) =>
    ((c.advance.expect (.punct .lbrace) "'\x7b'").bind fun _ d _ => d.structFields).lift c.advance_le
      |>.map fun fields e => .struct (e.spanFrom c.start) fields
  | some (.keyword .interface) =>
    ((c.advance.expect (.punct .lbrace) "'\x7b'").bind fun _ d _ => d.interfaceElems).lift c.advance_le
      |>.map fun elems e => .interface (e.spanFrom c.start) elems
  | some (.punct .star) =>
    (c.advance.type.lift c.advance_le).map fun elem d =>
      .pointer (d.spanFrom c.start) c.span elem
  | some (.keyword .map) =>
    ((c.advance.expect (.punct .lbrack) "'['").bind fun _ d _ =>
      d.type.bind fun key e _ =>
        (e.expect (.punct .rbrack) "']'").bind fun _ f _ =>
          f.type.map fun value g => .map (g.spanFrom c.start) key value).lift c.advance_le
  | some (.keyword .chan) =>
    if c.advance.token? = some (.punct .arrow) then
      (c.advance.advance.type.lift (Nat.le_trans c.advance.advance_le c.advance_le)).map
        fun elem d => .chan (d.spanFrom c.start) .send elem
    else
      (c.advance.type.lift c.advance_le).map fun elem d => .chan (d.spanFrom c.start) .both elem
  | some (.punct .arrow) =>
    ((c.advance.expect (.keyword .chan) "'chan'").bind fun _ d _ =>
      d.type.map fun elem e => .chan (e.spanFrom c.start) .recv elem).lift c.advance_le
  | some (.keyword .func) =>
    ((c.advance.signature c.start).lift c.advance_le).map fun sig d =>
      .func (d.spanFrom c.start) sig
  | some (.punct .lparen) =>
    (c.advance.type.bind fun inner d _ =>
      (d.expect (.punct .rparen) "')'").map fun _ e =>
        .paren (e.spanFrom c.start) inner).lift c.advance_le
  | _ => c.fails "type"
termination_by 6 * c.left + 1
decreasing_by all_goals grind [left_advance, left_pos]

/-- Reads a type that is a name, perhaps with arguments. -/
def namedType (c : Cursor) : Outcome TypeExpr c :=
  c.qualified.andThen fun name d m =>
    if d.token? = some (.punct .lbrack) then
      ((d.advance.typeArgs.lift d.advance_le).after m).map fun args e =>
        .named (e.spanFrom c.start) name.1 name.2 args
    else .ok (.named (d.spanFrom c.start) name.1 name.2 []) d m
termination_by 6 * c.left + 0
decreasing_by all_goals grind [left_advance, left_pos]

/-- Reads type arguments up to and with the closing bracket. -/
def typeArgs (c : Cursor) : Outcome (List TypeExpr) c :=
  if h : c.token? = some (.punct .rbrack) then .ok [] c.advance (advance_lt h)
  else
    c.type.bind fun arg d _ =>
      if d.token? = some (.punct .comma) then
        (d.advance.typeArgs.lift d.advance_le).map fun args _ => arg :: args
      else (d.expect (.punct .rbrack) "']'").map fun _ _ => [arg]
termination_by 6 * c.left + 2
decreasing_by all_goals grind [left_advance, left_pos]

/-- Reads an array or slice type behind its opening bracket. -/
def arrayType (c : Cursor) (start : Nat) : Outcome TypeExpr c :=
  if _h : c.token? = some (.punct .rbrack) then
    (c.advance.type.lift c.advance_le).map fun elem d => .slice (d.spanFrom start) elem
  else if _h : c.token? = some (.punct .ellipsis) ∧ c.second? = some (.punct .rbrack) then
    (c.advance.arrayElem start (.ellipsis c.span)).lift c.advance_le
  else
    c.arrayLength.bind fun length d _ => d.arrayElem start length
termination_by 6 * c.left + 1
decreasing_by all_goals grind [left_advance, left_pos]

/-- Reads the closing bracket of an array length and the element type. -/
def arrayElem (c : Cursor) (start : Nat) (length : ArrayLength) : Outcome TypeExpr c :=
  (c.expect (.punct .rbrack) "']'").bind fun _ d _ =>
    d.type.map fun elem e => .array (e.spanFrom start) length elem
termination_by 6 * c.left + 0
decreasing_by all_goals grind [left_advance, left_pos]

/-- Reads the fields of a struct up to and with the closing brace. -/
def structFields (c : Cursor) : Outcome (List Field) c :=
  match h : c.token? with
  | none => c.fails "'\x7d'"
  | some (.punct .rbrace) => .ok [] c.advance (advance_lt h)
  | some (.punct .semi) => c.advance.structFields.lift c.advance_le
  | some _ =>
    c.field.bind fun field d _ =>
      if d.token? = some (.punct .rbrace) then
        d.structFields.map fun fields _ => field :: fields
      else
        (d.expect (.punct .semi) "';' or '\x7d'").bind fun _ e _ =>
          e.structFields.map fun fields _ => field :: fields
termination_by 6 * c.left + 3
decreasing_by all_goals grind [left_advance, left_pos]

/-- Reads a field of a struct, its tag included. -/
def field (c : Cursor) : Outcome Field c :=
  match c.embedsField? with
  | none => c.fails "field name or embedded type"
  | some true =>
    c.type.andThen fun type d m =>
      let tag := d.tag?
      .ok ⟨tag.2.spanFrom c.start, [], none, type, tag.1, true⟩ tag.2
        (Nat.lt_of_le_of_lt d.tag?_le m)
  | some false =>
    (c.names "field name").bind fun names d _ =>
      d.type.andThen fun type e m =>
        let tag := e.tag?
        .ok ⟨tag.2.spanFrom c.start, names, none, type, tag.1, false⟩ tag.2
          (Nat.lt_of_le_of_lt e.tag?_le m)
termination_by 6 * c.left + 2
decreasing_by all_goals grind [left_advance, left_pos]

/-- Reads the members of an interface up to and with the closing brace. -/
def interfaceElems (c : Cursor) : Outcome (List InterfaceElem) c :=
  match h : c.token? with
  | none => c.fails "'\x7d'"
  | some (.punct .rbrace) => .ok [] c.advance (advance_lt h)
  | some (.punct .semi) => c.advance.interfaceElems.lift c.advance_le
  | some _ =>
    c.interfaceElem.bind fun elem d _ =>
      if d.token? = some (.punct .rbrace) then
        d.interfaceElems.map fun elems _ => elem :: elems
      else
        (d.expect (.punct .semi) "';' or '\x7d'").bind fun _ e _ =>
          e.interfaceElems.map fun elems _ => elem :: elems
termination_by 6 * c.left + 5
decreasing_by all_goals grind [left_advance, left_pos]

/-- Reads a member of an interface. -/
def interfaceElem (c : Cursor) : Outcome InterfaceElem c :=
  if c.atMethod then
    (c.ident "method name").bind fun name d _ =>
      (d.signature c.start).map fun sig _ => .method name sig
  else c.union.map fun terms _ => .union terms
termination_by 6 * c.left + 4
decreasing_by all_goals grind [left_advance, left_pos]

/-- Reads types joined by `|`. -/
def union (c : Cursor) : Outcome (List Term) c :=
  c.term.andThen fun term d m =>
    if d.token? = some (.punct .pipe) then
      ((d.advance.union.lift d.advance_le).after m).map
        fun terms _ => term :: terms
    else .ok [term] d m
termination_by 6 * c.left + 3
decreasing_by all_goals grind [left_advance, left_pos]

/-- Reads a type, perhaps behind `~`. -/
def term (c : Cursor) : Outcome Term c :=
  if _h : c.token? = some (.punct .tilde) then
    (c.advance.type.lift c.advance_le).map fun type _ => ⟨some c.span, type⟩
  else c.type.map fun type _ => ⟨none, type⟩
termination_by 6 * c.left + 2
decreasing_by all_goals grind [left_advance, left_pos]

/-- Reads parameters and results; the stretch begins at `start`. -/
def signature (c : Cursor) (start : Nat) : Outcome Signature c :=
  c.fieldList.andThen fun params d m =>
    if d.token? = some (.punct .lparen) then
      (d.fieldList.after m).map fun results e =>
        ⟨e.spanFrom start, params, .list results⟩
    else if d.token?.any Token.startsType then
      (d.type.after m).map fun result e =>
        ⟨e.spanFrom start, params, .single result⟩
    else .ok ⟨d.spanFrom start, params, .none⟩ d m
termination_by 6 * c.left + 1
decreasing_by all_goals grind [left_advance, left_pos]

/-- Reads a list of parameters or results with its parentheses. -/
def fieldList (c : Cursor) : Outcome FieldList c :=
  (c.expect (.punct .lparen) "'('").bind fun lparen d _ =>
    d.params.andThen fun ps e m =>
      match Param.toFields ps.1 with
      | .ok fields => .ok ⟨lparen, fields, ps.2⟩ e m
      | .error fault => .error fault e (Nat.le_of_lt m)
termination_by 6 * c.left + 0
decreasing_by all_goals grind [left_advance, left_pos]

/-- Reads the entries of a list up to and with the closing parenthesis, whose
    place is given too. -/
def params (c : Cursor) : Outcome (List Param × Span) c :=
  if h : c.token? = some (.punct .rparen) then .ok ([], c.span) c.advance (advance_lt h)
  else
    c.param.bind fun p d _ =>
      if d.token? = some (.punct .comma) then
        (d.advance.params.lift d.advance_le).map fun ps _ => (p :: ps.1, ps.2)
      else (d.expect (.punct .rparen) "')'").map fun rparen _ => ([p], rparen)
termination_by 6 * c.left + 4
decreasing_by all_goals grind [left_advance, left_pos]

/-- Reads an entry of a list of parameters or results. -/
def param (c : Cursor) : Outcome Param c :=
  if c.atBareParam then (c.ident "parameter name").map fun name _ => .bare name
  else if c.atNamedParam then
    (c.ident "parameter name").bind fun name d _ =>
      d.paramType.map fun type e => .typed (e.spanFrom c.start) (some name) type.1 type.2
  else c.paramType.map fun type d => .typed (d.spanFrom c.start) none type.1 type.2
termination_by 6 * c.left + 3
decreasing_by all_goals grind [left_advance, left_pos]

/-- Reads the type of a parameter, which `...` may precede. -/
def paramType (c : Cursor) : Outcome (Option Span × TypeExpr) c :=
  if _h : c.token? = some (.punct .ellipsis) then
    (c.advance.type.lift c.advance_le).map fun type _ => (some c.span, type)
  else c.type.map fun type _ => (none, type)
termination_by 6 * c.left + 2
decreasing_by all_goals grind [left_advance, left_pos]

end

end Cursor

end GoDecls.Tree
