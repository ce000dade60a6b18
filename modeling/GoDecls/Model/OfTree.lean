/-
  Shapes of written types.

  `Shape.ofType` leaves out parentheses.  Instances of generic types have no
  shape, nor has what is made of them; fields and declarations of such types are
  left out, and so are variadic parameters.  A type that cannot be represented
  at all is an error.

  Spans of the tree are read from a text; it need not be the one that the tree
  was read from.
-/
import GoDecls.Comment.Text
import GoDecls.Literal.Integer
import GoDecls.Model.Basic
import GoDecls.Tag.Scan
import GoDecls.Text.Blank

namespace GoDecls.Model

/-- Why a tree has no model. -/
inductive ConvertError where
  | qualifiedName (name : String)
  | arrayLength (span : Span)
  | importPath (path : String) (cause : Literal.LiteralError)
deriving DecidableEq, Repr

/-- The wording of why a tree has no model. -/
def ConvertError.message : ConvertError → String
  | .qualifiedName name => "malformed qualified name \x60" ++ name ++ "\x60"
  | .arrayLength span =>
    "array length at " ++ toString span.start ++ ".." ++ toString span.stop ++
      " lies outside the source text"
  | .importPath path cause => "malformed import path " ++ path ++ ": " ++ cause.message

/-- The text under a span, if it lies in the text. -/
def sourceText? (text : List Char) (span : Span) : Option String :=
  (span.text? text).map String.ofList

/-! ## Parts of types -/

/-- The shape of a type that is written as a name. -/
def Shape.ofName (pkg : Option Tree.Ident) (name : Tree.Ident) : Except ConvertError Shape :=
  match pkg with
  | none =>
    .ok (if isNativeType name.text then .native name.text else .reference (.unbound name.text))
  | some pkg =>
    let qualified := pkg.text ++ "." ++ name.text
    if (identifierParts? qualified).isSome then .ok (.reference (.unbound qualified))
    else .error (.qualifiedName qualified)

/-- The value of a literal length: integers and runes have one. -/
def literalCount? (kind : Tree.LiteralKind) (raw : String) : Option Int :=
  match kind with
  | .int => Literal.parseInt raw
  | .rune => (Literal.unquoteRune raw).toOption.map Int.ofNat
  | _ => none

/-- The length of an array, and its value if it is a literal. -/
def ArraySize.ofLength (text : List Char) :
    Tree.ArrayLength → Except ConvertError (ArraySize × Option Int)
  | .ellipsis _ => .ok (.ellipsis, none)
  | .expr _ (.ident name) => .ok (.expr name, none)
  | .expr _ (.selector pkg name) => .ok (.expr (pkg ++ "." ++ name), none)
  | .expr span (.literal kind) =>
    match sourceText? text span with
    | some raw => .ok (.expr raw, literalCount? kind raw)
    | none => .error (.arrayLength span)
  | .expr span .other =>
    match sourceText? text span with
    | some raw => .ok (.expr raw, none)
    | none => .error (.arrayLength span)

/-- The tags of a field: the pairs in its tag literal, none if it cannot be
    unquoted. -/
def fieldTags (text : List Char) : Option Span → Tags
  | none => .empty
  | some span =>
    match Literal.unquote ((sourceText? text span).getD "") with
    | .ok tag => TagText.scan tag
    | .error _ => .empty

/-- The texts of names. -/
def identNames (names : List Tree.Ident) : List String := names.map (·.text)

/-- A field as it is declared. -/
def Field.declare (text : List Char) (names : List Tree.Ident) (tag : Option Span)
    (type : Shape) : Field :=
  { names := identNames names
    implicitName := if names.isEmpty then type.implicitName else ""
    type := type
    tags := fieldTags text tag }

/-- The field that a method is. -/
def Field.method (name : Tree.Ident) (type : Shape) : Field := ⟨[name.text], "", type, .empty⟩

/-! ## Types -/

mutual

/-- The shape of a type, if it has one. -/
def Shape.ofType (text : List Char) : Tree.TypeExpr → Except ConvertError (Option Shape)
  | .paren _ inner => Shape.ofType text inner
  | .named _ pkg name args =>
    if args.isEmpty then (Shape.ofName pkg name).map some else .ok none
  | .struct _ fields => (Field.ofFields text fields).map fun fs => some (.struct fs)
  | .interface _ elems =>
    (Field.ofElems text elems).map fun p => some (.interface p.1 p.2)
  | .map _ key value =>
    (Shape.ofType text key).bind fun k => (Shape.ofType text value).map fun v =>
      k.bind fun k => v.map fun v => .map k v
  | .slice _ elem => (Shape.ofType text elem).map (·.map (.array .slice none))
  | .array _ length elem =>
    (Shape.ofType text elem).bind fun
      | none => .ok none
      | some s => (ArraySize.ofLength text length).map fun p => some (.array p.1 p.2 s)
  | .pointer _ _ elem => (Shape.ofType text elem).map (·.map .pointer)
  | .chan _ dir elem => (Shape.ofType text elem).map (·.map (.channel dir))
  | .func _ sig => (Shape.ofSignature text (.ok []) sig).map some

/-- The shape of a function with the given type parameters. -/
def Shape.ofSignature (text : List Char) (typeParams : Except ConvertError (List Field)) :
    Tree.Signature → Except ConvertError Shape
  | ⟨_, params, results⟩ =>
    (Field.ofResults text results).bind fun rs => typeParams.bind fun ts =>
      (Field.ofFieldList text params).map fun ps => .function ts ps rs

/-- The fields of results. -/
def Field.ofResults (text : List Char) : Tree.Results → Except ConvertError (List Field)
  | .none => .ok []
  | .single type => (Shape.ofType text type).map fun s => (s.map Field.embed).toList
  | .list fields => Field.ofFieldList text fields

/-- The fields of a list in parentheses. -/
def Field.ofFieldList (text : List Char) : Tree.FieldList → Except ConvertError (List Field)
  | ⟨_, fields, _⟩ => Field.ofFields text fields

/-- The fields that have a shape and are not variadic. -/
def Field.ofFields (text : List Char) : List Tree.Field → Except ConvertError (List Field)
  | [] => .ok []
  | f :: fs =>
    (Field.ofField text f).bind fun x => (Field.ofFields text fs).map (x.toList ++ ·)

/-- The field, if it has a shape and is not variadic. -/
def Field.ofField (text : List Char) : Tree.Field → Except ConvertError (Option Field)
  | ⟨_, names, ellipsis, type, tag, _⟩ =>
    if ellipsis.isSome then .ok none
    else (Shape.ofType text type).map (·.map (Field.declare text names tag))

/-- The methods and embedded types of an interface, and whether a union was
    left out. -/
def Field.ofElems (text : List Char) :
    List Tree.InterfaceElem → Except ConvertError (List Field × Bool)
  | [] => .ok ([], false)
  | e :: es =>
    (Field.ofElem text e).bind fun x => (Field.ofElems text es).map fun more =>
      (x.1.toList ++ more.1, x.2 || more.2)

/-- The method or the embedded type, and whether it is a union that is left
    out. -/
def Field.ofElem (text : List Char) :
    Tree.InterfaceElem → Except ConvertError (Option Field × Bool)
  | .method name sig =>
    (Shape.ofSignature text (.ok []) sig).map fun s => (some (Field.method name s), false)
  | .union terms =>
    match Shape.ofSoleTerm text terms with
    | some s => s.map fun s => (s.map Field.embed, false)
    | none => .ok (none, true)

/-- The shape of a union of one type without `~`; nothing for other unions. -/
def Shape.ofSoleTerm (text : List Char) :
    List Tree.Term → Option (Except ConvertError (Option Shape))
  | [t] => Shape.ofTerm text t
  | _ => none

/-- The shape of a type without `~`. -/
def Shape.ofTerm (text : List Char) : Tree.Term → Option (Except ConvertError (Option Shape))
  | ⟨none, type⟩ => some (Shape.ofType text type)
  | ⟨some _, _⟩ => none

end

/-- The fields of type parameters whose constraint is one type with a shape. -/
def Field.ofTypeParams (text : List Char) :
    List Tree.TypeParam → Except ConvertError (List Field)
  | [] => .ok []
  | p :: ps =>
    let field : Except ConvertError (Option Field) :=
      match Shape.ofSoleTerm text p.constraint with
      | some s => s.map (·.map fun s => ⟨identNames p.names, "", s, .empty⟩)
      | none => .ok none
    field.bind fun x => (Field.ofTypeParams text ps).map (x.toList ++ ·)

/-- The shape of a declared type.  A declared function type keeps its type
    parameters. -/
def Shape.ofSpec (text : List Char) (spec : Tree.TypeSpec) :
    Except ConvertError (Option Shape) :=
  match spec.type with
  | .func _ sig =>
    let typeParams := (spec.typeParams.map (Field.ofTypeParams text ·.params)).getD (.ok [])
    (Shape.ofSignature text typeParams sig).map some
  | type => Shape.ofType text type

/-! ## Imports -/

/-- The last segment of a path. -/
def lastSegment (path : String) : String :=
  String.ofList (path.toList.reverse.takeWhile (· ≠ '/')).reverse

/-- The import of a path. -/
def Import.ofSpec (text : List Char) (spec : Tree.ImportSpec) : Except ConvertError Import :=
  let raw := (sourceText? text spec.path).getD ""
  match Literal.unquote raw with
  | .error cause => .error (.importPath raw cause)
  | .ok path =>
    let name := match spec.name with
      | some (.dot _) => "."
      | some (.blank _) => "_"
      | some (.named name) => name.text
      | none => lastSegment path
    .ok ⟨name, path⟩

/-! ## Tags of declarations -/

/-- The lines of the text of a comment group of the file. -/
def commentLines (file : Tree.SourceFile) (text : List Char) (group : Option Nat) :
    List (List Char) :=
  match group.bind (file.comments[·]?) with
  | some g => (CommentText.ofComments text g.comments).splitOn '\n'
  | none => []

/-- The tags on the lines, each line for itself. -/
def tagsOfLines (lines : List (List Char)) : Tags :=
  lines.foldl (fun ts l => ts.extend (TagText.scan (String.ofList (Text.trim l))).entries) .empty

/-- The tags of a declared type: those in the doc comment of its declaration,
    then those in the comment behind it. -/
def declarationTags (file : Tree.SourceFile) (text : List Char) (head : Tree.DeclHead)
    (spec : Tree.TypeSpec) : Tags :=
  tagsOfLines (commentLines file text head.doc ++ commentLines file text spec.comment)

end GoDecls.Model
