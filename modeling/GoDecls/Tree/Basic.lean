/-
  The syntax tree of a source file, as far as it declares types: package clause,
  imports, type declarations with the whole grammar of types, and the places of
  all other declarations.

  Names are texts with their places.  The text of literals is not copied into
  the tree; a span says where it stands.  Comments are named by the number of
  their group in the file.
-/
import GoDecls.Comment.Layout

namespace GoDecls.Tree

/-- An occurrence of a name. -/
structure Ident where
  text : String
  span : Span
deriving DecidableEq, Repr

/-! ## Types -/

/-- The directions of a channel. -/
inductive ChanDir where
  | both | send | recv
deriving DecidableEq, Repr

/-- The kinds of literals. -/
inductive LiteralKind where
  | int | float | imag | rune | string
deriving DecidableEq, Repr

/-- The constant in an array length; `other` is any expression that is no name
    and no single literal. -/
inductive LengthExpr where
  | ident (name : String)
  | literal (kind : LiteralKind)
  | selector (pkg name : String)
  | other
deriving DecidableEq, Repr

/-- The length of an array type: counted by the compiler, or an expression. -/
inductive ArrayLength where
  | ellipsis (span : Span)
  | expr (span : Span) (e : LengthExpr)
deriving DecidableEq, Repr

mutual

/-- A type as it is written. -/
inductive TypeExpr where
  /-- `Name`, `pkg.Name`, `Name[T]` -/
  | named (span : Span) (pkg : Option Ident) (name : Ident) (args : List TypeExpr)
  /-- `*T` -/
  | pointer (span star : Span) (elem : TypeExpr)
  /-- `[N]T`, `[...]T` -/
  | array (span : Span) (length : ArrayLength) (elem : TypeExpr)
  /-- `[]T` -/
  | slice (span : Span) (elem : TypeExpr)
  /-- `map[K]V` -/
  | map (span : Span) (key value : TypeExpr)
  /-- `chan T`, `chan<- T`, `<-chan T` -/
  | chan (span : Span) (dir : ChanDir) (elem : TypeExpr)
  | struct (span : Span) (fields : List Field)
  | interface (span : Span) (elems : List InterfaceElem)
  | func (span : Span) (sig : Signature)
  /-- `(T)` -/
  | paren (span : Span) (inner : TypeExpr)
deriving Repr

/-- A field of a struct, or of a list of parameters or results. -/
structure Field where
  span : Span
  /-- empty for embedded fields and anonymous parameters -/
  names : List Ident
  /-- the `...` of a variadic parameter -/
  ellipsis : Option Span
  type : TypeExpr
  /-- the tag literal of a struct field -/
  tag : Option Span
  embedded : Bool
deriving Repr

/-- A member of an interface. -/
inductive InterfaceElem where
  | method (name : Ident) (sig : Signature)
  /-- an embedded type, or types joined by `|` -/
  | union (terms : List Term)
deriving Repr

/-- A type in a union, perhaps behind `~`. -/
structure Term where
  tilde : Option Span
  type : TypeExpr
deriving Repr

/-- Parameters and results. -/
structure Signature where
  span : Span
  params : FieldList
  results : Results
deriving Repr

/-- What a function gives back. -/
inductive Results where
  | none
  | single (type : TypeExpr)
  | list (fields : FieldList)
deriving Repr

/-- Fields between parentheses. -/
structure FieldList where
  lparen : Span
  fields : List Field
  rparen : Span
deriving Repr

end

/-- The stretch of the text that a type covers. -/
def TypeExpr.span : TypeExpr → Span
  | .named s _ _ _ | .pointer s _ _ | .array s _ _ | .slice s _ | .map s _ _ => s
  | .chan s _ _ | .struct s _ | .interface s _ | .func s _ | .paren s _ => s

/-! ## Declarations -/

/-- Names of type parameters and their constraint. -/
structure TypeParam where
  span : Span
  names : List Ident
  constraint : List Term
deriving Repr

/-- The type parameters of a declaration. -/
structure TypeParams where
  span : Span
  params : List TypeParam
deriving Repr

/-- The name an import is given. -/
inductive ImportName where
  | dot (span : Span)
  | blank (span : Span)
  | named (name : Ident)
deriving DecidableEq, Repr

/-- An imported path; `path` is its literal. -/
structure ImportSpec where
  doc : Option Nat
  name : Option ImportName
  path : Span
deriving DecidableEq, Repr

/-- A declared type; with a place for `=`, it is an alias. -/
structure TypeSpec where
  doc : Option Nat
  comment : Option Nat
  name : Ident
  typeParams : Option TypeParams
  assign : Option Span
  type : TypeExpr
deriving Repr

/-- The keyword of a declaration, its doc comment, and its parentheses. -/
structure DeclHead where
  doc : Option Nat
  keyword : Span
  parens : Option (Span × Span)
deriving DecidableEq, Repr

/-- A declaration.  Of functions, constants and variables only the place is
    kept. -/
inductive Decl where
  | func (span : Span)
  | imports (head : DeclHead) (specs : List ImportSpec)
  | consts (head : DeclHead)
  | types (head : DeclHead) (specs : List TypeSpec)
  | vars (head : DeclHead)
deriving Repr

/-- A source file. -/
structure SourceFile where
  keyword : Span
  package : String
  doc : Option Nat
  decls : List Decl
  comments : List CommentGroup
deriving Repr

end GoDecls.Tree
