/-
  A syntax tree in arenas.

  Nodes of one kind stand in one arena, each with its stretch of the text, and an
  id is the place of a node there.  The lists that nodes hold stand one behind the
  other in buffers, one for each type of items; a node has only the stretch of the
  buffer.  Arenas and buffers only grow.

  Ids and stretches are numbers without a bound, where the program keeps them in
  32 bits.  No arena and no buffer gets larger than the text, so 32 bits are enough
  for what positions of 32 bits can tell apart.
-/
import GoDecls.Tree.Basic
import Mathlib.Logic.Function.Basic

namespace GoDecls.Arena

open Tree

/-- The kinds of nodes. -/
inductive Kind where
  | type | expr | signature | field | typeParams | typeParam | comment | group
deriving DecidableEq, Repr

/-- The buffers of lists. -/
inductive Buffer where
  | idents | types | fields | specs | decls | terms | elems | typeParams | comments | groups
deriving DecidableEq, Repr

/-- The place of a node among those of its kind. -/
structure NodeId (k : Kind) where
  place : Nat
deriving DecidableEq, Repr

/-- The stretch of a list in its buffer. -/
structure ListRef (b : Buffer) where
  start : Nat
  len : Nat
deriving DecidableEq, Repr

/-- The stretch of no items, for lists that are not written. -/
def ListRef.empty {b : Buffer} : ListRef b := ⟨0, 0⟩

/-! ## Nodes -/

/-- The length of an array type. -/
inductive LengthRef where
  | ellipsis (span : Span)
  | expr (id : NodeId .expr)
deriving DecidableEq, Repr

/-- A type. -/
inductive TypeNode where
  | named (pkg : Option Ident) (name : Ident) (args : ListRef .types)
  | pointer (star : Span) (elem : NodeId .type)
  | array (length : LengthRef) (elem : NodeId .type)
  | slice (elem : NodeId .type)
  | map (key value : NodeId .type)
  | chan (dir : ChanDir) (elem : NodeId .type)
  | struct (fields : ListRef .fields)
  | interface (elems : ListRef .elems)
  | func (sig : NodeId .signature)
  | paren (inner : NodeId .type)
deriving DecidableEq, Repr

/-- A field of a struct, or of a list of parameters or results. -/
structure FieldNode where
  names : ListRef .idents
  ellipsis : Option Span
  type : NodeId .type
  tag : Option Span
  embedded : Bool
deriving DecidableEq, Repr

/-- Fields between parentheses. -/
structure FieldsRef where
  lparen : Span
  fields : ListRef .fields
  rparen : Span
deriving DecidableEq, Repr

/-- What a function gives back. -/
inductive ResultsRef where
  | none
  | single (type : NodeId .type)
  | list (fields : FieldsRef)
deriving DecidableEq, Repr

/-- Parameters and results. -/
structure SignatureNode where
  params : FieldsRef
  results : ResultsRef
deriving DecidableEq, Repr

/-- Names of type parameters and their constraint. -/
structure TypeParamNode where
  names : ListRef .idents
  constraint : ListRef .terms
deriving DecidableEq, Repr

/-- The nodes of a kind; type parameters and comment groups are their lists. -/
@[reducible] def Node : Kind → Type
  | .type => TypeNode
  | .expr => LengthExpr
  | .signature => SignatureNode
  | .field => FieldNode
  | .typeParams => ListRef .typeParams
  | .typeParam => TypeParamNode
  | .comment => CommentKind
  | .group => ListRef .comments

/-! ## Items of lists -/

/-- A type in a union, perhaps behind `~`. -/
structure TermItem where
  tilde : Option Span
  type : NodeId .type
deriving DecidableEq, Repr

/-- A member of an interface. -/
inductive ElemItem where
  | method (name : Ident) (sig : NodeId .signature)
  | union (terms : ListRef .terms)
deriving DecidableEq, Repr

/-- An imported path. -/
structure ImportItem where
  doc : Option (NodeId .group)
  name : Option ImportName
  path : Span
deriving DecidableEq, Repr

/-- A declared type. -/
structure TypeItem where
  doc : Option (NodeId .group)
  comment : Option (NodeId .group)
  name : Ident
  typeParams : Option (NodeId .typeParams)
  assign : Option Span
  type : NodeId .type
deriving DecidableEq, Repr

/-- A spec of a declaration. -/
inductive SpecItem where
  | imported (item : ImportItem)
  | type (item : TypeItem)
deriving DecidableEq, Repr

/-- The declarations that begin with a keyword and are no functions. -/
inductive GenKind where
  | imports | consts | types | vars
deriving DecidableEq, Repr

/-- The keyword of a declaration, its doc comment, and its parentheses. -/
structure HeadItem where
  doc : Option (NodeId .group)
  keyword : Span
  parens : Option (Span × Span)
deriving DecidableEq, Repr

/-- A declaration. -/
inductive DeclItem where
  | func (span : Span)
  | gen (kind : GenKind) (head : HeadItem) (specs : ListRef .specs)
deriving DecidableEq, Repr

/-- The items of a buffer. -/
@[reducible] def Item : Buffer → Type
  | .idents => Ident
  | .types => NodeId .type
  | .fields => NodeId .field
  | .specs => SpecItem
  | .decls => DeclItem
  | .terms => TermItem
  | .elems => ElemItem
  | .typeParams => NodeId .typeParam
  | .comments => NodeId .comment
  | .groups => NodeId .group

/-! ## Stores -/

/-- The arenas and the buffers of a file. -/
structure Store where
  nodes : (k : Kind) → List (Node k × Span)
  lists : (b : Buffer) → List (Item b)

namespace Store

/-- The store without nodes and lists. -/
def empty : Store := ⟨fun _ => [], fun _ => []⟩

/-- Adds a node. -/
def alloc {k : Kind} (s : Store) (node : Node k) (span : Span) : NodeId k × Store :=
  (⟨(s.nodes k).length⟩,
    { s with nodes := Function.update s.nodes k (s.nodes k ++ [(node, span)]) })

/-- Adds a list. -/
def push {b : Buffer} (s : Store) (items : List (Item b)) : ListRef b × Store :=
  (⟨(s.lists b).length, items.length⟩,
    { s with lists := Function.update s.lists b (s.lists b ++ items) })

/-- The node at a place, and its stretch. -/
def node? {k : Kind} (s : Store) (i : NodeId k) : Option (Node k × Span) := (s.nodes k)[i.place]?

/-- The items under a stretch, if it lies in the buffer. -/
def list? {b : Buffer} (s : Store) (r : ListRef b) : Option (List (Item b)) :=
  if r.start + r.len ≤ (s.lists b).length then some (((s.lists b).drop r.start).take r.len)
  else none

/-- The number of nodes of all kinds. -/
def size (s : Store) : Nat :=
  (s.nodes .type).length + (s.nodes .expr).length + (s.nodes .signature).length +
    (s.nodes .field).length + (s.nodes .typeParams).length + (s.nodes .typeParam).length +
    (s.nodes .comment).length + (s.nodes .group).length

end Store

/-- Adds one thing after the other. -/
def storeAll {α β : Type} (f : α → Store → β × Store) : List α → Store → List β × Store
  | [], s => ([], s)
  | a :: as, s =>
    let first := f a s
    let more := storeAll f as first.2
    (first.1 :: more.1, more.2)

end GoDecls.Arena
