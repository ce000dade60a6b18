/-
  Reading a store back into a tree.

  What a node stands for is said by the node, its stretch, and what the nodes that
  it holds stand for: `rec` in the readers below.  `Store.value?` ties the knot: it
  descends from node to node, at most as deep as there are nodes, and is `none`
  where an id or a list lies outside.
-/
import GoDecls.Arena.File

namespace GoDecls.Arena

open Tree

/-- What the nodes of a kind stand for.  Of a comment group the store keeps the
    comments and the stretch. -/
@[reducible] def Value : Kind → Type
  | .type => TypeExpr
  | .expr => ArrayLength
  | .signature => Signature
  | .field => Field
  | .typeParams => TypeParams
  | .typeParam => TypeParam
  | .comment => Comment
  | .group => List Comment × Span

/-- What the items of a buffer stand for. -/
@[reducible] def Element : Buffer → Type
  | .idents => Ident
  | .types => TypeExpr
  | .fields => Field
  | .specs => ImportSpec ⊕ TypeSpec
  | .decls => Decl
  | .terms => Term
  | .elems => InterfaceElem
  | .typeParams => TypeParam
  | .comments => Comment
  | .groups => List Comment × Span

namespace Store

variable (s : Store) (rec : (k : Kind) → NodeId k → Option (Value k))

/-! ## Types -/

/-- What an array length stands for. -/
def lengthOf? : LengthRef → Option ArrayLength
  | .ellipsis span => some (.ellipsis span)
  | .expr i => rec _ i

/-- What a field stands for. -/
def fieldOf? (node : FieldNode) (span : Span) : Option Field :=
  (s.list? node.names).bind fun names =>
    (rec _ node.type).map fun type =>
      ⟨span, names, node.ellipsis, type, node.tag, node.embedded⟩

/-- What fields between parentheses stand for. -/
def fieldsOf? (fs : FieldsRef) : Option FieldList :=
  ((s.list? fs.fields).bind (List.mapM (rec .field))).map fun fields =>
    ⟨fs.lparen, fields, fs.rparen⟩

/-- What results stand for. -/
def resultsOf? : ResultsRef → Option Results
  | .none => some .none
  | .single type => (rec _ type).map .single
  | .list fields => (s.fieldsOf? rec fields).map .list

/-- What a signature stands for. -/
def signatureOf? (node : SignatureNode) (span : Span) : Option Signature :=
  (s.fieldsOf? rec node.params).bind fun params =>
    (s.resultsOf? rec node.results).map fun results => ⟨span, params, results⟩

/-- What a term stands for. -/
def termOf? (t : TermItem) : Option Term := (rec _ t.type).map fun type => ⟨t.tilde, type⟩

/-- What a list of terms stands for. -/
def termsOf? (r : ListRef .terms) : Option (List Term) :=
  (s.list? r).bind (List.mapM (termOf? rec))

/-- What a member of an interface stands for. -/
def elemOf? : ElemItem → Option InterfaceElem
  | .method name sig => (rec _ sig).map (.method name)
  | .union terms => (s.termsOf? rec terms).map .union

/-- What a type stands for. -/
def typeOf? (node : TypeNode) (span : Span) : Option TypeExpr :=
  match node with
  | .named pkg name args =>
    ((s.list? args).bind (List.mapM (rec .type))).map (.named span pkg name)
  | .pointer star elem => (rec _ elem).map (.pointer span star)
  | .array length elem =>
    (lengthOf? rec length).bind fun length => (rec _ elem).map (.array span length)
  | .slice elem => (rec _ elem).map (.slice span)
  | .map key value => (rec _ key).bind fun key => (rec _ value).map (.map span key)
  | .chan dir elem => (rec _ elem).map (.chan span dir)
  | .struct fields => ((s.list? fields).bind (List.mapM (rec .field))).map (.struct span)
  | .interface elems =>
    ((s.list? elems).bind (List.mapM (s.elemOf? rec))).map (.interface span)
  | .func sig => (rec _ sig).map (.func span)
  | .paren inner => (rec _ inner).map (.paren span)

/-! ## Declarations -/

/-- What a group of type parameters stands for. -/
def typeParamOf? (node : TypeParamNode) (span : Span) : Option TypeParam :=
  (s.list? node.names).bind fun names =>
    (s.termsOf? rec node.constraint).map fun terms => ⟨span, names, terms⟩

/-- The number of a comment group: its place. -/
def groupNumber? : Option (NodeId .group) → Option (Option Nat)
  | none => some none
  | some i => (s.node? i).map fun _ => some i.place

/-- What the type parameters of a spec stand for. -/
def typeParamsOf? : Option (NodeId .typeParams) → Option (Option TypeParams)
  | none => some none
  | some i => (rec _ i).map some

/-- What an imported path stands for. -/
def importOf? (item : ImportItem) : Option ImportSpec :=
  (s.groupNumber? item.doc).map fun doc => ⟨doc, item.name, item.path⟩

/-- What a declared type stands for. -/
def typeSpecOf? (item : TypeItem) : Option TypeSpec :=
  (s.groupNumber? item.doc).bind fun doc =>
    (s.groupNumber? item.comment).bind fun comment =>
      (typeParamsOf? rec item.typeParams).bind fun params =>
        (rec _ item.type).map fun type => ⟨doc, comment, item.name, params, item.assign, type⟩

/-- What a spec stands for. -/
def specOf? : SpecItem → Option (ImportSpec ⊕ TypeSpec)
  | .imported item => (s.importOf? item).map .inl
  | .type item => (s.typeSpecOf? rec item).map .inr

/-- The declaration of a kind with a head and specs. -/
def genDecl? (kind : GenKind) (head : DeclHead) (specs : List (ImportSpec ⊕ TypeSpec)) :
    Option Decl :=
  match kind with
  | .imports => (specs.mapM Sum.getLeft?).map (.imports head)
  | .types => (specs.mapM Sum.getRight?).map (.types head)
  | .consts => some (.consts head)
  | .vars => some (.vars head)

/-- What a declaration stands for. -/
def declOf? : DeclItem → Option Decl
  | .func span => some (.func span)
  | .gen kind head specs =>
    (s.groupNumber? head.doc).bind fun doc =>
      ((s.list? specs).bind (List.mapM (s.specOf? rec))).bind
        (genDecl? kind ⟨doc, head.keyword, head.parens⟩)

/-! ## All nodes and items -/

/-- What a node stands for. -/
def nodeOf? (k : Kind) (node : Node k) (span : Span) : Option (Value k) :=
  match k, node with
  | .type, node => s.typeOf? rec node span
  | .expr, e => some (.expr span e)
  | .signature, node => s.signatureOf? rec node span
  | .field, node => s.fieldOf? rec node span
  | .typeParams, r =>
    ((s.list? r).bind (List.mapM (rec .typeParam))).map fun params => ⟨span, params⟩
  | .typeParam, node => s.typeParamOf? rec node span
  | .comment, kind => some ⟨kind, span⟩
  | .group, r =>
    ((s.list? r).bind (List.mapM (rec .comment))).map fun comments => (comments, span)

/-- What an item stands for. -/
def itemOf? (b : Buffer) (item : Item b) : Option (Element b) :=
  match b, item with
  | .idents, name => some name
  | .types, i => rec _ i
  | .fields, i => rec _ i
  | .specs, item => s.specOf? rec item
  | .decls, item => s.declOf? rec item
  | .terms, item => termOf? rec item
  | .elems, item => s.elemOf? rec item
  | .typeParams, i => rec _ i
  | .comments, i => rec _ i
  | .groups, i => rec _ i

/-- What the node with an id stands for, seen from no more than `depth` nodes
    above. -/
def valueAt? : Nat → (k : Kind) → NodeId k → Option (Value k)
  | 0, _, _ => none
  | depth + 1, k, i => (s.node? i).bind fun p => s.nodeOf? (valueAt? depth) k p.1 p.2

/-- What the node with an id stands for. -/
def value? : (k : Kind) → NodeId k → Option (Value k) := s.valueAt? s.size

/-- What a list stands for. -/
def listOf? {b : Buffer} (r : ListRef b) : Option (List (Element b)) :=
  (s.list? r).bind (List.mapM (s.itemOf? s.value? b))

end Store

/-- The declarations that a file stands for. -/
def StoredFile.decls? (p : StoredFile) : Option (List Decl) := p.store.listOf? p.decls

/-- The comment groups that a file stands for. -/
def StoredFile.comments? (p : StoredFile) : Option (List (List Comment × Span)) :=
  p.store.listOf? p.comments

end GoDecls.Arena
