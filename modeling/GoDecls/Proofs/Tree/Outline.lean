/-
  The outline of a tree: its spans and names, one inside the other as the nodes are,
  in the order in which they are written.

  * `Outline.Fits text o`: the outline fits a text.  Every span begins and ends
    between characters, no later than it begins; what is inside a node lies in its
    span, one behind the other; under a name stands that name;
  * `TypeExpr.outline`, `Decl.outlines`, … are the outlines of the tree.  What has no
    span of its own, such as a member of an interface, gives its parts to the node
    that holds it;
  * `Row text lo hi os`: outlines that fit, one behind the other between two
    positions.  Rows are put together and taken apart (`Row.append`,
    `Row.append_iff`), and a row fits in a node around it (`fits_node`).
-/
import GoDecls.Proofs.Token.Account
import GoDecls.Tree.Basic

namespace GoDecls.Tree

open Text

/-- A span, the name that stands under it if it is one of a name, and what is inside. -/
inductive Outline where
  | node (span : Span) (name : Option String) (parts : List Outline)

namespace Outline

/-- The stretch of the text that an outline covers. -/
def span : Outline → Span
  | node span _ _ => span

/-- A span with nothing inside. -/
def leaf (span : Span) : Outline := node span none []

@[simp] theorem span_node (s : Span) (name : Option String) (parts : List Outline) :
    (node s name parts).span = s := rfl

@[simp] theorem span_leaf (s : Span) : (leaf s).span = s := rfl

/-- The outline fits the text, at any depth. -/
inductive Fits (text : List Char) : Outline → Prop where
  | node {span : Span} {name : Option String} {parts : List Outline}
      (start : IsBoundary text span.start) (stop : IsBoundary text span.stop)
      (le : span.start ≤ span.stop)
      (named : ∀ s ∈ name, span.text? text = some s.toList)
      (within : ∀ o ∈ parts, span.start ≤ o.span.start ∧ o.span.stop ≤ span.stop)
      (ordered : parts.Pairwise (·.span.stop ≤ ·.span.start))
      (inside : ∀ o ∈ parts, o.Fits text) : Fits text (.node span name parts)

end Outline

/-! ## Outlines of trees -/

/-- The outline of a name. -/
def Ident.outline (i : Ident) : Outline := .node i.span (some i.text) []

/-- The outline of an array length.  A name alone is one in the text as well. -/
def ArrayLength.outline : ArrayLength → Outline
  | .expr span (.ident name) => .node span (some name) []
  | .ellipsis span | .expr span _ => .leaf span

/-- The outline of a mark that may be missing. -/
def markOutlines (s : Option Span) : List Outline := s.toList.map .leaf

mutual

/-- The outline of a type. -/
def TypeExpr.outline : TypeExpr → Outline
  | .named span pkg name args =>
    .node span none (pkg.toList.map (·.outline) ++ name.outline :: typeOutlines args)
  | .pointer span star elem => .node span none [.leaf star, elem.outline]
  | .array span length elem => .node span none [length.outline, elem.outline]
  | .slice span elem => .node span none [elem.outline]
  | .map span key value => .node span none [key.outline, value.outline]
  | .chan span _ elem => .node span none [elem.outline]
  | .struct span fields => .node span none (fieldOutlines fields)
  | .interface span elems => .node span none (elemOutlines elems)
  | .func span sig => .node span none [sig.outline []]
  | .paren span inner => .node span none [inner.outline]

/-- The outlines of types. -/
def typeOutlines : List TypeExpr → List Outline
  | [] => []
  | t :: ts => t.outline :: typeOutlines ts

/-- The outline of a field. -/
def Field.outline : Field → Outline
  | ⟨span, names, ellipsis, type, tag, _⟩ =>
    .node span none
      (names.map (·.outline) ++ (markOutlines ellipsis ++ type.outline :: markOutlines tag))

/-- The outlines of fields. -/
def fieldOutlines : List Field → List Outline
  | [] => []
  | f :: fs => f.outline :: fieldOutlines fs

/-- The outlines in a member of an interface.  The signature of a method begins
    with the name of the method. -/
def InterfaceElem.outlines : InterfaceElem → List Outline
  | .method name sig => [sig.outline [name.outline]]
  | .union terms => termOutlines terms

/-- The outlines in the members of an interface. -/
def elemOutlines : List InterfaceElem → List Outline
  | [] => []
  | e :: es => e.outlines ++ elemOutlines es

/-- The outlines in a term. -/
def Term.outlines : Term → List Outline
  | ⟨tilde, type⟩ => markOutlines tilde ++ [type.outline]

/-- The outlines in terms. -/
def termOutlines : List Term → List Outline
  | [] => []
  | t :: ts => t.outlines ++ termOutlines ts

/-- The outline of a signature, with what is in it before the parameters. -/
def Signature.outline : Signature → List Outline → Outline
  | ⟨span, params, results⟩, before =>
    .node span none (before ++ (params.outlines ++ results.outlines))

/-- The outlines in results. -/
def Results.outlines : Results → List Outline
  | .none => []
  | .single type => [type.outline]
  | .list fields => fields.outlines

/-- The outlines in a list of fields. -/
def FieldList.outlines : FieldList → List Outline
  | ⟨lparen, fields, rparen⟩ => .leaf lparen :: (fieldOutlines fields ++ [.leaf rparen])

end

/-- The outline of a type covers what the type does. -/
@[simp] theorem TypeExpr.span_outline (t : TypeExpr) : t.outline.span = t.span := by
  cases t <;> rfl

/-- The outline of a field covers what the field does. -/
@[simp] theorem Field.span_outline (f : Field) : f.outline.span = f.span := by
  cases f
  rfl

/-- The outline of type parameters that share a constraint. -/
def TypeParam.outline (p : TypeParam) : Outline :=
  .node p.span none (p.names.map (·.outline) ++ termOutlines p.constraint)

/-- The outline of a list of type parameters. -/
def TypeParams.outline (ps : TypeParams) : Outline :=
  .node ps.span none (ps.params.map (·.outline))

/-- The outline of the name of an import. -/
def ImportName.outline : ImportName → Outline
  | .dot span | .blank span => .leaf span
  | .named name => name.outline

/-- The outlines in an import. -/
def ImportSpec.outlines (s : ImportSpec) : List Outline :=
  s.name.toList.map (·.outline) ++ [.leaf s.path]

/-- The outlines in the declaration of a type. -/
def TypeSpec.outlines (s : TypeSpec) : List Outline :=
  s.name.outline ::
    (s.typeParams.toList.map (·.outline) ++ (markOutlines s.assign ++ [s.type.outline]))

/-- The outlines in a declaration, with those in its specs. -/
def DeclHead.outlines (head : DeclHead) (specs : List Outline) : List Outline :=
  .leaf head.keyword ::
    match head.parens with
    | none => specs
    | some (lparen, rparen) => .leaf lparen :: (specs ++ [.leaf rparen])

/-- The outlines in a declaration. -/
def Decl.outlines : Decl → List Outline
  | .func span => [.leaf span]
  | .imports head specs => head.outlines (specs.flatMap (·.outlines))
  | .types head specs => head.outlines (specs.flatMap (·.outlines))
  | .consts head | .vars head => head.outlines []

/-- The outline of the package clause and the declarations of a file with `size`
    bytes. -/
def SourceFile.outline (file : SourceFile) (size : Nat) : Outline :=
  .node ⟨0, size⟩ none (.leaf file.keyword :: file.decls.flatMap (·.outlines))

/-- The outline of comments that belong together. -/
def groupOutline (g : CommentGroup) : Outline :=
  .node g.span none (g.comments.map fun c => .leaf c.span)

/-- The outline of the comments of a file with `size` bytes. -/
def SourceFile.commentOutline (file : SourceFile) (size : Nat) : Outline :=
  .node ⟨0, size⟩ none (file.comments.map groupOutline)

/-! ## Rows -/

/-- The outlines fit the text and stand between two positions, one behind the
    other. -/
def Row (text : List Char) : Nat → Nat → List Outline → Prop
  | lo, hi, [] => lo ≤ hi
  | lo, hi, o :: os => lo ≤ o.span.start ∧ o.Fits text ∧ Row text o.span.stop hi os

variable {text : List Char} {lo lo' mid hi hi' : Nat} {o : Outline} {os os' : List Outline}
  {span : Span} {name : Option String}

theorem Outline.Fits.le (h : o.Fits text) : o.span.start ≤ o.span.stop := by
  cases h
  assumption

theorem Outline.Fits.start (h : o.Fits text) : IsBoundary text o.span.start := by
  cases h
  assumption

theorem Outline.Fits.stop (h : o.Fits text) : IsBoundary text o.span.stop := by
  cases h
  assumption

namespace Row

theorem le : ∀ {lo : Nat} {os : List Outline}, Row text lo hi os → lo ≤ hi
  | _, [], h => h
  | _, _ :: _, ⟨hlo, hfits, hos⟩ => Nat.le_trans hlo (Nat.le_trans hfits.le (le hos))

theorem nil (h : lo ≤ hi) : Row text lo hi [] := h

theorem mono (h : Row text lo hi os) (hlo : lo' ≤ lo) (hhi : hi ≤ hi') : Row text lo' hi' os := by
  induction os generalizing lo lo' with
  | nil => exact Nat.le_trans hlo (Nat.le_trans h hhi)
  | cons o os ih => exact ⟨Nat.le_trans hlo h.1, h.2.1, ih h.2.2 (Nat.le_refl _)⟩

theorem append_iff : Row text lo hi (os ++ os') ↔
    ∃ mid, Row text lo mid os ∧ Row text mid hi os' := by
  induction os generalizing lo with
  | nil =>
    constructor
    · exact fun h => ⟨lo, Nat.le_refl lo, h⟩
    · rintro ⟨mid, hlo, h⟩
      exact h.mono hlo (Nat.le_refl _)
  | cons o os ih =>
    constructor
    · rintro ⟨hlo, ho, h⟩
      obtain ⟨mid, hos, hos'⟩ := ih.1 h
      exact ⟨mid, ⟨hlo, ho, hos⟩, hos'⟩
    · rintro ⟨mid, ⟨hlo, ho, hos⟩, hos'⟩
      exact ⟨hlo, ho, ih.2 ⟨mid, hos, hos'⟩⟩

theorem append (h : Row text lo mid os) (h' : Row text mid hi os') : Row text lo hi (os ++ os') :=
  append_iff.2 ⟨mid, h, h'⟩

theorem singleton (hlo : lo ≤ o.span.start) (ho : o.Fits text) (hhi : o.span.stop ≤ hi) :
    Row text lo hi [o] :=
  ⟨hlo, ho, hhi⟩

theorem fits (h : Row text lo hi os) : ∀ o ∈ os, o.Fits text := by
  induction os generalizing lo with
  | nil => exact nofun
  | cons o os ih => exact List.forall_mem_cons.2 ⟨h.2.1, ih h.2.2⟩

theorem within (h : Row text lo hi os) : ∀ o ∈ os, lo ≤ o.span.start ∧ o.span.stop ≤ hi := by
  induction os generalizing lo with
  | nil => exact nofun
  | cons o os ih =>
    refine List.forall_mem_cons.2 ⟨⟨h.1, le h.2.2⟩, fun o' ho' => ?_⟩
    have hstop := ih h.2.2 o' ho'
    exact ⟨Nat.le_trans h.1 (Nat.le_trans h.2.1.le hstop.1), hstop.2⟩

theorem ordered (h : Row text lo hi os) : os.Pairwise (·.span.stop ≤ ·.span.start) := by
  induction os generalizing lo with
  | nil => exact .nil
  | cons o os ih => exact List.pairwise_cons.2 ⟨fun o' ho' => (h.2.2.within o' ho').1, ih h.2.2⟩

/-- Outlines that fit, in order and between two positions, are a row. -/
theorem of_ordered (hle : lo ≤ hi) (hfits : ∀ o ∈ os, o.Fits text)
    (hwithin : ∀ o ∈ os, lo ≤ o.span.start ∧ o.span.stop ≤ hi)
    (hordered : os.Pairwise (·.span.stop ≤ ·.span.start)) : Row text lo hi os := by
  induction os generalizing lo with
  | nil => exact hle
  | cons o os ih =>
    obtain ⟨ho, hos⟩ := List.forall_mem_cons.1 hwithin
    obtain ⟨hbehind, hrest⟩ := List.pairwise_cons.1 hordered
    obtain ⟨hfit, hmore⟩ := List.forall_mem_cons.1 hfits
    exact ⟨ho.1, hfit, ih ho.2 hmore (fun o' ho' => ⟨hbehind o' ho', (hos o' ho').2⟩) hrest⟩

/-- What is inside an outline that fits is a row. -/
theorem of_fits {parts : List Outline} (h : (Outline.node span name parts).Fits text) :
    Row text span.start span.stop parts := by
  cases h with
  | node _ _ hle _ hwithin hordered hparts => exact of_ordered hle hparts hwithin hordered

end Row

/-- A node fits if what is inside is a row from its beginning to its end. -/
theorem fits_node {parts : List Outline} (hstart : IsBoundary text span.start)
    (hstop : IsBoundary text span.stop) (hnamed : ∀ s ∈ name, span.text? text = some s.toList)
    (hparts : Row text span.start span.stop parts) : (Outline.node span name parts).Fits text :=
  .node hstart hstop hparts.le hnamed hparts.within hparts.ordered hparts.fits

theorem fits_leaf (hstart : IsBoundary text span.start) (hstop : IsBoundary text span.stop)
    (hle : span.start ≤ span.stop) : (Outline.leaf span).Fits text :=
  fits_node hstart hstop nofun hle

/-- A node of the whole text. -/
theorem fits_whole (h : Row text 0 (byteLength text) os) :
    (Outline.node ⟨0, byteLength text⟩ none os).Fits text :=
  fits_node ⟨[], text, rfl, rfl⟩ ⟨text, [], (List.append_nil _).symm, rfl⟩ nofun h

/-- A node of the same extent around an outline. -/
theorem Outline.Fits.around (h : o.Fits text) : (Outline.node o.span none [o]).Fits text :=
  fits_node h.start h.stop nofun (.singleton (Nat.le_refl _) h (Nat.le_refl _))

/-- A node takes in what stands before it, and begins where that begins. -/
theorem Row.absorb {parts : List Outline}
    (h : Row text lo hi (os ++ .node span none parts :: os')) :
    Row text lo hi
      (.node ⟨(os.head?.map (·.span.start)).getD span.start, span.stop⟩ none (os ++ parts) :: os')
    := by
  obtain ⟨mid, hos, hmid, hnode, hos'⟩ := append_iff.1 h
  have hparts := Row.of_fits hnode
  cases os with
  | nil => exact ⟨Nat.le_trans hos.le hmid, hnode, hos'⟩
  | cons o os =>
    obtain ⟨hlo, ho, hrest⟩ := hos
    have hfront : Row text o.span.start mid (o :: os) := ⟨Nat.le_refl _, ho, hrest⟩
    refine ⟨hlo, fits_node ho.start hnode.stop nofun ?_, hos'⟩
    exact hfront.append (hparts.mono hmid (Nat.le_refl _))

end GoDecls.Tree
