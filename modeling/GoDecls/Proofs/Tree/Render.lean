/-
  Types written out as tokens.

  * `TypeExpr.render` is the list of tokens of a type.  The tree does not keep
    the tokens of literals, tags and array lengths, and says nothing of a
    separator before a closing bracket; a `Manner` settles both;
  * `TypeExpr.unplaced` is the tree without its places, so that two trees differ
    in nothing but places iff they are equal without them;
  * `TypeExpr.parts` are the types right below a type, through fields, members
    and signatures.
-/
import GoDecls.Tree.Basic

namespace GoDecls.Tree

/-- A function that treats the entries of a list one by one is `map`. -/
theorem eq_map_of_cons {α β : Type} {f : List α → List β} {g : α → β} (hnil : f [] = [])
    (hcons : ∀ x xs, f (x :: xs) = g x :: f xs) : ∀ xs, f xs = xs.map g
  | [] => hnil
  | x :: xs => by rw [hcons, eq_map_of_cons hnil hcons xs, List.map_cons]

/-! ## Trees without places -/

/-- The occurrence without its place. -/
def Ident.unplaced (i : Ident) : Ident := ⟨i.text, .zero⟩

/-- The length without its place. -/
def ArrayLength.unplaced : ArrayLength → ArrayLength
  | .ellipsis _ => .ellipsis .zero
  | .expr _ e => .expr .zero e

/-- A place that is forgotten, but not that there was one. -/
def unplacedMark (s : Option Span) : Option Span := s.map fun _ => .zero

mutual

/-- The type without places. -/
def TypeExpr.unplaced : TypeExpr → TypeExpr
  | .named _ pkg name args =>
    .named .zero (pkg.map (·.unplaced)) name.unplaced (unplacedTypes args)
  | .pointer _ _ elem => .pointer .zero .zero elem.unplaced
  | .array _ length elem => .array .zero length.unplaced elem.unplaced
  | .slice _ elem => .slice .zero elem.unplaced
  | .map _ key value => .map .zero key.unplaced value.unplaced
  | .chan _ dir elem => .chan .zero dir elem.unplaced
  | .struct _ fields => .struct .zero (unplacedFields fields)
  | .interface _ elems => .interface .zero (unplacedElems elems)
  | .func _ sig => .func .zero sig.unplaced
  | .paren _ inner => .paren .zero inner.unplaced

/-- The types without places. -/
def unplacedTypes : List TypeExpr → List TypeExpr
  | [] => []
  | t :: ts => t.unplaced :: unplacedTypes ts

/-- The field without places. -/
def Field.unplaced : Field → Field
  | ⟨_, names, ellipsis, type, tag, embedded⟩ =>
    ⟨.zero, names.map (·.unplaced), unplacedMark ellipsis, type.unplaced, unplacedMark tag, embedded⟩

/-- The fields without places. -/
def unplacedFields : List Field → List Field
  | [] => []
  | f :: fs => f.unplaced :: unplacedFields fs

/-- The member without places. -/
def InterfaceElem.unplaced : InterfaceElem → InterfaceElem
  | .method name sig => .method name.unplaced sig.unplaced
  | .union terms => .union (unplacedTerms terms)

/-- The members without places. -/
def unplacedElems : List InterfaceElem → List InterfaceElem
  | [] => []
  | e :: es => e.unplaced :: unplacedElems es

/-- The term without places. -/
def Term.unplaced : Term → Term
  | ⟨tilde, type⟩ => ⟨unplacedMark tilde, type.unplaced⟩

/-- The terms without places. -/
def unplacedTerms : List Term → List Term
  | [] => []
  | t :: ts => t.unplaced :: unplacedTerms ts

/-- The signature without places. -/
def Signature.unplaced : Signature → Signature
  | ⟨_, params, results⟩ => ⟨.zero, params.unplaced, results.unplaced⟩

/-- The results without places. -/
def Results.unplaced : Results → Results
  | .none => .none
  | .single type => .single type.unplaced
  | .list fields => .list fields.unplaced

/-- The list without places. -/
def FieldList.unplaced : FieldList → FieldList
  | ⟨_, fields, _⟩ => ⟨.zero, unplacedFields fields, .zero⟩

end

@[simp] theorem unplacedTypes_eq_map (ts : List TypeExpr) :
    unplacedTypes ts = ts.map (·.unplaced) :=
  eq_map_of_cons rfl (fun _ _ => rfl) ts

@[simp] theorem unplacedFields_eq_map (fs : List Field) :
    unplacedFields fs = fs.map (·.unplaced) :=
  eq_map_of_cons rfl (fun _ _ => rfl) fs

@[simp] theorem unplacedElems_eq_map (es : List InterfaceElem) :
    unplacedElems es = es.map (·.unplaced) :=
  eq_map_of_cons rfl (fun _ _ => rfl) es

@[simp] theorem unplacedTerms_eq_map (ts : List Term) :
    unplacedTerms ts = ts.map (·.unplaced) :=
  eq_map_of_cons rfl (fun _ _ => rfl) ts

/-! ## Tokens -/

/-- The choices in writing a tree: the tokens of the text under a span, for the
    parts of which the tree keeps the place alone, and whether a list in brackets
    ends with its separator. -/
structure Manner where
  source : Span → List Token
  closing : Bool

/-- Lists of tokens with the separator between them, and behind the last one if
    `closing`. -/
def listed (sep : Punct) (closing : Bool) : List (List Token) → List Token
  | [] => []
  | [x] => if closing then x ++ [.punct sep] else x
  | x :: y :: ys => x ++ .punct sep :: listed sep closing (y :: ys)

/-- The token of a name. -/
def Ident.token (i : Ident) : Token := .ident i.text

/-- The tokens of names that share a type. -/
def renderNames (names : List Ident) : List Token :=
  listed .comma false (names.map fun i => [i.token])

theorem renderNames_cons_cons (i j : Ident) (is : List Ident) :
    renderNames (i :: j :: is) = i.token :: .punct .comma :: renderNames (j :: is) := rfl

/-- The tokens of the package before a name. -/
def renderQualifier : Option Ident → List Token
  | none => []
  | some pkg => [pkg.token, .punct .dot]

/-- The token that is there if its place is. -/
def renderMark (p : Punct) : Option Span → List Token
  | none => []
  | some _ => [.punct p]

/-- The tokens of type arguments, none if there are no arguments. -/
def renderArgs (m : Manner) : List (List Token) → List Token
  | [] => []
  | x :: xs => .punct .lbrack :: listed .comma m.closing (x :: xs) ++ [.punct .rbrack]

/-- The tokens of an array length. -/
def ArrayLength.render (m : Manner) : ArrayLength → List Token
  | .ellipsis _ => [.punct .ellipsis]
  | .expr _ (.ident name) => [.ident name]
  | .expr _ (.selector pkg name) => [.ident pkg, .punct .dot, .ident name]
  | .expr span (.literal _) | .expr span .other => m.source span

/-- The tokens of a tag. -/
def renderTag (m : Manner) : Option Span → List Token
  | none => []
  | some span => m.source span

/-- The tokens before the element type of a channel. -/
def ChanDir.render : ChanDir → List Token
  | .both => [.keyword .chan]
  | .send => [.keyword .chan, .punct .arrow]
  | .recv => [.punct .arrow, .keyword .chan]

mutual

/-- The tokens of a type. -/
def TypeExpr.render (m : Manner) : TypeExpr → List Token
  | .named _ pkg name args => renderQualifier pkg ++ name.token :: renderArgs m (renderTypes m args)
  | .pointer _ _ elem => .punct .star :: elem.render m
  | .array _ length elem => .punct .lbrack :: (length.render m ++ .punct .rbrack :: elem.render m)
  | .slice _ elem => .punct .lbrack :: .punct .rbrack :: elem.render m
  | .map _ key value =>
    .keyword .map :: .punct .lbrack :: (key.render m ++ .punct .rbrack :: value.render m)
  | .chan _ dir elem => dir.render ++ elem.render m
  | .struct _ fields =>
    .keyword .struct :: .punct .lbrace ::
      (listed .semi m.closing (renderFields m fields) ++ [.punct .rbrace])
  | .interface _ elems =>
    .keyword .interface :: .punct .lbrace ::
      (listed .semi m.closing (renderElems m elems) ++ [.punct .rbrace])
  | .func _ sig => .keyword .func :: sig.render m
  | .paren _ inner => .punct .lparen :: (inner.render m ++ [.punct .rparen])

/-- The tokens of each type. -/
def renderTypes (m : Manner) : List TypeExpr → List (List Token)
  | [] => []
  | t :: ts => t.render m :: renderTypes m ts

/-- The tokens of a field: names, `...`, type and tag, as far as it has them. -/
def Field.render (m : Manner) : Field → List Token
  | ⟨_, names, ellipsis, type, tag, _⟩ =>
    renderNames names ++ (renderMark .ellipsis ellipsis ++ (type.render m ++ renderTag m tag))

/-- The tokens of each field. -/
def renderFields (m : Manner) : List Field → List (List Token)
  | [] => []
  | f :: fs => f.render m :: renderFields m fs

/-- The tokens of a member. -/
def InterfaceElem.render (m : Manner) : InterfaceElem → List Token
  | .method name sig => name.token :: sig.render m
  | .union terms => listed .pipe false (renderTerms m terms)

/-- The tokens of each member. -/
def renderElems (m : Manner) : List InterfaceElem → List (List Token)
  | [] => []
  | e :: es => e.render m :: renderElems m es

/-- The tokens of a term. -/
def Term.render (m : Manner) : Term → List Token
  | ⟨tilde, type⟩ => renderMark .tilde tilde ++ type.render m

/-- The tokens of each term. -/
def renderTerms (m : Manner) : List Term → List (List Token)
  | [] => []
  | t :: ts => t.render m :: renderTerms m ts

/-- The tokens of a signature. -/
def Signature.render (m : Manner) : Signature → List Token
  | ⟨_, params, results⟩ => params.render m ++ results.render m

/-- The tokens of results. -/
def Results.render (m : Manner) : Results → List Token
  | .none => []
  | .single type => type.render m
  | .list fields => fields.render m

/-- The tokens of a list of parameters or results. -/
def FieldList.render (m : Manner) : FieldList → List Token
  | ⟨_, fields, _⟩ =>
    .punct .lparen :: (listed .comma m.closing (renderFields m fields) ++ [.punct .rparen])

end

@[simp] theorem renderTypes_eq_map (m : Manner) (ts : List TypeExpr) :
    renderTypes m ts = ts.map (·.render m) :=
  eq_map_of_cons rfl (fun _ _ => rfl) ts

@[simp] theorem renderFields_eq_map (m : Manner) (fs : List Field) :
    renderFields m fs = fs.map (·.render m) :=
  eq_map_of_cons rfl (fun _ _ => rfl) fs

@[simp] theorem renderElems_eq_map (m : Manner) (es : List InterfaceElem) :
    renderElems m es = es.map (·.render m) :=
  eq_map_of_cons rfl (fun _ _ => rfl) es

@[simp] theorem renderTerms_eq_map (m : Manner) (ts : List Term) :
    renderTerms m ts = ts.map (·.render m) :=
  eq_map_of_cons rfl (fun _ _ => rfl) ts

/-! ## The types below a type -/

/-- The types of the fields of a list. -/
def FieldList.types (l : FieldList) : List TypeExpr := l.fields.map (·.type)

/-- The types of results. -/
def Results.types : Results → List TypeExpr
  | .none => []
  | .single type => [type]
  | .list fields => fields.types

/-- The types of parameters and results. -/
def Signature.types (s : Signature) : List TypeExpr := s.params.types ++ s.results.types

/-- The types of a member. -/
def InterfaceElem.types : InterfaceElem → List TypeExpr
  | .method _ sig => sig.types
  | .union terms => terms.map (·.type)

/-- The types right below a type. -/
def TypeExpr.parts : TypeExpr → List TypeExpr
  | .named _ _ _ args => args
  | .pointer _ _ elem | .array _ _ elem | .slice _ elem | .chan _ _ elem | .paren _ elem => [elem]
  | .map _ key value => [key, value]
  | .struct _ fields => fields.map (·.type)
  | .interface _ elems => elems.flatMap (·.types)
  | .func _ sig => sig.types

/-- The types in the constraint. -/
def TypeParam.types (p : TypeParam) : List TypeExpr := p.constraint.map (·.type)

/-- The declared type and the types in constraints. -/
def TypeSpec.types (s : TypeSpec) : List TypeExpr :=
  s.type :: s.typeParams.toList.flatMap fun ps => ps.params.flatMap (·.types)

/-- The types that a declaration declares. -/
def Decl.typeSpecs : Decl → List TypeSpec
  | .types _ specs => specs
  | _ => []

/-- The types right below a declaration. -/
def Decl.parts (d : Decl) : List TypeExpr := d.typeSpecs.flatMap (·.types)

end GoDecls.Tree
