/-
  Renaming of types: a function on names is applied to the names of declared
  types, and to the names and packages of types that are written by name.
  Places stay as they are, so that spans go on to point into the old text.
-/
import GoDecls.Tree.Basic

namespace GoDecls.Tree

/-- The occurrence with another name. -/
def Ident.rename (f : String → String) (i : Ident) : Ident := { i with text := f i.text }

mutual

/-- The type with other names. -/
def TypeExpr.rename (f : String → String) : TypeExpr → TypeExpr
  | .named s pkg name args =>
    .named s (pkg.map (·.rename f)) (name.rename f) (renameTypes f args)
  | .pointer s star elem => .pointer s star (elem.rename f)
  | .array s length elem => .array s length (elem.rename f)
  | .slice s elem => .slice s (elem.rename f)
  | .map s key value => .map s (key.rename f) (value.rename f)
  | .chan s dir elem => .chan s dir (elem.rename f)
  | .struct s fields => .struct s (renameFields f fields)
  | .interface s elems => .interface s (renameElems f elems)
  | .func s sig => .func s (sig.rename f)
  | .paren s inner => .paren s (inner.rename f)

/-- The types with other names. -/
def renameTypes (f : String → String) : List TypeExpr → List TypeExpr
  | [] => []
  | t :: ts => t.rename f :: renameTypes f ts

/-- The field with other names in its type. -/
def Field.rename (f : String → String) : Field → Field
  | ⟨s, names, ellipsis, type, tag, embedded⟩ =>
    ⟨s, names, ellipsis, type.rename f, tag, embedded⟩

/-- The fields with other names in their types. -/
def renameFields (f : String → String) : List Field → List Field
  | [] => []
  | x :: xs => x.rename f :: renameFields f xs

/-- The member with other names in its types. -/
def InterfaceElem.rename (f : String → String) : InterfaceElem → InterfaceElem
  | .method name sig => .method name (sig.rename f)
  | .union terms => .union (renameTerms f terms)

/-- The members with other names in their types. -/
def renameElems (f : String → String) : List InterfaceElem → List InterfaceElem
  | [] => []
  | x :: xs => x.rename f :: renameElems f xs

/-- The term with other names in its type. -/
def Term.rename (f : String → String) : Term → Term
  | ⟨tilde, type⟩ => ⟨tilde, type.rename f⟩

/-- The terms with other names in their types. -/
def renameTerms (f : String → String) : List Term → List Term
  | [] => []
  | x :: xs => x.rename f :: renameTerms f xs

/-- The signature with other names in its types. -/
def Signature.rename (f : String → String) : Signature → Signature
  | ⟨s, params, results⟩ => ⟨s, params.rename f, results.rename f⟩

/-- The results with other names in their types. -/
def Results.rename (f : String → String) : Results → Results
  | .none => .none
  | .single type => .single (type.rename f)
  | .list fields => .list (fields.rename f)

/-- The list with other names in its types. -/
def FieldList.rename (f : String → String) : FieldList → FieldList
  | ⟨lparen, fields, rparen⟩ => ⟨lparen, renameFields f fields, rparen⟩

end

/-- The type parameters with other names in their constraints. -/
def TypeParams.rename (f : String → String) (ps : TypeParams) : TypeParams :=
  { ps with params := ps.params.map fun p => { p with constraint := renameTerms f p.constraint } }

/-- The declared type with another name, and other names in its types. -/
def TypeSpec.rename (f : String → String) (s : TypeSpec) : TypeSpec :=
  { s with
    name := s.name.rename f
    typeParams := s.typeParams.map (·.rename f)
    type := s.type.rename f }

/-- The declaration with other names of types. -/
def Decl.rename (f : String → String) : Decl → Decl
  | .types head specs => .types head (specs.map (·.rename f))
  | d => d

/-- The file with other names of types. -/
def SourceFile.rename (f : String → String) (file : SourceFile) : SourceFile :=
  { file with decls := file.decls.map (·.rename f) }

end GoDecls.Tree
