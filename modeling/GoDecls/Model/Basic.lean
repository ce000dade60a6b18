/-
  The types that source files declare, freed from the way they are written.

  A `SourceUnit` holds the declarations of one file.  A declaration has a shape;
  in a shape, names of other declarations are references, which know their
  target once they are bound.

  * `Shape.implicitName` is the name of a field that is embedded under a type;
  * `Field.effectiveNames` are the names a field answers to.
-/
import GoDecls.Model.Names
import GoDecls.Tag.Basic
import GoDecls.Tree.Basic

namespace GoDecls.Model

open GoDecls.Tree (ChanDir)

/-! ## Modules -/

/-- The module a file belongs to, and the directory of the file in it. -/
structure Module where
  name : String
  subDir : String
deriving DecidableEq, Repr

namespace Module

/-- The module of files that are taken without one. -/
def none : Module := ⟨"", ""⟩

/-- The path under which the directory is imported. -/
def fullName (m : Module) : String :=
  if m.subDir = "" then m.name else m.name ++ "/" ++ m.subDir

end Module

/-- An imported path and the name it is known by in the file. -/
structure Import where
  name : String
  path : String
deriving DecidableEq, Repr

/-! ## Shapes -/

/-- The place of a declaration in a batch: number of the unit, and of the
    declaration in it. -/
structure DeclRef where
  unit : Nat
  decl : Nat
deriving DecidableEq, Repr

/-- A name that stands for a declaration, and the declaration if it is bound. -/
structure Reference where
  name : String
  target : Option DeclRef
deriving DecidableEq, Repr

namespace Reference

/-- The reference that is not bound yet. -/
def unbound (name : String) : Reference := ⟨name, none⟩

/-- The package before the first dot. -/
def package? (r : Reference) : Option String := (cutAtDot? r.name).map Prod.fst

/-- The name behind the first dot, or the whole name. -/
def unqualifiedName (r : Reference) : String := ((cutAtDot? r.name).map Prod.snd).getD r.name

/-- The reference has a target. -/
def isBound (r : Reference) : Bool := r.target.isSome

end Reference

/-- The length of an array as it is written. -/
inductive ArraySize where
  | slice
  | ellipsis
  | expr (text : String)
deriving DecidableEq, Repr

/-- The length between the brackets. -/
def ArraySize.text : ArraySize → String
  | .slice => ""
  | .ellipsis => "..."
  | .expr text => text

mutual

/-- What a type is. -/
inductive Shape where
  | native (name : String)
  | reference (r : Reference)
  | struct (fields : List Field)
  /-- methods and embedded types; incomplete if unions were left out -/
  | interface (methods : List Field) (incomplete : Bool)
  | map (key value : Shape)
  /-- `count` is the value of the length if it is a literal -/
  | array (size : ArraySize) (count : Option Int) (elem : Shape)
  | pointer (elem : Shape)
  | channel (dir : ChanDir) (elem : Shape)
  | function (typeParams params results : List Field)

/-- Names that share a type; without names, the field is known by the name of
    its type. -/
structure Field where
  names : List String
  implicitName : String
  type : Shape
  tags : Tags

end

/-- The name of a field that is embedded under the shape. -/
def Shape.implicitName : Shape → String
  | .native name => name
  | .reference r => r.unqualifiedName
  | .array _ _ elem => elem.implicitName
  | .pointer elem => elem.implicitName
  | .channel _ elem => elem.implicitName
  | .struct _ | .interface _ _ | .map _ _ | .function _ _ _ => ""

namespace Field

/-- The field of a type without a name. -/
def embed (type : Shape) : Field := ⟨[], type.implicitName, type, .empty⟩

/-- The names the field answers to. -/
def effectiveNames (f : Field) : List String :=
  if f.names.isEmpty then [f.implicitName] else f.names

/-- The field has no name of its own. -/
def isEmbedded (f : Field) : Bool := f.names.isEmpty

end Field

/-- The first field of a struct that answers to the name. -/
def Shape.field? (s : Shape) (name : String) : Option Field :=
  match s with
  | .struct fields => fields.find? (·.effectiveNames.contains name)
  | _ => none

/-! ## Units -/

/-- A declared type. -/
structure Declaration where
  name : String
  type : Shape
  tags : Tags

/-- The declaration is exported. -/
def Declaration.isPublic (d : Declaration) : Bool := Model.isPublic d.name

/-- The declarations of one source file, in the order of the file. -/
structure SourceUnit where
  module : Module
  filename : String
  package : String
  imports : List Import
  declarations : List Declaration
  text : String

namespace SourceUnit

/-- The first declaration with the name. -/
def declaration? (u : SourceUnit) (name : String) : Option Declaration :=
  u.declarations.find? (·.name = name)

/-- The first import known by the name. -/
def import? (u : SourceUnit) (name : String) : Option Import :=
  u.imports.find? (·.name = name)

end SourceUnit

end GoDecls.Model
