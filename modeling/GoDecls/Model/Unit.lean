/-
  Units of source files.

  `SourceUnit.ofText` reads a text and gives the model of its imports and
  declarations.  It fails if the text is no source file, if an imported
  path cannot be unquoted, or if a declared type cannot be represented.
-/
import GoDecls.Model.OfTree
import GoDecls.Tree.File

namespace GoDecls.Model

/-- Why a file has no model. -/
inductive UnitError where
  | unparsable (filename : String) (diagnostics : List Diagnostic)
  | badImport (filename : String) (cause : ConvertError)
  | badDeclaration (name filename : String) (cause : ConvertError)
deriving DecidableEq, Repr

/-- The wording of why a file has no model. -/
def UnitError.message : UnitError → String
  | .unparsable filename ds => "unable to parse " ++ filename ++ ": " ++ failureText ds
  | .badImport filename cause =>
    "unable to parse import in " ++ filename ++ ": " ++ cause.message
  | .badDeclaration name filename cause =>
    "unable to parse declaration " ++ name ++ " in " ++ filename ++ ": " ++ cause.message

/-- The wordings of the causes of an error, from the nearest on. -/
def UnitError.causes : UnitError → List String
  | .unparsable _ ds => [failureText ds]
  | .badImport _ cause | .badDeclaration _ _ cause =>
    cause.message :: match cause with
      | .importPath _ e => [e.message]
      | _ => []

/-- The import specs of a file, in order. -/
def importSpecs (file : Tree.SourceFile) : List Tree.ImportSpec :=
  file.decls.flatMap fun
    | .imports _ specs => specs
    | _ => []

/-- The type specs of a file, in order, each with the head of its declaration. -/
def typeSpecs (file : Tree.SourceFile) : List (Tree.DeclHead × Tree.TypeSpec) :=
  file.decls.flatMap fun
    | .types head specs => specs.map (head, ·)
    | _ => []

/-- The declaration of a type spec; none if its type has no shape or it has no
    name. -/
def Declaration.ofSpec (file : Tree.SourceFile) (text : List Char) (filename : String)
    (head : Tree.DeclHead) (spec : Tree.TypeSpec) : Except UnitError (Option Declaration) :=
  let name := spec.name.text
  if name = "" then .ok none
  else match Shape.ofSpec text spec with
    | .error cause => .error (.badDeclaration name filename cause)
    | .ok shape => .ok (shape.map fun s => ⟨name, s, declarationTags file text head spec⟩)

/-- The declarations of type specs, in order, up to the first error. -/
def Declaration.ofSpecs (file : Tree.SourceFile) (text : List Char) (filename : String) :
    List (Tree.DeclHead × Tree.TypeSpec) → Except UnitError (List Declaration)
  | [] => .ok []
  | (head, spec) :: specs =>
    (Declaration.ofSpec file text filename head spec).bind fun d =>
      (Declaration.ofSpecs file text filename specs).map (d.toList ++ ·)

namespace SourceUnit

/-- The unit of a tree and the text that its spans are read from. -/
def ofTree (file : Tree.SourceFile) (text filename : String) (module : Module) :
    Except UnitError SourceUnit :=
  let chars := text.toList
  match (importSpecs file).mapM (Import.ofSpec chars) with
  | .error cause => .error (.badImport filename cause)
  | .ok imports =>
    (Declaration.ofSpecs file chars filename (typeSpecs file)).map fun declarations =>
      ⟨module, filename, file.package, imports, declarations, text⟩

/-- The unit of a source text. -/
def ofText (text filename : String) (module : Module) : Except UnitError SourceUnit :=
  match Tree.SourceFile.ofText text.toList with
  | .error ds => .error (.unparsable filename ds)
  | .ok file => ofTree file text filename module

end SourceUnit

end GoDecls.Model
