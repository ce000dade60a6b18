/-
  Listings of a batch of units: one line for each declaration, with the targets
  of its references, or one line for each reference that has no target.

  * `ofUnits` is the listing of declarations with a summary behind it;
  * `ofUnbound` is the listing of unbound references, one line for each of
    `unboundReferences`.
-/
import GoDecls.Batch.Resolve
import GoDecls.Text.Escaped

namespace GoDecls.Listing

open Model

/-- Braces, which stand around the members of a type. -/
def inBraces (s : String) : String := "\x7b" ++ s ++ " \x7d"

/-! ## Shapes -/

/-- The target of a reference: the module and the name of the declaration. -/
def targetText (units : List SourceUnit) (target : DeclRef) : String :=
  " -> " ++ ((units[target.unit]?.map (·.module.fullName)).getD "") ++ "." ++
    (((Batch.declarationAt? units target).map (·.name)).getD "")

/-- A reference, with its target if it is bound. -/
def referenceText (units : List SourceUnit) (r : Reference) : String :=
  r.name ++ ((r.target.map (targetText units)).getD "")

/-- The length of an array between brackets. -/
def sizeText (size : ArraySize) : String := "[" ++ size.text ++ "]"

/-- The words before the type of a channel. -/
def dirText : Tree.ChanDir → String
  | .both => "chan "
  | .send => "chan<- "
  | .recv => "<-chan "

/-- The tags of a field. -/
def fieldTags (tags : Tags) : String :=
  String.join (tags.entries.map fun e => " @" ++ e.1 ++ ":" ++ Text.escaped e.2.text)

mutual

/-- A shape on one line. -/
def shapeText (units : List SourceUnit) : Shape → String
  | .native name => name
  | .reference r => referenceText units r
  | .struct fields => "struct " ++ inBraces (";".intercalate (fieldTexts units fields))
  | .interface methods incomplete =>
    "interface " ++ inBraces
      (";".intercalate (fieldTexts units methods) ++ if incomplete then " ..." else "")
  | .map key value => "map[" ++ shapeText units key ++ "]" ++ shapeText units value
  | .array size _ elem => sizeText size ++ shapeText units elem
  | .pointer elem => "*" ++ shapeText units elem
  | .channel dir elem => dirText dir ++ shapeText units elem
  | .function typeParams params results =>
    "func" ++
      (if typeParams.isEmpty then ""
        else "[" ++ ",".intercalate (fieldTexts units typeParams) ++ " ]") ++
      "(" ++ ",".intercalate (fieldTexts units params) ++ " )" ++
      (if results.isEmpty then ""
        else " (" ++ ",".intercalate (fieldTexts units results) ++ " )")

/-- A field: names, type and tags, behind a space. -/
def fieldText (units : List SourceUnit) : Field → String
  | ⟨names, _, type, tags⟩ =>
    " " ++ (if names.isEmpty then "" else ", ".intercalate names ++ " ") ++
      shapeText units type ++ fieldTags tags

/-- Each of the fields. -/
def fieldTexts (units : List SourceUnit) : List Field → List String
  | [] => []
  | f :: fs => fieldText units f :: fieldTexts units fs

end

/-! ## Declarations -/

/-- A declaration on one line, and each of its tags on a line. -/
def declarationLines (units : List SourceUnit) (d : Declaration) : List String :=
  ("  type " ++ d.name ++ " " ++ shapeText units d.type) ::
    d.tags.entries.map fun e => "    @" ++ e.1 ++ ": " ++ Text.escaped e.2.text

/-- The line that a unit begins with. -/
def unitLine (u : SourceUnit) : String :=
  u.filename ++ " (module " ++ Text.escaped u.module.fullName ++ ", package " ++ u.package ++ ")"

/-- The lines of a unit in a batch; only those of exported declarations if
    `onlyPublic` says so. -/
def unitLines (onlyPublic : Bool) (units : List SourceUnit) (u : SourceUnit) : List String :=
  unitLine u ::
    (u.declarations.filter fun d => !onlyPublic || d.isPublic).flatMap (declarationLines units)

/-- The numbers of files, references and unbound references. -/
def summaryLine (units : List SourceUnit) (stats : Batch.Stats) : String :=
  toString units.length ++ " files, " ++ toString stats.references ++ " references, " ++
    toString stats.unresolved ++ " unresolved"

/-- The text of lines. -/
def unlines (lines : List String) : String := String.join (lines.map (· ++ "\n"))

/-- The listing of the declarations of a batch. -/
def ofUnits (onlyPublic : Bool) (units : List SourceUnit) (stats : Batch.Stats) : String :=
  unlines (units.flatMap (unitLines onlyPublic units) ++ [summaryLine units stats])

/-! ## Unbound references -/

/-- A reference without target, and where it is used. -/
structure Unbound where
  filename : String
  declaration : String
  reference : String
deriving DecidableEq, Repr

/-- The unbound references of a batch, in order. -/
def unboundReferences (units : List SourceUnit) : List Unbound :=
  units.flatMap fun u => u.declarations.flatMap fun d =>
    (d.references.filter (!·.isBound)).map fun r => ⟨u.filename, d.name, r.name⟩

/-- The line of an unbound reference. -/
def Unbound.line (r : Unbound) : String :=
  r.filename ++ ": " ++ r.declaration ++ " -> " ++ r.reference

/-- The listing of the unbound references of a batch. -/
def ofUnbound (units : List SourceUnit) : String :=
  unlines ((unboundReferences units).map Unbound.line)

end GoDecls.Listing
