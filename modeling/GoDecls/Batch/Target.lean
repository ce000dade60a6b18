/-
  Where a name that is used in a unit points: at which module, and at which
  declared name in it.

  * a name without package points into the module of the unit;
  * a name with package goes through the import known by that name.  An imported
    path that begins with a dot is relative to the module of the unit.
-/
import GoDecls.Model.Basic

namespace GoDecls.Batch

open Model

/-! ## Relative paths -/

/-- The segments after walking along a path; `walked` are those up to here, the
    last one first.  `.` stays, `..` goes one back, and there is nothing before
    the first. -/
def walk? (walked : List (List Char)) : List (List Char) → Option (List (List Char))
  | [] => some walked.reverse
  | s :: ss =>
    if s = ['.'] then walk? walked ss
    else if s = ['.', '.'] then
      match walked with
      | [] => none
      | _ :: before => walk? before ss
    else walk? (s :: walked) ss

/-- The segments between slashes. -/
def segments (path : String) : List (List Char) := path.toList.splitOn '/'

/-- The text of segments with slashes between them. -/
def joinSegments (ss : List (List Char)) : String := String.ofList (['/'].intercalate ss)

/-- The full name of the module that a relative path means in the module `m`;
    none if the path leaves the module. -/
def normalizeRelative (m : Module) (path : String) : Option String :=
  let below := if m.subDir = "" then path else m.subDir ++ "/" ++ path
  (walk? [] (segments below)).map fun ss =>
    let rest := joinSegments ss
    if rest = "" then m.name else m.name ++ "/" ++ rest

/-! ## Targets -/

/-- The full name of the module that an imported path means in the unit. -/
def importedModule? (u : SourceUnit) (path : String) : Option String :=
  if path = "" then none
  else if path = "." then some u.module.fullName
  else if path.toList.head? = some '.' then normalizeRelative u.module path
  else some path

/-- The full name of the module and the declared name that a name used in the
    unit points at. -/
def target? (u : SourceUnit) (name : String) : Option (String × String) :=
  match identifierParts? name with
  | none => none
  | some (none, ident) => some (u.module.fullName, ident)
  | some (some pkg, ident) =>
    (u.import? pkg).bind fun i => (importedModule? u i.path).map (·, ident)

end GoDecls.Batch
