/-
  Names of types: which the language brings along, which a package exports, and
  how a qualified name is split.
-/
import GoDecls.Text.Uppercase

namespace GoDecls.Model

/-- The names of types that the language brings along.  `rune`, `error` and
    `any` are not among them; they are looked up like declared names. -/
def nativeTypes : List String :=
  ["bool", "byte", "int", "int8", "int16", "int32", "int64", "uint", "uint8", "uint16", "uint32",
    "uint64", "string", "float", "float64", "float32", "complex128", "complex64", "uintptr"]

/-- The language brings the type along. -/
def isNativeType (name : String) : Bool := nativeTypes.contains name

/-- The name is exported: it begins with an upper-case letter. -/
def isPublic (name : String) : Bool := name.toList.head?.any Text.isUppercase

/-- The parts of a name before and behind its first dot. -/
def cutAtDot? (name : String) : Option (String × String) :=
  let front := name.toList.takeWhile (· ≠ '.')
  match name.toList.drop front.length with
  | [] => none
  | _ :: rest => some (String.ofList front, String.ofList rest)

/-- The package, if there is one, and the identifier of a name.  Neither may be
    empty, and there is one dot at most. -/
def identifierParts? (name : String) : Option (Option String × String) :=
  match cutAtDot? name with
  | none => if name = "" then none else some (none, name)
  | some (pkg, ident) =>
    if pkg = "" ∨ ident = "" ∨ '.' ∈ ident.toList then none else some (some pkg, ident)

end GoDecls.Model
