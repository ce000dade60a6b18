/-
  The names of types in a tree, in the order in which they are written.

  * `TypeExpr.typeNames`: the names of a type and of all types below it;
  * `TypeExpr.keptNames`: those of the parts that have shapes (`TypeExpr.keptParts`), a
    row of them in the same order (`TypeExpr.keptNames_sublist`);
  * `TypeSpec.keptNames`: those of a declared type; a declared function has the
    constraints of its type parameters, which stand in front.
-/
import Mathlib.Data.List.Flatten
import GoDecls.Proofs.Model.Supported

namespace GoDecls.Tree

open scoped List

/-- A type that is a name, with the package before it. -/
structure QualifiedName where
  pkg : Option Ident
  name : Ident
deriving DecidableEq, Repr

namespace QualifiedName

/-- The names in it. -/
def idents (n : QualifiedName) : List Ident := n.pkg.toList ++ [n.name]

/-- The text of it. -/
def text (n : QualifiedName) : String :=
  match n.pkg with
  | none => n.name.text
  | some pkg => pkg.text ++ "." ++ n.name.text

end QualifiedName

/-! ## All names -/

/-- The name that the type itself is. -/
def TypeExpr.qualifiedName? : TypeExpr → Option QualifiedName
  | .named _ pkg name _ => some ⟨pkg, name⟩
  | _ => none

/-- The names of the type and of the types below it. -/
def TypeExpr.typeNames (T : TypeExpr) : List QualifiedName :=
  T.qualifiedName?.toList ++ T.parts.attach.flatMap fun S => S.1.typeNames
termination_by sizeOf T
decreasing_by exact sizeOf_lt_of_mem_parts S.2

theorem flatMap_attach {α β : Type} (xs : List α) (f : α → List β) :
    (xs.attach.flatMap fun x => f x.1) = xs.flatMap f := by
  rw [← List.flatMap_map Subtype.val f, List.attach_map_subtype_val]

theorem TypeExpr.typeNames_eq (T : TypeExpr) :
    T.typeNames = T.qualifiedName?.toList ++ T.parts.flatMap (·.typeNames) := by
  rw [typeNames, flatMap_attach]

/-- The single names in the names of types. -/
def TypeExpr.idents (T : TypeExpr) : List Ident := T.typeNames.flatMap (·.idents)

theorem TypeExpr.idents_eq (T : TypeExpr) :
    T.idents = T.qualifiedName?.toList.flatMap (·.idents) ++ T.parts.flatMap (·.idents) := by
  rw [idents, typeNames_eq, List.flatMap_append, List.flatMap_assoc]
  rfl

/-! ## Names that are kept -/

/-- The types of the fields that are kept. -/
def keptTypes (fields : List Field) : List TypeExpr := (fields.filter (·.isKept)).map (·.type)

/-- The types of the parameters and results that are kept. -/
def Signature.keptTypes (s : Signature) : List TypeExpr :=
  Tree.keptTypes s.params.fields ++ Tree.keptTypes s.results.fields

/-- The types in a member that are kept, if the member is. -/
def InterfaceElem.keptTypes : InterfaceElem → List TypeExpr
  | .method _ sig => sig.keptTypes
  | .union terms => terms.map (·.type)

/-- The parts of a type with a shape that are in its shape: all of them, but of structs,
    interfaces and functions those that are kept. -/
def TypeExpr.keptParts : TypeExpr → List TypeExpr
  | .named _ _ _ _ => []
  | .pointer _ _ elem | .array _ _ elem | .slice _ elem | .chan _ _ elem | .paren _ elem => [elem]
  | .map _ key value => [key, value]
  | .struct _ fields => Tree.keptTypes fields
  | .interface _ elems => (elems.filter (·.isKept)).flatMap (·.keptTypes)
  | .func _ sig => sig.keptTypes

theorem keptTypes_sublist (fields : List Field) :
    keptTypes fields <+ fields.map (·.type) :=
  List.filter_sublist.map _

theorem Results.types_eq (rs : Results) : rs.types = rs.fields.map (·.type) := by
  cases rs <;> rfl

theorem Signature.keptTypes_sublist (s : Signature) : s.keptTypes <+ s.types := by
  rw [keptTypes, types, Results.types_eq]
  exact (Tree.keptTypes_sublist _).append (Tree.keptTypes_sublist _)

theorem InterfaceElem.keptTypes_sublist (e : InterfaceElem) : e.keptTypes <+ e.types := by
  cases e with
  | method name sig => exact sig.keptTypes_sublist
  | union terms => exact .refl _

/-- The parts that are kept are parts, in the same order. -/
theorem TypeExpr.keptParts_sublist (T : TypeExpr) : T.keptParts <+ T.parts := by
  cases T with
  | named _ _ _ args => exact List.nil_sublist _
  | struct _ fields => exact Tree.keptTypes_sublist fields
  | interface _ elems =>
    exact (List.filter_sublist.flatMap _).trans
      (List.Sublist.flatMap_right _ fun e _ => e.keptTypes_sublist)
  | func _ sig => exact sig.keptTypes_sublist
  | _ => exact .refl _

theorem TypeExpr.sizeOf_lt_of_mem_keptParts {S T : TypeExpr} (h : S ∈ T.keptParts) :
    sizeOf S < sizeOf T :=
  sizeOf_lt_of_mem_parts (T.keptParts_sublist.subset h)

/-- The names of the type and of the parts below it that are kept. -/
def TypeExpr.keptNames (T : TypeExpr) : List QualifiedName :=
  T.qualifiedName?.toList ++ T.keptParts.attach.flatMap fun S => S.1.keptNames
termination_by sizeOf T
decreasing_by exact sizeOf_lt_of_mem_keptParts S.2

theorem TypeExpr.keptNames_eq (T : TypeExpr) :
    T.keptNames = T.qualifiedName?.toList ++ T.keptParts.flatMap (·.keptNames) := by
  rw [keptNames, flatMap_attach]

theorem TypeExpr.keptNames_sublist (T : TypeExpr) : T.keptNames <+ T.typeNames := by
  rw [keptNames_eq, typeNames_eq]
  have hparts : T.keptParts.flatMap (·.keptNames) <+ T.keptParts.flatMap (·.typeNames) :=
    List.Sublist.flatMap_right _ fun S _ => S.keptNames_sublist
  exact (List.Sublist.refl _).append (hparts.trans (T.keptParts_sublist.flatMap _))
termination_by sizeOf T
decreasing_by exact sizeOf_lt_of_mem_keptParts ‹_›

/-! ## Names of declared types -/

/-- The constraints that are kept and the declared type; only a declared function keeps
    constraints. -/
def TypeSpec.keptTypes (s : TypeSpec) : List TypeExpr :=
  match s.type with
  | .func _ _ => (s.params.filter (·.isKept)).flatMap (·.types) ++ [s.type]
  | _ => [s.type]

/-- The names of the declared type that are kept. -/
def TypeSpec.keptNames (s : TypeSpec) : List QualifiedName := s.keptTypes.flatMap (·.keptNames)

/-- The single names in the names of types in the spec, in the order of the text. -/
def TypeSpec.idents (s : TypeSpec) : List Ident :=
  (s.params.flatMap (·.types) ++ [s.type]).flatMap (·.idents)

theorem TypeSpec.keptTypes_sublist (s : TypeSpec) :
    s.keptTypes <+ s.params.flatMap (·.types) ++ [s.type] := by
  unfold keptTypes
  split
  · exact (List.filter_sublist.flatMap _).append (.refl _)
  · exact List.sublist_append_right _ _

/-- The names that are kept stand in the spec in the same order. -/
theorem TypeSpec.keptNames_sublist (s : TypeSpec) :
    s.keptNames.flatMap (·.idents) <+ s.idents := by
  rw [keptNames, idents, List.flatMap_assoc]
  exact (List.Sublist.flatMap_right _ fun T _ => T.keptNames_sublist.flatMap _).trans
    (s.keptTypes_sublist.flatMap _)

end GoDecls.Tree
