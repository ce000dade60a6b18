/-
  The declarations of a batch of units by module and name.  Of several with the
  same module and name, the first counts.
-/
import Std.Data.HashMap
import GoDecls.Batch.Target

namespace GoDecls.Batch

open Model

/-- The first declaration of each name in each module. -/
structure DeclIndex where
  first : Std.HashMap (String × String) DeclRef

namespace DeclIndex

/-- The index with the declarations of a unit, where nothing is known of their
    names yet; `unit` is its number, and `decl` that of the first of them. -/
def addDecls (ix : DeclIndex) (module : String) (unit decl : Nat) :
    List Declaration → DeclIndex
  | [] => ix
  | d :: ds =>
    addDecls ⟨ix.first.insertIfNew (module, d.name) ⟨unit, decl⟩⟩ module unit (decl + 1) ds

/-- The index with the declarations of units; `unit` is the number of the
    first. -/
def addUnits (ix : DeclIndex) (unit : Nat) : List SourceUnit → DeclIndex
  | [] => ix
  | u :: us => addUnits (ix.addDecls u.module.fullName unit 0 u.declarations) (unit + 1) us

/-- The index of a batch. -/
def ofUnits (units : List SourceUnit) : DeclIndex := addUnits ⟨{}⟩ 0 units

/-- The first declaration of the name in the module. -/
def lookup? (ix : DeclIndex) (module name : String) : Option DeclRef :=
  ix.first[(module, name)]?

/-- The declaration that a name used in the unit points at. -/
def resolve? (ix : DeclIndex) (u : SourceUnit) (name : String) : Option DeclRef :=
  (target? u name).bind fun t => ix.lookup? t.1 t.2

end DeclIndex

end GoDecls.Batch
