/-
  Binding of the references in a batch of units.

  `resolve` binds every reference that points at a declaration of the batch.  A
  bound reference keeps its target, and what points nowhere stays unbound.
-/
import GoDecls.Batch.Index
import GoDecls.Model.References

namespace GoDecls.Batch

open Model

/-- How many references there are, and how many of them are bound. -/
structure Stats where
  references : Nat
  resolved : Nat
deriving DecidableEq, Repr

/-- How many references are not bound. -/
def Stats.unresolved (s : Stats) : Nat := s.references - s.resolved

/-- The references of a unit, in order. -/
def references (u : SourceUnit) : List Reference := u.declarations.flatMap (·.references)

/-- The reference, used in the unit, with its target. -/
def bindReference (ix : DeclIndex) (u : SourceUnit) (r : Reference) : Reference :=
  if r.isBound then r else { r with target := ix.resolve? u r.name }

/-- The unit with its references bound. -/
def resolveUnit (ix : DeclIndex) (u : SourceUnit) : SourceUnit :=
  { u with
    declarations := u.declarations.map (·.mapReferences fun _ => bindReference ix u) }

/-- The numbers of references and of bound ones in a batch. -/
def stats (units : List SourceUnit) : Stats :=
  let all := units.flatMap references
  ⟨all.length, all.countP (·.isBound)⟩

/-- The batch with its references bound, and their numbers after that. -/
def resolve (units : List SourceUnit) : List SourceUnit × Stats :=
  let bound := units.map (resolveUnit (.ofUnits units))
  (bound, stats bound)

/-! ## Declarations of a batch -/

/-- The declaration at a place of the batch. -/
def declarationAt? (units : List SourceUnit) (r : DeclRef) : Option Declaration :=
  units[r.unit]?.bind (·.declarations[r.decl]?)

/-- The batch in which one reference of a declaration is bound by hand, and
    whether it was unbound before; a bound one stays as it is.  The declaration
    is the first of the name in its unit.  None if there is no such reference. -/
def setTarget? (units : List SourceUnit) (unit : Nat) (name : String) (number : Nat)
    (target : DeclRef) : Option (List SourceUnit × Bool) :=
  units[unit]?.bind fun u =>
    (u.declarations.findIdx? (·.name = name)).bind fun i =>
      u.declarations[i]?.bind fun d =>
        d.references[number]?.map fun r =>
          if r.isBound then (units, false)
          else
            let d' := d.mapReferences fun j r => if j = number then { r with target } else r
            (units.set unit { u with declarations := u.declarations.set i d' }, true)

end GoDecls.Batch
