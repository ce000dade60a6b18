/-
  The references in a shape, in the order in which they are met: a map's key
  before its value; of a function, type parameters before parameters before
  results.

  * `Shape.references` lists them;
  * `Shape.mapReferences` changes each by a function of its number.
-/
import GoDecls.Model.Basic

namespace GoDecls.Model

mutual

/-- The references in the shape, in order. -/
def Shape.references : Shape → List Reference
  | .native _ => []
  | .reference r => [r]
  | .struct fields => Field.referencesOf fields
  | .interface methods _ => Field.referencesOf methods
  | .map key value => key.references ++ value.references
  | .array _ _ elem => elem.references
  | .pointer elem => elem.references
  | .channel _ elem => elem.references
  | .function typeParams params results =>
    Field.referencesOf typeParams ++ Field.referencesOf params ++ Field.referencesOf results

/-- The references in the type of the field. -/
def Field.references : Field → List Reference
  | ⟨_, _, type, _⟩ => type.references

/-- The references in the types of the fields. -/
def Field.referencesOf : List Field → List Reference
  | [] => []
  | f :: fs => f.references ++ Field.referencesOf fs

end

mutual

/-- The shape with every reference changed by `f`, which is told the number of
    the reference; counting begins at `i`. -/
def Shape.mapReferences (f : Nat → Reference → Reference) (i : Nat) : Shape → Shape
  | .native name => .native name
  | .reference r => .reference (f i r)
  | .struct fields => .struct (Field.mapReferencesOf f i fields)
  | .interface methods incomplete => .interface (Field.mapReferencesOf f i methods) incomplete
  | .map key value =>
    .map (key.mapReferences f i) (value.mapReferences f (i + key.references.length))
  | .array size count elem => .array size count (elem.mapReferences f i)
  | .pointer elem => .pointer (elem.mapReferences f i)
  | .channel dir elem => .channel dir (elem.mapReferences f i)
  | .function typeParams params results =>
    let j := i + (Field.referencesOf typeParams).length
    let k := j + (Field.referencesOf params).length
    .function (Field.mapReferencesOf f i typeParams) (Field.mapReferencesOf f j params)
      (Field.mapReferencesOf f k results)

/-- The field with the references in its type changed. -/
def Field.mapReferences (f : Nat → Reference → Reference) (i : Nat) : Field → Field
  | ⟨names, implicitName, type, tags⟩ => ⟨names, implicitName, type.mapReferences f i, tags⟩

/-- The fields with the references in their types changed. -/
def Field.mapReferencesOf (f : Nat → Reference → Reference) (i : Nat) : List Field → List Field
  | [] => []
  | x :: xs => x.mapReferences f i :: Field.mapReferencesOf f (i + x.references.length) xs

end

mutual

/-- The references of the changed shape are the changed references. -/
theorem Shape.references_mapReferences (f : Nat → Reference → Reference) (i : Nat) :
    (s : Shape) → (s.mapReferences f i).references = s.references.mapIdx fun k => f (i + k)
  | .native _ => by simp [Shape.mapReferences, Shape.references]
  | .reference _ => by simp [Shape.mapReferences, Shape.references]
  | .struct fields => by
    simp [Shape.mapReferences, Shape.references, Field.referencesOf_mapReferencesOf f i fields]
  | .interface methods _ => by
    simp [Shape.mapReferences, Shape.references, Field.referencesOf_mapReferencesOf f i methods]
  | .map key value => by
    simp [Shape.mapReferences, Shape.references, Shape.references_mapReferences f i key,
      Shape.references_mapReferences f _ value, List.mapIdx_append, Nat.add_left_comm,
      Nat.add_comm]
  | .array _ _ elem => by
    simp [Shape.mapReferences, Shape.references, Shape.references_mapReferences f i elem]
  | .pointer elem => by
    simp [Shape.mapReferences, Shape.references, Shape.references_mapReferences f i elem]
  | .channel _ elem => by
    simp [Shape.mapReferences, Shape.references, Shape.references_mapReferences f i elem]
  | .function typeParams params results => by
    simp [Shape.mapReferences, Shape.references, Field.referencesOf_mapReferencesOf f _ typeParams,
      Field.referencesOf_mapReferencesOf f _ params, Field.referencesOf_mapReferencesOf f _ results,
      List.mapIdx_append, Nat.add_assoc, Nat.add_left_comm, Nat.add_comm]

theorem Field.references_mapReferences (f : Nat → Reference → Reference) (i : Nat) :
    (x : Field) → (x.mapReferences f i).references = x.references.mapIdx fun k => f (i + k)
  | ⟨_, _, type, _⟩ => by
    simp [Field.mapReferences, Field.references, Shape.references_mapReferences f i type]

theorem Field.referencesOf_mapReferencesOf (f : Nat → Reference → Reference) (i : Nat) :
    (xs : List Field) → Field.referencesOf (Field.mapReferencesOf f i xs) =
      (Field.referencesOf xs).mapIdx fun k => f (i + k)
  | [] => by simp [Field.mapReferencesOf, Field.referencesOf]
  | x :: xs => by
    simp [Field.mapReferencesOf, Field.referencesOf, Field.references_mapReferences f i x,
      Field.referencesOf_mapReferencesOf f _ xs, List.mapIdx_append, Nat.add_left_comm,
      Nat.add_comm]

end

namespace Declaration

/-- The references in the type of the declaration. -/
def references (d : Declaration) : List Reference := d.type.references

/-- The declaration with the references in its type changed. -/
def mapReferences (f : Nat → Reference → Reference) (d : Declaration) : Declaration :=
  { d with type := d.type.mapReferences f 0 }

end Declaration

end GoDecls.Model
