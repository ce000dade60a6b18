/-
  Changing references where they stand: only the changes of references that are
  there count (`mapReferences_congr`), and two changes in a row are one
  (`mapReferences_mapReferences`).
-/
import GoDecls.Model.References

namespace GoDecls.Model

variable {f g : Nat → Reference → Reference}

/-- The functions agree on references that are numbered from `i`. -/
def AgreeOn (f g : Nat → Reference → Reference) (i : Nat) (rs : List Reference) : Prop :=
  ∀ k r, rs[k]? = some r → f (i + k) r = g (i + k) r

theorem AgreeOn.append {i : Nat} {rs ss : List Reference} (h : AgreeOn f g i (rs ++ ss)) :
    AgreeOn f g i rs ∧ AgreeOn f g (i + rs.length) ss := by
  constructor
  · intro k r hk
    have hlt := (List.getElem?_eq_some_iff.1 hk).1
    exact h k r (by rw [List.getElem?_append_left hlt, hk])
  · intro k r hk
    rw [Nat.add_assoc]
    exact h (rs.length + k) r (by rw [List.getElem?_append_right (Nat.le_add_right _ _),
      Nat.add_sub_cancel_left, hk])

mutual

/-- Functions that agree on the references of a shape change it alike. -/
theorem Shape.mapReferences_congr : ∀ (s : Shape) {i : Nat}, AgreeOn f g i s.references →
    s.mapReferences f i = s.mapReferences g i
  | .native _, _, _ => rfl
  | .reference r, i, h => congrArg Shape.reference (h 0 r rfl)
  | .struct fields, _, h => congrArg Shape.struct (Field.mapReferencesOf_congr fields h)
  | .interface methods _, _, h => by
    rw [Shape.mapReferences, Shape.mapReferences, Field.mapReferencesOf_congr methods h]
  | .map key value, _, h => by
    obtain ⟨hkey, hvalue⟩ := AgreeOn.append h
    rw [Shape.mapReferences, Shape.mapReferences, Shape.mapReferences_congr key hkey,
      Shape.mapReferences_congr value hvalue]
  | .array _ _ elem, _, h => by
    rw [Shape.mapReferences, Shape.mapReferences, Shape.mapReferences_congr elem h]
  | .pointer elem, _, h => congrArg Shape.pointer (Shape.mapReferences_congr elem h)
  | .channel _ elem, _, h => by
    rw [Shape.mapReferences, Shape.mapReferences, Shape.mapReferences_congr elem h]
  | .function typeParams params results, i, h => by
    obtain ⟨h₁₂, hresults⟩ := AgreeOn.append h
    obtain ⟨htypeParams, hparams⟩ := AgreeOn.append h₁₂
    rw [List.length_append, ← Nat.add_assoc] at hresults
    simp only [Shape.mapReferences, Field.mapReferencesOf_congr typeParams htypeParams,
      Field.mapReferencesOf_congr params hparams, Field.mapReferencesOf_congr results hresults]

theorem Field.mapReferences_congr : ∀ (x : Field) {i : Nat}, AgreeOn f g i x.references →
    x.mapReferences f i = x.mapReferences g i
  | ⟨_, _, type, _⟩, _, h => by
    rw [Field.mapReferences, Field.mapReferences, Shape.mapReferences_congr type h]

theorem Field.mapReferencesOf_congr : ∀ (xs : List Field) {i : Nat},
    AgreeOn f g i (Field.referencesOf xs) →
      Field.mapReferencesOf f i xs = Field.mapReferencesOf g i xs
  | [], _, _ => rfl
  | x :: xs, _, h => by
    obtain ⟨hx, hxs⟩ := AgreeOn.append h
    rw [Field.mapReferencesOf, Field.mapReferencesOf, Field.mapReferences_congr x hx,
      Field.mapReferencesOf_congr xs hxs]

end

mutual

/-- Two changes in a row are one. -/
theorem Shape.mapReferences_mapReferences : ∀ (s : Shape) (i : Nat),
    (s.mapReferences g i).mapReferences f i = s.mapReferences (fun k r => f k (g k r)) i
  | .native _, _ => rfl
  | .reference _, _ => rfl
  | .struct fields, i => by
    simp only [Shape.mapReferences, Field.mapReferencesOf_mapReferencesOf fields i]
  | .interface methods _, i => by
    simp only [Shape.mapReferences, Field.mapReferencesOf_mapReferencesOf methods i]
  | .map key value, i => by
    simp only [Shape.mapReferences, Shape.references_mapReferences, List.length_mapIdx,
      Shape.mapReferences_mapReferences key, Shape.mapReferences_mapReferences value]
  | .array _ _ elem, i => by
    simp only [Shape.mapReferences, Shape.mapReferences_mapReferences elem i]
  | .pointer elem, i => by
    simp only [Shape.mapReferences, Shape.mapReferences_mapReferences elem i]
  | .channel _ elem, i => by
    simp only [Shape.mapReferences, Shape.mapReferences_mapReferences elem i]
  | .function typeParams params results, i => by
    simp only [Shape.mapReferences, Field.referencesOf_mapReferencesOf, List.length_mapIdx,
      Field.mapReferencesOf_mapReferencesOf typeParams, Field.mapReferencesOf_mapReferencesOf params,
      Field.mapReferencesOf_mapReferencesOf results]

theorem Field.mapReferences_mapReferences : ∀ (x : Field) (i : Nat),
    (x.mapReferences g i).mapReferences f i = x.mapReferences (fun k r => f k (g k r)) i
  | ⟨_, _, type, _⟩, i => by
    simp only [Field.mapReferences, Shape.mapReferences_mapReferences type i]

theorem Field.mapReferencesOf_mapReferencesOf : ∀ (xs : List Field) (i : Nat),
    Field.mapReferencesOf f i (Field.mapReferencesOf g i xs) =
      Field.mapReferencesOf (fun k r => f k (g k r)) i xs
  | [], _ => rfl
  | x :: xs, i => by
    simp only [Field.mapReferencesOf, Field.references_mapReferences, List.length_mapIdx,
      Field.mapReferences_mapReferences x, Field.mapReferencesOf_mapReferencesOf xs]

end

mutual

/-- To leave every reference as it is leaves the shape as it is. -/
theorem Shape.mapReferences_id : ∀ (s : Shape) (i : Nat), s.mapReferences (fun _ r => r) i = s
  | .native _, _ => rfl
  | .reference _, _ => rfl
  | .struct fields, i => congrArg Shape.struct (Field.mapReferencesOf_id fields i)
  | .interface methods _, i => by
    rw [Shape.mapReferences, Field.mapReferencesOf_id methods i]
  | .map key value, i => by
    rw [Shape.mapReferences, Shape.mapReferences_id key, Shape.mapReferences_id value]
  | .array _ _ elem, i => by rw [Shape.mapReferences, Shape.mapReferences_id elem i]
  | .pointer elem, i => congrArg Shape.pointer (Shape.mapReferences_id elem i)
  | .channel _ elem, i => by rw [Shape.mapReferences, Shape.mapReferences_id elem i]
  | .function typeParams params results, i => by
    simp only [Shape.mapReferences, Field.mapReferencesOf_id typeParams,
      Field.mapReferencesOf_id params, Field.mapReferencesOf_id results]

theorem Field.mapReferences_id : ∀ (x : Field) (i : Nat), x.mapReferences (fun _ r => r) i = x
  | ⟨_, _, type, _⟩, i => by rw [Field.mapReferences, Shape.mapReferences_id type i]

theorem Field.mapReferencesOf_id : ∀ (xs : List Field) (i : Nat),
    Field.mapReferencesOf (fun _ r => r) i xs = xs
  | [], _ => rfl
  | x :: xs, i => by
    rw [Field.mapReferencesOf, Field.mapReferences_id x, Field.mapReferencesOf_id xs]

end

namespace Declaration

theorem references_mapReferences (d : Declaration) :
    (d.mapReferences f).references = d.references.mapIdx f := by
  simp [references, mapReferences, Shape.references_mapReferences]

theorem mapReferences_congr {d : Declaration}
    (h : ∀ k r, d.references[k]? = some r → f k r = g k r) :
    d.mapReferences f = d.mapReferences g := by
  have htype : d.type.mapReferences f 0 = d.type.mapReferences g 0 :=
    d.type.mapReferences_congr fun k r hk => by rw [Nat.zero_add]; exact h k r hk
  rw [mapReferences, mapReferences, htype]

theorem mapReferences_mapReferences (d : Declaration) :
    (d.mapReferences g).mapReferences f = d.mapReferences fun k r => f k (g k r) := by
  simp only [mapReferences, Shape.mapReferences_mapReferences]

theorem mapReferences_id (d : Declaration) : (d.mapReferences fun _ r => r) = d := by
  rw [mapReferences, Shape.mapReferences_id]

end Declaration

end GoDecls.Model
