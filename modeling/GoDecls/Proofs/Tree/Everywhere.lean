/-
  Properties of a type and all types below it.

  * `TypeExpr.Everywhere P T`: `T` and the types below it have the property `P`, at
    any depth.  Induction over it has one case, with the property at hand and the
    conclusion for all parts;
  * `TypeExpr.everywhere_of_forall`: what all types have holds everywhere.
-/
import GoDecls.Proofs.Tree.Render

namespace GoDecls.Tree

/-- The type and all types below it have the property. -/
inductive TypeExpr.Everywhere (P : TypeExpr → Prop) : TypeExpr → Prop where
  | intro {T : TypeExpr} (here : P T) (below : ∀ S ∈ T.parts, S.Everywhere P) : T.Everywhere P

theorem TypeExpr.Everywhere.self {P : TypeExpr → Prop} {T : TypeExpr} (h : T.Everywhere P) :
    P T := by
  cases h with
  | intro here _ => exact here

theorem TypeExpr.Everywhere.imp {P Q : TypeExpr → Prop} {T : TypeExpr} (h : T.Everywhere P)
    (hPQ : ∀ S, P S → Q S) : T.Everywhere Q := by
  induction h with
  | intro here _ ih => exact .intro (hPQ _ here) ih

/-- What holds everywhere in a type holds everywhere in the types below it. -/
theorem TypeExpr.Everywhere.everywhere {P : TypeExpr → Prop} {T : TypeExpr}
    (h : T.Everywhere P) : T.Everywhere (·.Everywhere P) := by
  induction h with
  | intro here below ih => exact .intro (.intro here below) ih

/-! ## Parts are smaller -/

variable {S T : TypeExpr}

theorem Field.sizeOf_type_lt (f : Field) : sizeOf f.type < sizeOf f := by
  cases f
  simp only [Field.mk.sizeOf_spec]
  omega

theorem Term.sizeOf_type_lt (t : Term) : sizeOf t.type < sizeOf t := by
  cases t
  simp only [Term.mk.sizeOf_spec]
  omega

theorem sizeOf_lt_of_mem_fields {fields : List Field} (h : S ∈ fields.map (·.type)) :
    sizeOf S < sizeOf fields := by
  obtain ⟨f, hf, rfl⟩ := List.mem_map.1 h
  exact Nat.lt_trans f.sizeOf_type_lt (List.sizeOf_lt_of_mem hf)

theorem FieldList.sizeOf_lt_of_mem {l : FieldList} (h : S ∈ l.types) : sizeOf S < sizeOf l := by
  obtain ⟨_, fields, _⟩ := l
  have : sizeOf S < sizeOf fields := sizeOf_lt_of_mem_fields h
  rw [FieldList.mk.sizeOf_spec]
  omega

theorem Results.sizeOf_lt_of_mem {r : Results} (h : S ∈ r.types) : sizeOf S < sizeOf r := by
  cases r with
  | none => cases h
  | single type =>
    rw [List.mem_singleton.1 h, Results.single.sizeOf_spec]
    omega
  | list fields =>
    have := FieldList.sizeOf_lt_of_mem h
    rw [Results.list.sizeOf_spec]
    omega

theorem Signature.sizeOf_lt_of_mem {s : Signature} (h : S ∈ s.types) : sizeOf S < sizeOf s := by
  obtain ⟨_, params, results⟩ := s
  rw [Signature.mk.sizeOf_spec]
  rcases List.mem_append.1 h with h | h
  · have : sizeOf S < sizeOf params := FieldList.sizeOf_lt_of_mem h
    omega
  · have : sizeOf S < sizeOf results := Results.sizeOf_lt_of_mem h
    omega

theorem InterfaceElem.sizeOf_lt_of_mem {e : InterfaceElem} (h : S ∈ e.types) :
    sizeOf S < sizeOf e := by
  cases e with
  | method name sig =>
    have := Signature.sizeOf_lt_of_mem h
    rw [InterfaceElem.method.sizeOf_spec]
    omega
  | union terms =>
    obtain ⟨t, ht, rfl⟩ := List.mem_map.1 h
    have := t.sizeOf_type_lt
    have := List.sizeOf_lt_of_mem ht
    rw [InterfaceElem.union.sizeOf_spec]
    omega

theorem TypeExpr.sizeOf_lt_of_mem_parts (h : S ∈ T.parts) : sizeOf S < sizeOf T := by
  cases T with
  | named _ _ _ args =>
    have : sizeOf S < sizeOf args := List.sizeOf_lt_of_mem h
    simp only [named.sizeOf_spec]
    omega
  | map _ key value =>
    simp only [map.sizeOf_spec]
    rcases List.mem_cons.1 h with rfl | h
    · omega
    · rw [List.mem_singleton.1 h]
      omega
  | struct _ fields =>
    have := sizeOf_lt_of_mem_fields h
    simp only [struct.sizeOf_spec]
    omega
  | interface _ elems =>
    obtain ⟨e, he, hS⟩ := List.mem_flatMap.1 h
    have := InterfaceElem.sizeOf_lt_of_mem hS
    have := List.sizeOf_lt_of_mem he
    simp only [interface.sizeOf_spec]
    omega
  | func _ sig =>
    have := Signature.sizeOf_lt_of_mem h
    simp only [func.sizeOf_spec]
    omega
  | _ =>
    rw [List.mem_singleton.1 h]
    simp only [pointer.sizeOf_spec, array.sizeOf_spec, slice.sizeOf_spec, chan.sizeOf_spec,
      paren.sizeOf_spec]
    omega

/-- What all types have holds everywhere. -/
theorem TypeExpr.everywhere_of_forall {P : TypeExpr → Prop} (hP : ∀ T, P T) (T : TypeExpr) :
    T.Everywhere P :=
  .intro (hP T) fun S _ => everywhere_of_forall hP S
termination_by sizeOf T
decreasing_by exact sizeOf_lt_of_mem_parts ‹_›

end GoDecls.Tree
