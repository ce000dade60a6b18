/-
  Of a type that is read, all names of types in it are cited (`Cursor.type_cites`): they
  stand in the tokens in the order in which the tree has them.

  There is one lemma for each reader of the grammar of types.  They call each other
  as the readers do, on the same cursors, and so they end for the same reason.
-/
import GoDecls.Proofs.Tree.Cites

namespace GoDecls.Tree.Cursor

open Outcome
open scoped List

mutual

theorem type_cites (c : Cursor) : c.type.Cites [] TypeExpr.idents := by
  have hc := c.advance_suffix
  rw [type]
  split
  · exact namedType_cites c
  · exact (arrayType_cites c.advance _).lift hc
  · refine (Cites.lift ((expect_cites [] _ _).bind fun _ d _ => structFields_cites d) hc).map
      fun fields _ => ?_
    rw [TypeExpr.idents_of_parts rfl rfl, TypeExpr.parts, List.flatMap_map]
    exact .refl _
  · refine (Cites.lift ((expect_cites [] _ _).bind fun _ d _ => interfaceElems_cites d) hc).map
      fun elems _ => ?_
    rw [TypeExpr.idents_of_parts rfl rfl, TypeExpr.parts, List.flatMap_assoc]
  · refine ((type_cites c.advance).lift hc).map fun elem _ => ?_
    rw [TypeExpr.idents_of_elem rfl rfl]
  · refine Cites.lift ((expect_cites [] _ _).bind fun _ d _ => ?_) hc
    refine (type_cites d).bind fun key e _ => ?_
    refine (expect_cites key.idents _ _).bind fun _ f _ => ?_
    refine ((type_cites f).behind key.idents).map fun value _ => ?_
    rw [TypeExpr.idents_of_parts rfl rfl, TypeExpr.parts, List.flatMap_cons,
      List.flatMap_singleton]
  · split
    · refine ((type_cites c.advance.advance).lift (c.advance.advance_suffix.trans hc)).map
        fun elem _ => ?_
      rw [TypeExpr.idents_of_elem rfl rfl]
    · refine ((type_cites c.advance).lift hc).map fun elem _ => ?_
      rw [TypeExpr.idents_of_elem rfl rfl]
  · refine Cites.lift ((expect_cites [] _ _).bind fun _ d _ => ?_) hc
    refine (type_cites d).map fun elem _ => ?_
    rw [TypeExpr.idents_of_elem rfl rfl]
  · refine ((signature_cites c.advance _).lift hc).map fun sig _ => ?_
    rw [TypeExpr.idents_of_parts rfl rfl]
    exact .refl _
  · refine Cites.lift ((type_cites c.advance).bind fun inner d _ => ?_) hc
    refine (expect_cites inner.idents _ _).map fun _ _ => ?_
    rw [TypeExpr.idents_of_elem rfl rfl]
  · exact fails_cites _
termination_by 6 * c.left + 1
decreasing_by
  all_goals first | omega | (have h := left_pos ‹_›; simp only [left_advance] at *; omega)

theorem namedType_cites (c : Cursor) : c.namedType.Cites [] TypeExpr.idents := by
  rw [namedType]
  refine qualified_cites.andThen fun name d m hd => ?_
  split
  · have hargs := ((typeArgs_cites d.advance).behind (name.1.toList ++ [name.2])).lift
      (k := d.advance_le) d.advance_suffix
    refine (hargs.liftFrom hd).map fun args _ => ?_
    rw [TypeExpr.idents_named]
  · refine .ok ?_
    rw [TypeExpr.idents_named, List.flatMap_nil, List.append_nil]
    exact hd
termination_by 6 * c.left + 0
decreasing_by rw [left_advance]; omega

theorem typeArgs_cites (c : Cursor) : c.typeArgs.Cites [] (·.flatMap TypeExpr.idents) :=
  typeArgs_loop.cites c fun d _ => type_cites d
termination_by 6 * c.left + 2
decreasing_by omega

theorem arrayType_cites (c : Cursor) (start : Nat) :
    (c.arrayType start).Cites [] TypeExpr.idents := by
  rw [arrayType]
  split
  · refine ((type_cites c.advance).lift c.advance_suffix).map fun elem _ => ?_
    rw [TypeExpr.idents_of_elem rfl rfl]
  · split
    · next h =>
      have ht := h.1
      exact (arrayElem_cites c.advance start _).lift c.advance_suffix
    · exact (arrayLength_passes []).bind fun length d _ => arrayElem_cites d start length
termination_by 6 * c.left + 1
decreasing_by all_goals first | omega | (have h := left_pos ‹_›; rw [left_advance]; omega)

theorem arrayElem_cites (c : Cursor) (start : Nat) (length : ArrayLength) :
    (c.arrayElem start length).Cites [] TypeExpr.idents := by
  rw [arrayElem]
  refine (expect_cites [] _ _).bind fun _ d _ => (type_cites d).map fun elem _ => ?_
  rw [TypeExpr.idents_of_elem rfl rfl]
termination_by 6 * c.left + 0
decreasing_by omega

theorem structFields_cites (c : Cursor) : c.structFields.Cites [] fieldIdents :=
  structFields_loop.cites c fun d _ => field_cites d
termination_by 6 * c.left + 3
decreasing_by omega

theorem field_cites (c : Cursor) : c.field.Cites [] (·.type.idents) := by
  rw [field]
  split
  · exact fails_cites _
  · refine (type_cites c).andThen fun type d m hd => .ok (.trans ?_ hd)
    exact (List.Sublist.refl _).append (identsOf_sublist (suffix_tag? (List.suffix_refl _)))
  · refine (names_pass c [] _).bind fun _ d _ => ?_
    refine (type_cites d).andThen fun type e m he => .ok (.trans ?_ he)
    exact (List.Sublist.refl _).append (identsOf_sublist (suffix_tag? (List.suffix_refl _)))
termination_by 6 * c.left + 2
decreasing_by all_goals omega

theorem interfaceElems_cites (c : Cursor) :
    c.interfaceElems.Cites [] (·.flatMap fun e => e.types.flatMap TypeExpr.idents) :=
  interfaceElems_loop.cites c fun d _ => interfaceElem_cites d
termination_by 6 * c.left + 5
decreasing_by omega

theorem interfaceElem_cites (c : Cursor) :
    c.interfaceElem.Cites [] (·.types.flatMap TypeExpr.idents) := by
  rw [interfaceElem]
  split
  · refine (ident_passes [] _).bind fun _ d _ => ?_
    exact (signature_cites d _).map fun _ _ => .refl _
  · refine (union_cites c).map fun terms _ => ?_
    rw [InterfaceElem.types, List.flatMap_map]
termination_by 6 * c.left + 4
decreasing_by all_goals omega

theorem union_cites (c : Cursor) : c.union.Cites [] (·.flatMap fun t => t.type.idents) := by
  rw [union]
  refine (term_cites c).andThen fun term d m hd => ?_
  split
  · have hmore := ((union_cites d.advance).behind term.type.idents).lift
      (k := d.advance_le) d.advance_suffix
    exact (hmore.liftFrom hd).map fun _ _ => .refl _
  · refine .ok ?_
    rw [List.flatMap_singleton]
    exact hd
termination_by 6 * c.left + 3
decreasing_by all_goals first | omega | (rw [left_advance]; omega)

theorem term_cites (c : Cursor) : c.term.Cites [] (·.type.idents) := by
  rw [term]
  split
  · exact ((type_cites c.advance).lift c.advance_suffix).map fun _ _ => .refl _
  · exact (type_cites c).map fun _ _ => .refl _
termination_by 6 * c.left + 2
decreasing_by all_goals first | omega | (have h := left_pos ‹_›; rw [left_advance]; omega)

theorem signature_cites (c : Cursor) (start : Nat) :
    (c.signature start).Cites [] (·.types.flatMap TypeExpr.idents) := by
  rw [signature]
  refine (fieldList_cites c).andThen fun params d m hd => ?_
  split
  · have hresults := (fieldList_cites d).behind (params.types.flatMap TypeExpr.idents)
    refine (hresults.liftFrom hd).map fun results _ => ?_
    rw [Signature.types, List.flatMap_append]
    exact .refl _
  · split
    · have hresult := (type_cites d).behind (params.types.flatMap TypeExpr.idents)
      refine (hresult.liftFrom hd).map fun result _ => ?_
      rw [Signature.types, List.flatMap_append, Results.types, List.flatMap_singleton]
    · refine .ok ?_
      rw [Signature.types, Results.types, List.append_nil]
      exact hd
termination_by 6 * c.left + 1
decreasing_by all_goals omega

theorem fieldList_cites (c : Cursor) : c.fieldList.Cites [] (·.types.flatMap TypeExpr.idents) := by
  rw [fieldList]
  refine (expect_cites [] _ _).bind fun lparen d _ => ?_
  refine (params_cites d).andThen fun ps e m he => ?_
  split
  · next fields hfields =>
    refine .ok (.trans ?_ he)
    rw [FieldList.types, List.flatMap_map]
    exact (Param.idents_toFields hfields).append (.refl _)
  · exact .error
termination_by 6 * c.left + 0
decreasing_by omega

theorem params_cites (c : Cursor) :
    c.params.Cites [] (·.1.flatMap fun p => p.toAnonymous.type.idents) :=
  params_loop.cites c fun d _ => param_cites d
termination_by 6 * c.left + 4
decreasing_by omega

theorem param_cites (c : Cursor) : c.param.Cites [] (·.toAnonymous.type.idents) := by
  rw [param]
  split
  · refine (ident_cites _).map fun name _ => ?_
    rw [Param.toAnonymous, Param.anonymous, TypeExpr.idents_named]
    exact .refl _
  · split
    · refine (ident_passes [] _).bind fun _ d _ => ?_
      exact (paramType_cites d).map fun _ _ => .refl _
    · exact (paramType_cites c).map fun _ _ => .refl _
termination_by 6 * c.left + 3
decreasing_by all_goals omega

theorem paramType_cites (c : Cursor) : c.paramType.Cites [] (·.2.idents) := by
  rw [paramType]
  split
  · exact ((type_cites c.advance).lift c.advance_suffix).map fun _ _ => .refl _
  · exact (type_cites c).map fun _ _ => .refl _
termination_by 6 * c.left + 2
decreasing_by all_goals first | omega | (have h := left_pos ‹_›; rw [left_advance]; omega)

end

end GoDecls.Tree.Cursor
