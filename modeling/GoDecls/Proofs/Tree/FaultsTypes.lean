/-
  A diagnostic of the readers of types stands at a place they have passed
  (`type_traced`).

  There is one lemma for each reader of the grammar of types.  They call each other as
  the readers do, on the same cursors, and so they end for the same reason.
-/
import GoDecls.Proofs.Tree.Faults

namespace GoDecls.Tree.Cursor

open Outcome

mutual

theorem type_traced (c : Cursor) : c.type.Traced := by
  have hc := c.reaches_advance
  rw [type]
  split
  · exact namedType_traced c
  · exact (arrayType_traced c.advance _).lift hc
  · exact Traced.map (((expect_points _ _).bind fun _ d _ _ _ => structFields_traced d).lift hc)
  · exact Traced.map (((expect_points _ _).bind fun _ d _ _ _ => interfaceElems_traced d).lift hc)
  · exact Traced.map ((type_traced c.advance).lift hc)
  · refine Points.lift (Points.bind (expect_points _ _) fun _ d _ _ _ => ?_) hc
    refine (type_traced d).bind fun key e _ _ _ => ?_
    refine (expect_points _ _).bind fun _ f _ _ _ => ?_
    exact (type_traced f).map
  · split
    · exact Traced.map ((type_traced c.advance.advance).lift (hc.trans c.advance.reaches_advance))
    · exact Traced.map ((type_traced c.advance).lift hc)
  · refine Points.lift (Points.bind (expect_points _ _) fun _ d _ _ _ => ?_) hc
    exact (type_traced d).map
  · exact Traced.map ((signature_traced c.advance _).lift hc)
  · refine Points.lift (Points.bind (type_traced c.advance) fun inner d _ _ _ => ?_) hc
    exact Traced.map (expect_points _ _)
  · exact fails_points _
termination_by 6 * c.left + 1
decreasing_by
  all_goals first | omega | (have h := left_pos ‹_›; simp only [left_advance] at *; omega)

theorem namedType_traced (c : Cursor) : c.namedType.Traced := by
  rw [namedType]
  refine Points.andThen qualified_traced fun name d m hd _ => ?_
  split
  · exact Traced.map (((typeArgs_traced d.advance).lift d.reaches_advance).after hd)
  · exact .ok hd trivial
termination_by 6 * c.left + 0
decreasing_by rw [left_advance]; omega

theorem typeArgs_traced (c : Cursor) : c.typeArgs.Traced :=
  typeArgs_loop.traced c fun d _ => type_traced d
termination_by 6 * c.left + 2
decreasing_by omega

theorem arrayType_traced (c : Cursor) (start : Nat) : (c.arrayType start).Traced := by
  rw [arrayType]
  split
  · exact Traced.map ((type_traced c.advance).lift c.reaches_advance)
  · split
    · next h =>
      have ht := h.1
      exact (arrayElem_traced c.advance start _).lift c.reaches_advance
    · exact Points.bind arrayLength_traced fun length d _ _ _ => arrayElem_traced d start length
termination_by 6 * c.left + 1
decreasing_by all_goals first | omega | (have h := left_pos ‹_›; rw [left_advance]; omega)

theorem arrayElem_traced (c : Cursor) (start : Nat) (length : ArrayLength) :
    (c.arrayElem start length).Traced := by
  rw [arrayElem]
  exact (expect_points _ _).bind fun _ d _ _ _ => (type_traced d).map
termination_by 6 * c.left + 0
decreasing_by omega

theorem structFields_traced (c : Cursor) : c.structFields.Traced :=
  structFields_loop.traced c fun d _ => field_traced d
termination_by 6 * c.left + 3
decreasing_by omega

theorem field_traced (c : Cursor) : c.field.Traced := by
  rw [field]
  split
  · exact fails_points _
  · exact (type_traced c).andThen fun _ d _ hd _ => .ok (hd.trans d.reaches_tag?) trivial
  · refine Points.bind (names_traced c _) fun _ d _ _ _ => ?_
    exact (type_traced d).andThen fun _ e _ he _ => .ok (he.trans e.reaches_tag?) trivial
termination_by 6 * c.left + 2
decreasing_by all_goals omega

theorem interfaceElems_traced (c : Cursor) : c.interfaceElems.Traced :=
  interfaceElems_loop.traced c fun d _ => interfaceElem_traced d
termination_by 6 * c.left + 5
decreasing_by omega

theorem interfaceElem_traced (c : Cursor) : c.interfaceElem.Traced := by
  rw [interfaceElem]
  split
  · exact (ident_points _).bind fun _ d _ _ _ => (signature_traced d _).map
  · exact (union_traced c).map
termination_by 6 * c.left + 4
decreasing_by all_goals omega

theorem union_traced (c : Cursor) : c.union.Traced := by
  rw [union]
  refine (term_traced c).andThen fun term d m hd _ => ?_
  split
  · exact Traced.map (((union_traced d.advance).lift d.reaches_advance).after hd)
  · exact .ok hd trivial
termination_by 6 * c.left + 3
decreasing_by all_goals first | omega | (rw [left_advance]; omega)

theorem term_traced (c : Cursor) : c.term.Traced := by
  rw [term]
  split
  · exact Traced.map ((type_traced c.advance).lift c.reaches_advance)
  · exact (type_traced c).map
termination_by 6 * c.left + 2
decreasing_by all_goals first | omega | (have h := left_pos ‹_›; rw [left_advance]; omega)

theorem signature_traced (c : Cursor) (start : Nat) : (c.signature start).Traced := by
  rw [signature]
  refine (fieldList_traced c).andThen fun params d m hd _ => ?_
  split
  · exact Traced.map ((fieldList_traced d).after hd)
  · split
    · exact Traced.map ((type_traced d).after hd)
    · exact .ok hd trivial
termination_by 6 * c.left + 1
decreasing_by all_goals omega

/-- A list that mixes names and types is refused at one of its names. -/
theorem fieldList_traced (c : Cursor) : c.fieldList.Traced := by
  rw [fieldList]
  refine (expect_points _ _).bind fun lparen d _ _ _ => ?_
  refine (params_points d).andThen fun ps e m he hps => ?_
  split
  · exact .ok he trivial
  · next fault hfault =>
    obtain ⟨hmem, hsyntactic⟩ := Param.mem_of_toFields_error hfault
    exact ⟨he, hps _ hmem, hsyntactic⟩
termination_by 6 * c.left + 0
decreasing_by omega

theorem params_points (c : Cursor) :
    c.params.Points fun ps e => ∀ s ∈ Param.bareSpans ps.1, c.Passes e s := by
  rw [params]
  split
  · exact .ok c.reaches_advance (List.forall_mem_nil _)
  · refine (param_points c).bind fun p d _ hd hp => ?_
    split
    · refine ((params_points d.advance).lift d.reaches_advance).map fun ps e he hps => ?_
      rw [Param.bareSpans_cons, List.forall_mem_append]
      exact ⟨fun s hs => (hp s hs).behind he,
        fun s hs => (hps s hs).before (hd.trans d.reaches_advance)⟩
    · exact (expect_points _ _).map fun _ e he _ s hs => (hp s hs).behind he
termination_by 6 * c.left + 4
decreasing_by all_goals first | omega | (rw [left_advance]; omega)

theorem param_points (c : Cursor) :
    c.param.Points fun p e => ∀ s ∈ Param.bareSpans [p], c.Passes e s := by
  rw [param]
  split
  · exact (ident_points _).map fun name e _ hname => List.forall_mem_singleton.2 hname
  · split
    · refine (ident_points _).bind fun _ d _ _ _ => ?_
      exact Points.map (paramType_traced d) fun _ _ _ _ => List.forall_mem_nil _
    · exact Points.map (paramType_traced c) fun _ _ _ _ => List.forall_mem_nil _
termination_by 6 * c.left + 3
decreasing_by all_goals omega

theorem paramType_traced (c : Cursor) : c.paramType.Traced := by
  rw [paramType]
  split
  · exact Traced.map ((type_traced c.advance).lift c.reaches_advance)
  · exact (type_traced c).map
termination_by 6 * c.left + 2
decreasing_by all_goals first | omega | (have h := left_pos ‹_›; rw [left_advance]; omega)

end

end GoDecls.Tree.Cursor
