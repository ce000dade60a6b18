/-
  The outlines of types that are read stand in order between the place where reading
  began and the end of the last token read (`type_spans`).

  There is one lemma for each reader of the grammar of types.  They call each other
  as the readers do, on the same cursors, and so they end for the same reason.  A
  token that the tree does not show is dropped from the row (`Placed.drop`).
-/
import GoDecls.Proofs.Tree.Placed

namespace GoDecls.Tree.Cursor

open Outcome Text

variable {text : List Char}

mutual

theorem type_spans (c : Cursor) (hc : c.Placed text) :
    c.type.Spans text c.start fun t => [t.outline] := by
  rw [type]
  split
  · exact namedType_spans c hc
  · next h =>
    have hopen := hc.token_row h (by simp)
    have harray := arrayType_spans c.advance hc.advance hc.start
      (Nat.le_trans hopen.le hc.advance.last_le_start)
    exact harray.lift
  · next h =>
    have hkeyword := hc.token_row h (by simp)
    refine Leads.map (Q := fun fields e => Row text c.start e.last (fieldOutlines fields)) ?_
      fun fields e he hfields => he.node hc.start hfields
    have hopen := expect_spans hc.advance (.punct .lbrace) (by simp) "'\x7b'"
    refine Leads.lift <| hopen.bind fun _ d _ hd hbrace => ?_
    exact (structFields_spans d hd).imp fun fields e hfields =>
      hc.advance.drop hkeyword (hd.drop hbrace hfields)
  · next h =>
    have hkeyword := hc.token_row h (by simp)
    refine Leads.map (Q := fun elems e => Row text c.start e.last (elemOutlines elems)) ?_
      fun elems e he helems => he.node hc.start helems
    have hopen := expect_spans hc.advance (.punct .lbrace) (by simp) "'\x7b'"
    refine Leads.lift <| hopen.bind fun _ d _ hd hbrace => ?_
    exact (interfaceElems_spans d hd).imp fun elems e helems =>
      hc.advance.drop hkeyword (hd.drop hbrace helems)
  · next h =>
    have hstar := hc.token_row h (by simp)
    exact (type_spans c.advance hc.advance).lift.map fun elem d hd helem =>
      hd.node hc.start (hc.advance.append hstar helem)
  · next h =>
    have hkeyword := hc.token_row h (by simp)
    refine Leads.lift ?_
    refine (expect_spans hc.advance (.punct .lbrack) (by simp) _).bind fun _ d _ hd hopen => ?_
    refine (type_spans d hd).bind fun key e _ he hkey => ?_
    refine (expect_spans he (.punct .rbrack) (by simp) _).bind fun _ f _ hf hclose => ?_
    refine (type_spans f hf).map fun value g hg hvalue => hg.node hc.start ?_
    have hparts := hd.drop hopen (he.append hkey (hf.drop hclose hvalue))
    exact hc.advance.drop hkeyword hparts
  · next h =>
    have hkeyword := hc.token_row h (by simp)
    split
    · next h' =>
      have harrow := hc.advance.token_row h' (by simp)
      refine (type_spans c.advance.advance hc.advance.advance).lift.map fun elem d hd helem => ?_
      exact hd.node hc.start (hc.advance.drop hkeyword (hc.advance.advance.drop harrow helem))
    · exact (type_spans c.advance hc.advance).lift.map fun elem d hd helem =>
        hd.node hc.start (hc.advance.drop hkeyword helem)
  · next h =>
    have harrow := hc.token_row h (by simp)
    refine Leads.lift ?_
    refine (expect_spans hc.advance (.keyword .chan) (by simp) _).bind fun _ d _ hd hkeyword => ?_
    exact (type_spans d hd).map fun elem e he helem =>
      he.node hc.start (hc.advance.drop harrow (hd.drop hkeyword helem))
  · next h =>
    have hkeyword := hc.token_row h (by simp)
    have hsig := signature_spans c.advance hc.advance hc.start (.nil hkeyword.le)
    exact hsig.lift.map fun sig d hd hsig => hd.node hc.start hsig
  · next h =>
    have hopen := hc.token_row h (by simp)
    refine Leads.lift <| (type_spans c.advance hc.advance).bind fun inner d _ hd hinner => ?_
    refine (expect_spans hd (.punct .rparen) (by simp) _).map fun _ e he hclose => he.node hc.start ?_
    exact hc.advance.drop hopen (hd.append hinner (.nil hclose.le))
  · exact fails_leads _
termination_by 6 * c.left + 1
decreasing_by
  all_goals first | omega | (have h := left_pos ‹_›; simp only [left_advance] at *; omega)

theorem namedType_spans (c : Cursor) (hc : c.Placed text) :
    c.namedType.Spans text c.start fun t => [t.outline] := by
  rw [namedType]
  refine (qualified_spans hc).andThen fun name d m hd hname => ?_
  split
  · next h =>
    have hopen := hd.token_row h (by simp)
    refine (typeArgs_spans d.advance hd.advance).lift.after.map fun args e he hargs => ?_
    refine he.node hc.start ?_
    rw [List.append_cons]
    exact hd.append hname (hd.advance.drop hopen hargs)
  · exact .ok hd (hd.node hc.start hname)
termination_by 6 * c.left + 0
decreasing_by rw [left_advance]; omega

theorem typeArgs_spans (c : Cursor) (hc : c.Placed text) :
    c.typeArgs.Spans text c.start typeOutlines :=
  typeArgs_loop.spans (fun _ => .inl rfl) (fun _ _ => rfl) c hc fun d _ hd => type_spans d hd
termination_by 6 * c.left + 2
decreasing_by omega

theorem arrayType_spans (c : Cursor) (hc : c.Placed text) {start : Nat}
    (hstart : IsBoundary text start) (hle : start ≤ c.start) :
    (c.arrayType start).Spans text start fun t => [t.outline] := by
  rw [arrayType]
  split
  · next h =>
    have hclose := hc.token_row h (by simp)
    refine (type_spans c.advance hc.advance).lift.map fun elem d hd helem => ?_
    exact hd.node hstart ((hc.advance.drop hclose helem).mono hle (Nat.le_refl _))
  · split
    · next h =>
      have ht := h.1
      have hellipsis := hc.token_row ht (by simp)
      have hrow := (hellipsis.mono hle hc.advance.last_le_start)
      exact (arrayElem_spans c.advance hc.advance hstart (.ellipsis _) hrow).lift
    · exact (arrayLength_leads hc).bind fun length d _ hd hlength =>
        arrayElem_spans d hd hstart length (hlength.mono hle (Nat.le_refl _))
termination_by 6 * c.left + 1
decreasing_by all_goals first | omega | (have h := left_pos ‹_›; rw [left_advance]; omega)

theorem arrayElem_spans (c : Cursor) (hc : c.Placed text) {start : Nat}
    (hstart : IsBoundary text start) (length : ArrayLength)
    (hlength : Row text start c.start [length.outline]) :
    (c.arrayElem start length).Spans text start fun t => [t.outline] := by
  rw [arrayElem]
  refine (expect_spans hc (.punct .rbrack) (by simp) _).bind fun _ d _ hd hclose => ?_
  refine (type_spans d hd).map fun elem e he helem => he.node hstart ?_
  exact hlength.append (hd.drop hclose helem)
termination_by 6 * c.left + 0
decreasing_by omega

theorem structFields_spans (c : Cursor) (hc : c.Placed text) :
    c.structFields.Spans text c.start fieldOutlines :=
  structFields_loop.spans (fun _ => .inl rfl) (fun _ _ => rfl) c hc fun d _ hd => field_spans d hd
termination_by 6 * c.left + 3
decreasing_by omega

theorem field_spans (c : Cursor) (hc : c.Placed text) :
    c.field.Spans text c.start fun f => [f.outline] := by
  rw [field]
  split
  · exact fails_leads _
  · refine (type_spans c hc).andThen fun type d _ hd htype => ?_
    obtain ⟨htagged, htag⟩ := hd.tag?_row
    exact .ok htagged (htagged.node hc.start (htype.append htag))
  · refine (names_spans hc _).bind fun names d _ hd hnames => ?_
    refine (type_spans d hd).andThen fun type e _ he htype => ?_
    obtain ⟨htagged, htag⟩ := he.tag?_row
    exact .ok htagged (htagged.node hc.start (hd.append hnames (htype.append htag)))
termination_by 6 * c.left + 2
decreasing_by all_goals omega

theorem interfaceElems_spans (c : Cursor) (hc : c.Placed text) :
    c.interfaceElems.Spans text c.start elemOutlines :=
  interfaceElems_loop.spans (fun _ => .inl rfl) (fun _ _ => rfl) c hc fun d _ hd => interfaceElem_spans d hd
termination_by 6 * c.left + 5
decreasing_by omega

theorem interfaceElem_spans (c : Cursor) (hc : c.Placed text) :
    c.interfaceElem.Spans text c.start (·.outlines) := by
  rw [interfaceElem]
  split
  · refine (ident_spans hc _).bind fun name d _ hd hname => ?_
    exact (signature_spans d hd hc.start hname).map fun sig e _ hsig => hsig
  · exact (union_spans c hc).map fun terms d _ hterms => hterms
termination_by 6 * c.left + 4
decreasing_by all_goals omega

theorem union_spans (c : Cursor) (hc : c.Placed text) :
    c.union.Spans text c.start termOutlines := by
  rw [union]
  refine (term_spans c hc).andThen fun term d m hd hterm => ?_
  split
  · next h =>
    have hpipe := hd.token_row h (by simp)
    exact (union_spans d.advance hd.advance).lift.after.map fun terms e _ hterms =>
      hd.append hterm (hd.advance.drop hpipe hterms)
  · exact .ok hd (hterm.append (.nil (Nat.le_refl _)))
termination_by 6 * c.left + 3
decreasing_by all_goals first | omega | (rw [left_advance]; omega)

theorem term_spans (c : Cursor) (hc : c.Placed text) : c.term.Spans text c.start (·.outlines) := by
  rw [term]
  split
  · next h =>
    have htilde := hc.token_row h (by simp)
    exact (type_spans c.advance hc.advance).lift.map fun type d _ htype =>
      hc.advance.append htilde htype
  · exact (type_spans c hc).map fun type d _ htype => htype
termination_by 6 * c.left + 2
decreasing_by all_goals first | omega | (have h := left_pos ‹_›; rw [left_advance]; omega)

theorem signature_spans (c : Cursor) (hc : c.Placed text) {start : Nat}
    (hstart : IsBoundary text start) {before : List Outline}
    (hbefore : Row text start c.last before) :
    (c.signature start).Spans text start fun sig => [sig.outline before] := by
  rw [signature]
  refine (fieldList_spans c hc).andThen fun params d m hd hparams => ?_
  have hfront := hc.append hbefore hparams
  split
  · refine (fieldList_spans d hd).after.map fun results e he hresults => he.node hstart ?_
    rw [← List.append_assoc]
    exact hd.append hfront hresults
  · split
    · refine (type_spans d hd).after.map fun result e he hresult => he.node hstart ?_
      rw [← List.append_assoc]
      exact hd.append hfront hresult
    · refine .ok hd (hd.node hstart ?_)
      rw [← List.append_assoc]
      exact hfront.append (.nil (Nat.le_refl _))
termination_by 6 * c.left + 1
decreasing_by all_goals omega

theorem fieldList_spans (c : Cursor) (hc : c.Placed text) :
    c.fieldList.Spans text c.start (·.outlines) := by
  rw [fieldList]
  refine (expect_spans hc (.punct .lparen) (by simp) _).bind fun lparen d _ hd hopen => ?_
  refine (params_spans d hd).andThen fun ps e m he hps => ?_
  split
  · next fields hfields =>
    obtain ⟨mid, hentries, hclose⟩ := Row.append_iff.1 hps
    exact .ok he (hd.append hopen ((Param.row_toFields hfields hentries).append hclose))
  · exact .error
termination_by 6 * c.left + 0
decreasing_by omega

theorem params_spans (c : Cursor) (hc : c.Placed text) :
    c.params.Spans text c.start fun ps => ps.1.map (·.outline) ++ [.leaf ps.2] :=
  params_loop.spans (fun _ => .inr rfl) (fun _ _ => rfl) c hc fun d _ hd => param_spans d hd
termination_by 6 * c.left + 4
decreasing_by omega

theorem param_spans (c : Cursor) (hc : c.Placed text) :
    c.param.Spans text c.start fun p => [p.outline] := by
  rw [param]
  split
  · exact (ident_spans hc _).map fun name d _ hname => hname
  · split
    · refine (ident_spans hc _).bind fun name d _ hd hname => ?_
      exact (paramType_spans d hd).map fun type e he htype =>
        he.node hc.start (hd.append hname htype)
    · exact (paramType_spans c hc).map fun type d hd htype => hd.node hc.start htype
termination_by 6 * c.left + 3
decreasing_by all_goals omega

theorem paramType_spans (c : Cursor) (hc : c.Placed text) :
    c.paramType.Spans text c.start fun p => markOutlines p.1 ++ [p.2.outline] := by
  rw [paramType]
  split
  · next h =>
    have hellipsis := hc.token_row h (by simp)
    exact (type_spans c.advance hc.advance).lift.map fun type d _ htype =>
      hc.advance.append hellipsis htype
  · exact (type_spans c hc).map fun type d _ htype => htype
termination_by 6 * c.left + 2
decreasing_by all_goals first | omega | (have h := left_pos ‹_›; rw [left_advance]; omega)

end

end GoDecls.Tree.Cursor
