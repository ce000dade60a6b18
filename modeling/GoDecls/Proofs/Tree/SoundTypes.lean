/-
  Types that are read from a text are sound, and the lists of parameters and results in
  them are as the reader of these lists ensures (`type_ensures`).

  There is one lemma for each reader of the grammar of types.  They call each other
  as the readers do, on the same cursors, and so they end for the same reason.
-/
import GoDecls.Proofs.Tree.Sound

namespace GoDecls.Tree.Cursor

open Outcome

variable {text : List Char} {ts : List Lexeme} {L : FieldList → Prop}

/-- Every list that is read from the tokens has the property. -/
def ListsEnsured (ts : List Lexeme) (L : FieldList → Prop) : Prop :=
  ∀ c : Cursor, c.rest <:+ ts → ∀ l d m, c.fieldList = .ok l d m → L l

mutual

theorem type_ensures (hts : Grounded text ts) (hL : ListsEnsured ts L) (c : Cursor)
    (hc : c.rest <:+ ts) :
    c.type.Ensures ts (·.SoundWith text L) := by
  have hc' := suffix_advance hc
  rw [type]
  split
  · exact namedType_ensures hts hL c hc
  · exact (arrayType_ensures hts hL c.advance hc' _).lift
  · refine ((expect_ensures hc' _ _).bind fun _ d _ _ hd =>
      structFields_ensures hts hL d hd).lift.map fun fields _ hfields => .plain trivial rfl ?_
    exact List.forall_mem_map.2 hfields
  · refine ((expect_ensures hc' _ _).bind fun _ d _ _ hd =>
      interfaceElems_ensures hts hL d hd).lift.map fun elems _ helems => ?_
    exact .intro ⟨trivial, List.forall_mem_flatMap.2 fun e he => (helems e he).2⟩
      (List.forall_mem_flatMap.2 fun e he => (helems e he).1)
  · exact (type_ensures hts hL c.advance hc').lift.map fun _ _ helem =>
      .plain trivial rfl (List.forall_mem_singleton.2 helem)
  · refine Ensures.lift <| (expect_ensures hc' _ _).bind fun _ d _ _ hd => ?_
    refine (type_ensures hts hL d hd).bind fun key e _ hkey he => ?_
    refine (expect_ensures he _ _).bind fun _ f _ _ hf => ?_
    exact (type_ensures hts hL f hf).map fun _ _ hvalue =>
      .plain trivial rfl (List.forall_mem_cons.2 ⟨hkey, List.forall_mem_singleton.2 hvalue⟩)
  · split
    · exact (type_ensures hts hL c.advance.advance (suffix_advance hc')).lift.map fun _ _ helem =>
        .plain trivial rfl (List.forall_mem_singleton.2 helem)
    · exact (type_ensures hts hL c.advance hc').lift.map fun _ _ helem =>
        .plain trivial rfl (List.forall_mem_singleton.2 helem)
  · refine Ensures.lift <| (expect_ensures hc' _ _).bind fun _ d _ _ hd => ?_
    exact (type_ensures hts hL d hd).map fun _ _ helem =>
      .plain trivial rfl (List.forall_mem_singleton.2 helem)
  · exact (signature_ensures hts hL c.advance hc' _).lift.map fun _ _ hsig =>
      .intro ⟨trivial, hsig.2⟩ hsig.1
  · refine Ensures.lift <| (type_ensures hts hL c.advance hc').bind fun inner d _ hinner hd => ?_
    exact (expect_ensures hd _ _).map fun _ _ _ =>
      .plain trivial rfl (List.forall_mem_singleton.2 hinner)
  · exact fails_ensures _
termination_by 6 * c.left + 1
decreasing_by
  all_goals first | omega | (have h := left_pos ‹_›; simp only [left_advance] at *; omega)

theorem namedType_ensures (hts : Grounded text ts) (hL : ListsEnsured ts L) (c : Cursor)
    (hc : c.rest <:+ ts) :
    c.namedType.Ensures ts (·.SoundWith text L) := by
  rw [namedType]
  refine (qualified_ensures hts hc).andThen fun name d m hname hd => ?_
  split
  · exact (typeArgs_ensures hts hL d.advance (suffix_advance hd)).lift.after.map fun _ _ hargs =>
      .plain hname rfl hargs
  · exact .ok (.plain hname rfl (List.forall_mem_nil _)) hd
termination_by 6 * c.left + 0
decreasing_by rw [left_advance]; omega

theorem typeArgs_ensures (hts : Grounded text ts) (hL : ListsEnsured ts L) (c : Cursor)
    (hc : c.rest <:+ ts) :
    c.typeArgs.Ensures ts fun args => ∀ T ∈ args, T.SoundWith text L :=
  typeArgs_loop.ensures c hc fun d _ hd => type_ensures hts hL d hd
termination_by 6 * c.left + 2
decreasing_by omega

theorem arrayType_ensures (hts : Grounded text ts) (hL : ListsEnsured ts L) (c : Cursor)
    (hc : c.rest <:+ ts) (start : Nat) :
    (c.arrayType start).Ensures ts (·.SoundWith text L) := by
  rw [arrayType]
  split
  · exact (type_ensures hts hL c.advance (suffix_advance hc)).lift.map fun _ _ helem =>
      .plain trivial rfl (List.forall_mem_singleton.2 helem)
  · split
    · next h =>
      have ht := h.1
      exact (arrayElem_ensures hts hL c.advance (suffix_advance hc) start (.ellipsis _) trivial).lift
    · exact (arrayLength_ensures hts hc).bind fun length d _ hlength hd =>
        arrayElem_ensures hts hL d hd start length hlength
termination_by 6 * c.left + 1
decreasing_by all_goals first | omega | (have h := left_pos ‹_›; rw [left_advance]; omega)

theorem arrayElem_ensures (hts : Grounded text ts) (hL : ListsEnsured ts L) (c : Cursor)
    (hc : c.rest <:+ ts) (start : Nat)
    (length : ArrayLength) (hlength : length.Readable text) :
    (c.arrayElem start length).Ensures ts (·.SoundWith text L) := by
  rw [arrayElem]
  refine (expect_ensures hc _ _).bind fun _ d _ _ hd => ?_
  exact (type_ensures hts hL d hd).map fun _ _ helem =>
    .plain hlength rfl (List.forall_mem_singleton.2 helem)
termination_by 6 * c.left + 0
decreasing_by omega

theorem structFields_ensures (hts : Grounded text ts) (hL : ListsEnsured ts L) (c : Cursor)
    (hc : c.rest <:+ ts) :
    c.structFields.Ensures ts fun fs => ∀ f ∈ fs, f.type.SoundWith text L :=
  structFields_loop.ensures c hc fun d _ hd => field_ensures hts hL d hd
termination_by 6 * c.left + 3
decreasing_by omega

theorem field_ensures (hts : Grounded text ts) (hL : ListsEnsured ts L) (c : Cursor)
    (hc : c.rest <:+ ts) :
    c.field.Ensures ts fun f => f.type.SoundWith text L := by
  rw [field]
  split
  · exact fails_ensures _
  · exact (type_ensures hts hL c hc).andThen fun _ d _ htype hd => .ok htype (suffix_tag? hd)
  · refine (names_ensures hts hc _).bind fun _ d _ _ hd => ?_
    exact (type_ensures hts hL d hd).andThen fun _ e _ htype he => .ok htype (suffix_tag? he)
termination_by 6 * c.left + 2
decreasing_by all_goals omega

theorem interfaceElems_ensures (hts : Grounded text ts) (hL : ListsEnsured ts L) (c : Cursor)
    (hc : c.rest <:+ ts) :
    c.interfaceElems.Ensures ts fun es =>
      ∀ e ∈ es, (∀ T ∈ e.types, T.SoundWith text L) ∧ ∀ l ∈ e.lists, L l :=
  interfaceElems_loop.ensures c hc fun d _ hd => interfaceElem_ensures hts hL d hd
termination_by 6 * c.left + 5
decreasing_by omega

theorem interfaceElem_ensures (hts : Grounded text ts) (hL : ListsEnsured ts L) (c : Cursor)
    (hc : c.rest <:+ ts) :
    c.interfaceElem.Ensures ts fun e =>
      (∀ T ∈ e.types, T.SoundWith text L) ∧ ∀ l ∈ e.lists, L l := by
  rw [interfaceElem]
  split
  · refine (ident_ensures hts hc _).bind fun _ d _ _ hd => ?_
    exact (signature_ensures hts hL d hd _).map fun _ _ hsig => hsig
  · exact (union_ensures hts hL c hc).map fun _ _ hterms =>
      ⟨List.forall_mem_map.2 hterms, List.forall_mem_nil _⟩
termination_by 6 * c.left + 4
decreasing_by all_goals omega

theorem union_ensures (hts : Grounded text ts) (hL : ListsEnsured ts L) (c : Cursor)
    (hc : c.rest <:+ ts) :
    c.union.Ensures ts fun terms => ∀ t ∈ terms, t.type.SoundWith text L := by
  rw [union]
  refine (term_ensures hts hL c hc).andThen fun term d m hterm hd => ?_
  split
  · exact (union_ensures hts hL d.advance (suffix_advance hd)).lift.after.map fun _ _ hmore =>
      List.forall_mem_cons.2 ⟨hterm, hmore⟩
  · exact .ok (List.forall_mem_singleton.2 hterm) hd
termination_by 6 * c.left + 3
decreasing_by all_goals first | omega | (rw [left_advance]; omega)

theorem term_ensures (hts : Grounded text ts) (hL : ListsEnsured ts L) (c : Cursor)
    (hc : c.rest <:+ ts) :
    c.term.Ensures ts fun t => t.type.SoundWith text L := by
  rw [term]
  split
  · exact (type_ensures hts hL c.advance (suffix_advance hc)).lift.map fun _ _ htype => htype
  · exact (type_ensures hts hL c hc).map fun _ _ htype => htype
termination_by 6 * c.left + 2
decreasing_by all_goals first | omega | (have h := left_pos ‹_›; rw [left_advance]; omega)

theorem signature_ensures (hts : Grounded text ts) (hL : ListsEnsured ts L) (c : Cursor)
    (hc : c.rest <:+ ts) (start : Nat) : (c.signature start).Ensures ts fun s =>
      (∀ T ∈ s.types, T.SoundWith text L) ∧ ∀ l ∈ s.lists, L l := by
  rw [signature]
  refine ((fieldList_ensures hts hL c hc).and (hL c hc)).andThen fun params d m hparams hd => ?_
  obtain ⟨htypes, hlist⟩ := hparams
  split
  · exact ((fieldList_ensures hts hL d hd).and (hL d hd)).after.map fun _ _ hresults =>
      ⟨List.forall_mem_append.2 ⟨htypes, hresults.1⟩,
        List.forall_mem_cons.2 ⟨hlist, List.forall_mem_singleton.2 hresults.2⟩⟩
  · split
    · exact (type_ensures hts hL d hd).after.map fun _ _ hresult =>
        ⟨List.forall_mem_append.2 ⟨htypes, List.forall_mem_singleton.2 hresult⟩,
          List.forall_mem_singleton.2 hlist⟩
    · exact .ok ⟨List.forall_mem_append.2 ⟨htypes, List.forall_mem_nil _⟩,
        List.forall_mem_singleton.2 hlist⟩ hd
termination_by 6 * c.left + 1
decreasing_by all_goals omega

theorem fieldList_ensures (hts : Grounded text ts) (hL : ListsEnsured ts L) (c : Cursor)
    (hc : c.rest <:+ ts) : c.fieldList.Ensures ts fun l => ∀ T ∈ l.types, T.SoundWith text L := by
  rw [fieldList]
  refine (expect_ensures hc _ _).bind fun lparen d _ _ hd => ?_
  refine (params_ensures hts hL d hd).andThen fun ps e _ hps he => ?_
  split
  · next fields hfields => exact .ok (List.forall_mem_map.2 (Param.forall_toFields hps hfields)) he
  · exact .error
termination_by 6 * c.left + 0
decreasing_by omega

theorem params_ensures (hts : Grounded text ts) (hL : ListsEnsured ts L) (c : Cursor)
    (hc : c.rest <:+ ts) :
    c.params.Ensures ts fun ps => ∀ p ∈ ps.1, p.toAnonymous.type.SoundWith text L :=
  params_loop.ensures c hc fun d _ hd => param_ensures hts hL d hd
termination_by 6 * c.left + 4
decreasing_by omega

theorem param_ensures (hts : Grounded text ts) (hL : ListsEnsured ts L) (c : Cursor)
    (hc : c.rest <:+ ts) :
    c.param.Ensures ts (·.toAnonymous.type.SoundWith text L) := by
  rw [param]
  split
  · exact (ident_ensures hts hc _).map fun _ _ hname =>
      .plain ⟨nofun, hname⟩ rfl (List.forall_mem_nil _)
  · split
    · refine (ident_ensures hts hc _).bind fun _ d _ _ hd => ?_
      exact (paramType_ensures hts hL d hd).map fun _ _ htype => htype
    · exact (paramType_ensures hts hL c hc).map fun _ _ htype => htype
termination_by 6 * c.left + 3
decreasing_by all_goals omega

theorem paramType_ensures (hts : Grounded text ts) (hL : ListsEnsured ts L) (c : Cursor)
    (hc : c.rest <:+ ts) :
    c.paramType.Ensures ts fun p => p.2.SoundWith text L := by
  rw [paramType]
  split
  · exact (type_ensures hts hL c.advance (suffix_advance hc)).lift.map fun _ _ htype => htype
  · exact (type_ensures hts hL c hc).map fun _ _ htype => htype
termination_by 6 * c.left + 2
decreasing_by all_goals first | omega | (have h := left_pos ‹_›; rw [left_advance]; omega)

end

end GoDecls.Tree.Cursor
