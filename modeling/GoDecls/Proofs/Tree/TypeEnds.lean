/-
  Where readers stop.

  * `Outcome.Moves`: a value is read from the tokens up to the cursor behind it.  All
    readers of types do so, as they read the same tokens alike;
  * `type_ends`: a type ends with a token behind which a statement may end, a name or a
    closing bracket.  So a line end behind a type is a semicolon, and behind the type in
    parentheses it is one too.
-/
import GoDecls.Proofs.Tree.EchoTypes

namespace GoDecls.Tree

open Cursor

namespace Outcome

variable {σ : Span → Span → Prop} {α β : Type} {c c' d : Cursor} {P : List Token → Prop}
  {r : α → α → Prop} {us : List Token}

/-- The cursor behind a value is behind tokens. -/
def Moves (o : Outcome α c) : Prop := ∀ a d m, o = .ok a d m → ∃ ts, Past ts c d

theorem Echoes.reads {o : Outcome α c} {o' : Outcome α c'} (h : o.Echoes [] P r o') {a : α}
    {m : d.left < c.left} (ho : o = .ok a d m) : ∃ ts, Past ts c d ∧ P ts := by
  obtain ⟨ts, -, -, -, -, -, hts, hp, -⟩ := h a d m ho (Nat.zero_le _)
  exact ⟨ts, hp, hts⟩

theorem Echoes.moves {o : Outcome α c} {o' : Outcome α c'} (h : o.Echoes [] P r o') : o.Moves := by
  intro a d m ho
  obtain ⟨ts, hp, -⟩ := h.reads ho
  exact ⟨ts, hp⟩

/-- The last token that is read for a value may end a statement. -/
def Ending (o : Outcome α c) : Prop :=
  ∀ a d m, o = .ok a d m → ∃ ts t, Past (ts ++ [t]) c d ∧ t.endsStatement = true

namespace Ending

theorem token {a : α} {m : c.advance.left < c.left} {t : Token} (h : c.token? = some t)
    (ht : t.endsStatement = true) : (Outcome.ok a c.advance m : Outcome α c).Ending := by
  rintro _ _ _ ⟨⟩
  exact ⟨[], t, .advance h, ht⟩

theorem error {fault : Diagnostic} {k : d.left ≤ c.left} :
    (Outcome.error fault d k : Outcome α c).Ending := nofun

theorem moves {o : Outcome α c} (h : o.Ending) : o.Moves := fun a d m ho =>
  let ⟨_, _, hp, _⟩ := h a d m ho
  ⟨_, hp⟩

/-- What is read behind some tokens. -/
theorem lift {o : Outcome α d} {k : d.left ≤ c.left} (hp : Past us c d) (h : o.Ending) :
    (o.lift k).Ending := by
  cases o with
  | error fault e k => exact error
  | ok a e m =>
    rintro _ _ _ ⟨⟩
    obtain ⟨ts, t, he, ht⟩ := h a e m rfl
    exact ⟨us ++ ts, t, by rw [List.append_assoc]; exact hp.trans he, ht⟩

theorem advance {o : Outcome α c.advance} {k : c.advance.left ≤ c.left} {t : Token}
    (ht : c.token? = some t) (h : o.Ending) : (o.lift k).Ending := lift (.advance ht) h

theorem andThen {o : Outcome α c} {k : (a : α) → (d : Cursor) → d.left < c.left → Outcome β c}
    (ho : o.Moves)
    (hk : ∀ ts a d m, o = .ok a d m → Past ts c d → (k a d m).Ending) : (o.andThen k).Ending := by
  cases o with
  | error fault e k => exact error
  | ok a d m =>
    obtain ⟨ts, hp⟩ := ho a d m rfl
    exact hk ts a d m rfl hp

theorem bind {o : Outcome α c} {k : (a : α) → (d : Cursor) → d.left < c.left → Outcome β d}
    (ho : o.Moves) (hk : ∀ a d m, (k a d m).Ending) : (o.bind k).Ending :=
  andThen ho fun _ a d m _ hp => lift hp (hk a d m)

theorem map {o : Outcome α c} {k : α → Cursor → β} (h : o.Ending) : (o.map k).Ending := by
  cases o with
  | error fault e k => exact error
  | ok a d m =>
    rintro _ _ _ ⟨⟩
    exact h a d m rfl

end Ending

end Outcome

namespace Cursor

open Outcome

variable {c : Cursor}

/-! ## Readers move -/

theorem expect_moves {t : Token} {what : String} : (c.expect t what).Moves :=
  (expect_echo (.of_tokens (rfl : c.tokens = c.tokens)) t what).moves

theorem names_moves {what : String} : (c.names what).Moves :=
  (names_echo c c (.of_tokens rfl) (.inl rfl) what).moves

theorem qualified_moves : c.qualified.Moves :=
  (qualified_echo (.of_tokens (rfl : c.tokens = c.tokens)) (.inl rfl)).moves

theorem arrayLength_moves : c.arrayLength.Moves :=
  (arrayLength_echo (.of_tokens (rfl : c.tokens = c.tokens)) rfl).moves

theorem type_moves : c.type.Moves :=
  (type_echo (k := False) c c (.of_tokens rfl) (.inl rfl)).moves

theorem field_moves : c.field.Moves :=
  (field_echo (k := False) c c (.of_tokens rfl) rfl).moves

theorem interfaceElem_moves : c.interfaceElem.Moves :=
  (interfaceElem_echo (k := False) c c (.of_tokens rfl) rfl).moves

theorem union_moves : c.union.Moves :=
  (union_echo (k := False) c c (.of_tokens rfl) rfl).moves

theorem term_moves : c.term.Moves :=
  (term_echo (k := False) c c (.of_tokens rfl) rfl).moves

theorem fieldList_moves : c.fieldList.Moves :=
  (fieldList_echo (k := False) c c (.of_tokens rfl)).moves

theorem params_moves : c.params.Moves :=
  (params_echo (k := False) c c (.of_tokens rfl)).moves

theorem param_moves : c.param.Moves :=
  (param_echo (k := False) c c (.of_tokens rfl) rfl).moves

/-! ## Names and lists in brackets -/

theorem expect_ends {t : Token} (ht : t.endsStatement = true) (what : String) :
    (c.expect t what).Ending := by
  unfold expect
  split
  · next h => exact .token h ht
  · exact .error

theorem ident_ends (what : String) : (c.ident what).Ending := by
  unfold ident
  split
  · next h => exact .token h rfl
  · exact .error

theorem qualified_ends : c.qualified.Ending := by
  unfold qualified
  refine .andThen (ident_ends _).moves fun ts name d m hname hp => ?_
  split
  · next h => exact .map (.lift hp (.advance h (ident_ends _)))
  · rintro _ _ _ ⟨⟩
    exact ident_ends _ _ _ _ hname

/-- A list ends with its bracket. -/
theorem ListLoop.ends {α β : Type} {S : ListShape α β} {item : (c : Cursor) → Outcome α c}
    {loop : (c : Cursor) → Outcome β c} (hloop : ListLoop S item loop)
    (hitem : ∀ {c}, (item c).Moves) (c : Cursor) : (loop c).Ending := by
  intro b d m h
  refine hloop.induct (Q := fun e _ d => ∃ ts t, Past (ts ++ [t]) e d ∧ t.endsStatement = true) c h
    (fun ht => ⟨[], _, .advance ht, S.close_endsStatement⟩) (fun ht hmore => ?_)
    fun _ ha hmore => ?_
  · obtain ⟨ts, t, hp, hends⟩ := hmore
    exact ⟨.punct S.sep :: ts, t, (Past.advance ht).trans hp, hends⟩
  · obtain ⟨us, hus⟩ := hitem _ _ _ ha
    obtain ⟨ts, t, hp, hends⟩ := hmore
    exact ⟨us ++ ts, t, by rw [List.append_assoc]; exact hus.trans hp, hends⟩

theorem typeArgs_ends (c : Cursor) : c.typeArgs.Ending := typeArgs_loop.ends type_moves c

theorem structFields_ends (c : Cursor) : c.structFields.Ending :=
  structFields_loop.ends field_moves c

theorem interfaceElems_ends (c : Cursor) : c.interfaceElems.Ending :=
  interfaceElems_loop.ends interfaceElem_moves c

theorem params_ends (c : Cursor) : c.params.Ending := params_loop.ends param_moves c

theorem fieldList_ends (c : Cursor) : c.fieldList.Ending := by
  rw [fieldList]
  refine .bind expect_moves fun _ d _ => .andThen params_moves fun ts ps e m hps _ => ?_
  split
  · rintro _ _ _ ⟨⟩
    exact params_ends d ps e m hps
  · exact .error

/-! ## Types -/

theorem namedType_ends (c : Cursor) : c.namedType.Ending := by
  rw [namedType]
  refine .andThen qualified_moves fun ts name d m hname hp => ?_
  split
  · next h => exact .map (.lift hp (.advance h (typeArgs_ends _)))
  · rintro _ _ _ ⟨⟩
    exact qualified_ends _ _ _ hname

mutual

theorem type_ends (c : Cursor) : c.type.Ending := by
  rw [type]
  split
  · exact namedType_ends c
  · next h =>
    have hlt := advance_lt h
    exact .advance h (arrayType_ends c.advance _)
  · next h => exact .map (.advance h (.bind expect_moves fun _ d _ => structFields_ends d))
  · next h => exact .map (.advance h (.bind expect_moves fun _ d _ => interfaceElems_ends d))
  · next h =>
    have hlt := advance_lt h
    exact .map (.advance h (type_ends c.advance))
  · next h =>
    have hle := c.advance_le
    exact .advance h (.bind expect_moves fun _ d _ => .bind type_moves fun key e _ =>
      .bind expect_moves fun _ f _ => .map (type_ends f))
  · next h =>
    have hlt := advance_lt h
    split
    · next harrow =>
      have hle := c.advance.advance_le
      exact .map (.lift ((Past.advance h).trans (.advance harrow)) (type_ends c.advance.advance))
    · exact .map (.advance h (type_ends c.advance))
  · next h =>
    have hle := c.advance_le
    exact .advance h (.bind expect_moves fun _ d _ => .map (type_ends d))
  · next h =>
    have hlt := advance_lt h
    exact .map (.advance h (signature_ends c.advance _))
  · next h => exact .advance h (.bind type_moves fun _ d _ => .map (expect_ends rfl _))
  · exact .error
termination_by 2 * c.left
decreasing_by all_goals omega

theorem arrayType_ends (c : Cursor) (start : Nat) : (c.arrayType start).Ending := by
  have helem (d : Cursor) (hd : d.left ≤ c.left) (length : ArrayLength) :
      (d.arrayElem start length).Ending := by
    rw [arrayElem]
    exact .bind expect_moves fun _ e _ => .map (type_ends e)
  rw [arrayType]
  split
  · next h =>
    have hle := c.advance_le
    exact .map (.advance h (type_ends c.advance))
  · split
    · next h => exact .advance h.1 (helem c.advance c.advance_le _)
    · exact .bind arrayLength_moves fun length d m => helem d (Nat.le_of_lt m) length
termination_by 2 * c.left + 1
decreasing_by all_goals omega

theorem signature_ends (c : Cursor) (start : Nat) : (c.signature start).Ending := by
  rw [signature]
  refine .andThen fieldList_moves fun ts params d m hparams hp => ?_
  split
  · exact .map (.lift hp (fieldList_ends d))
  · split
    · exact .map (.lift hp (type_ends d))
    · rintro _ _ _ ⟨⟩
      exact fieldList_ends c params d m hparams
termination_by 2 * c.left + 1
decreasing_by omega

end

end Cursor

end GoDecls.Tree
