/-
  The readers of types by index do what those of cursors do (`type_follows`).

  There is one lemma for each reader of the grammar of types.  They call each other as
  the readers of cursors do, on the same cursors, and so they end for the same reason.
-/
import GoDecls.Indexed.Types
import GoDecls.Proofs.Indexed.Follows

namespace GoDecls.Indexed

open Tree

variable {α β : Type} {toks : Tokens} {c d e : Cursor}

/-! ## Looking ahead -/

theorem qualified_follows : Follows toks toks.qualified c c.qualified := by
  refine (ident_follows _).andThen fun first d m => ?_
  split
  · next h =>
    refine .takes (takes_eat h) ?_
    exact (((ident_follows _).lift).after).map fun name e => .pure _ _
  · next h => exact .takes (takes_eat_none h) (.pure _)

theorem takes_stringLiteral : Takes toks toks.stringLiteral c c.tag?.1 c.tag?.2 := by
  refine takes_tok.bind ?_
  unfold Cursor.tag?
  cases c.token? with
  | none => exact .pure _ _
  | some t =>
    dsimp only [Option.any_some]
    split
    · exact takes_bump.bind (.pure _ _)
    · exact .pure _ _

theorem atMethod_iff : c.atMethod = true ↔
    ∃ s, c.token? = some (.ident s) ∧ c.second? = some (.punct .lparen) := by
  unfold Cursor.atMethod
  split
  · next s htok hsecond => exact ⟨fun _ => ⟨s, htok, hsecond⟩, fun _ => rfl⟩
  · next h =>
    refine ⟨fun hfalse => (Bool.false_ne_true hfalse).elim, ?_⟩
    rintro ⟨s, htok, hsecond⟩
    exact (h s htok hsecond).elim

theorem takes_embedsField {b : Bool} (h : c.embedsField? = some b) :
    Takes toks toks.embedsField c b c := by
  refine takes_tok.bind ?_
  unfold Cursor.embedsField? at h
  split at h
  case h_1 =>
    simp only [*]
    cases h
    exact .pure _ _
  case h_8 =>
    simp only [*]
    cases h
    refine takes_second.bind ?_
    simp only [*]
    exact takes_bracketThenType.bind (.pure _ _)
  case h_10 => cases h
  all_goals
    simp only [*]
    cases h
    refine takes_second.bind ?_
    simp only [*]
    exact .pure _ _

theorem embedsField_follows {f : Bool → Read α} (h : c.embedsField? = none) :
    Follows toks (toks.embedsField >>= f) c
      (c.fails "field name or embedded type" : Outcome α c) := by
  refine Follows.stop (.takes takes_tok ?_)
  unfold Cursor.embedsField? at h
  split at h
  case h_10 hstar hend _ _ _ _ _ _ hother =>
    split
    · next htok => exact (hstar htok).elim
    · next s htok =>
      cases hsecond : c.second? with
      | none => exact (hend s htok hsecond).elim
      | some t => exact (hother s t htok hsecond).elim
    · exact unexpected_follows _
  all_goals cases h

/-- A name before a type is that of a parameter. -/
theorem paramName_follows {f : Option Ident → Read β} {g : Ident → (d : Cursor) → Outcome β d}
    (h : c.atNamedParam = true)
    (hf : ∀ name d, d.left < c.left → Follows toks (f (some name)) d (g name d)) :
    Follows toks (toks.paramName >>= f) c
      ((c.ident "parameter name").bind fun name d _ => g name d) := by
  have hname : Follows toks (toks.ident "parameter name" >>= fun name => f (some name)) c
      ((c.ident "parameter name").bind fun name d _ => g name d) :=
    (ident_follows _).bind hf
  refine .assoc (.takes takes_tok (.assoc (.takes takes_second ?_)))
  unfold Cursor.atNamedParam at h
  split
  · next htok hsecond =>
    rw [htok, hsecond] at h
    refine .assoc (.takes takes_bracketThenType ?_)
    rw [if_pos h]
    exact .assoc hname
  · next htok hsecond =>
    rw [htok, hsecond] at h
    cases h
  · exact .assoc hname
  · next t hbrack hdot hdots htok hsecond =>
    have hstarts : t.startsType = true := by simpa only [htok, hsecond, hbrack, hdots] using h
    rw [if_pos hstarts]
    exact .assoc hname
  · next hbrack hdot hdots hmore =>
    split at h
    · next htok hsecond => exact (hbrack _ htok hsecond).elim
    · next htok hsecond => exact (hdots _ htok hsecond).elim
    · next htok hsecond => exact (hmore _ _ htok hsecond).elim
    · cases h

theorem takes_paramName_none (h : c.atNamedParam = false) :
    Takes toks toks.paramName c none c := by
  refine takes_tok.bind (takes_second.bind ?_)
  unfold Cursor.atNamedParam at h
  split
  · next htok hsecond =>
    rw [htok, hsecond] at h
    dsimp only at h
    refine takes_bracketThenType.bind ?_
    rw [h]
    exact .pure _ _
  · exact .pure _ _
  · next htok hsecond =>
    rw [htok, hsecond] at h
    cases h
  · next t hbrack hdot hdots htok hsecond =>
    have hstarts : t.startsType = false := by simpa only [htok, hsecond, hbrack, hdots] using h
    rw [hstarts]
    exact .pure _ _
  · exact .pure _ _

theorem fieldListOf_follows (lparen : Span) (ps : List Param × Span) (e : Cursor)
    (m : e.left < c.left) : Follows toks (fieldListOf lparen ps.1 ps.2) e
      (match Param.toFields ps.1 with
        | .ok fields => .ok ⟨lparen, fields, ps.2⟩ e m
        | .error fault => .error fault e (Nat.le_of_lt m) : Outcome FieldList c) := by
  rw [fieldListOf]
  cases Param.toFields ps.1 with
  | ok fields => exact .pure _
  | error fault => exact fun p hp => ⟨p, rfl, hp⟩

/-! ## Loops -/

theorem typeArgRounds_eq : toks.typeArgRounds =
    toks.listRound (.punct .rbrack) toks.type >>= toks.typeArgRounds.next :=
  (Tokens.typeArgRounds.eq_def toks).trans (bind_congr fun r => by cases r <;> rfl)

theorem structRounds_eq : toks.structRounds =
    toks.memberRound (.punct .rbrace) "'\x7d'" "';' or '\x7d'" toks.field >>=
      toks.structRounds.next :=
  (Tokens.structRounds.eq_def toks).trans (bind_congr fun r => by cases r <;> rfl)

theorem interfaceRounds_eq : toks.interfaceRounds =
    toks.memberRound (.punct .rbrace) "'\x7d'" "';' or '\x7d'" toks.interfaceElem >>=
      toks.interfaceRounds.next :=
  (Tokens.interfaceRounds.eq_def toks).trans (bind_congr fun r => by cases r <;> rfl)

theorem paramRounds_eq : toks.paramRounds =
    toks.listRound (.punct .rparen) toks.param >>= toks.paramRounds.next :=
  (Tokens.paramRounds.eq_def toks).trans (bind_congr fun r => by cases r <;> rfl)

/-! ## Types -/

mutual

theorem type_follows (c : Cursor) : Follows toks toks.type c c.type := by
  rw [Tokens.type, Cursor.type]
  refine .takes takes_start ?_
  split
  · next s h => exact .takes (takes_tok_eq h) (namedType_follows c)
  · next h => exact .takes (takes_tok_eq h) (arrayOrSlice_follows c h)
  · next h => exact .takes (takes_tok_eq h) (struct_follows c h)
  · next h => exact .takes (takes_tok_eq h) (interface_follows c h)
  · next h =>
    refine .takes (takes_tok_eq h) (.takes takes_bump ?_)
    exact (type_follows c.advance).lift.map fun elem d => (takes_spanFrom _).bind (.pure _ _)
  · next h =>
    refine .takes (takes_tok_eq h) (.takes takes_bump (Follows.lift ?_))
    refine (expect_follows _ _).bind fun _ d _ => ?_
    refine (type_follows d).bind fun key e _ => ?_
    refine (expect_follows _ _).bind fun _ f _ => ?_
    exact (type_follows f).map fun value g => (takes_spanFrom _).bind (.pure _ _)
  · next h =>
    refine .takes (takes_tok_eq h) (.takes takes_bump ?_)
    split
    · next harrow =>
      refine .takes (takes_eat harrow) ?_
      exact (type_follows c.advance.advance).lift.map fun elem d =>
        (takes_spanFrom _).bind (.pure _ _)
    · next harrow =>
      refine .takes (takes_eat_none harrow) ?_
      exact (type_follows c.advance).lift.map fun elem d => (takes_spanFrom _).bind (.pure _ _)
  · next h =>
    refine .takes (takes_tok_eq h) (.takes takes_bump (Follows.lift ?_))
    refine (expect_follows _ _).bind fun _ d _ => ?_
    exact (type_follows d).map fun elem e => (takes_spanFrom _).bind (.pure _ _)
  · next h =>
    refine .takes (takes_tok_eq h) (.takes takes_bump ?_)
    exact (signature_follows c.advance _).lift.map fun sig d => (takes_spanFrom _).bind (.pure _ _)
  · next h =>
    refine .takes (takes_tok_eq h) (.takes takes_bump (Follows.lift ?_))
    refine (type_follows c.advance).bind fun inner d _ => ?_
    exact (expect_follows _ _).map fun _ e => (takes_spanFrom _).bind (.pure _ _)
  · next h =>
    refine .takes takes_tok ?_
    split
    case h_11 => exact unexpected_follows _
    all_goals simp_all
termination_by 6 * c.left + 1
decreasing_by
  all_goals
    first
      | omega
      | (have h := Cursor.left_pos ‹_›; simp only [Cursor.left_advance] at *; omega)

theorem namedType_follows (c : Cursor) : Follows toks toks.namedType c c.namedType := by
  rw [Tokens.namedType, Cursor.namedType]
  refine .takes takes_start ?_
  refine qualified_follows.andThen fun name d m => ?_
  obtain ⟨pkg, name⟩ := name
  by_cases h : d.token? = some (.punct .lbrack)
  · rw [if_pos h]
    refine .takes (takes_eat h) ?_
    exact (((typeArgs_follows d.advance).lift).after).map fun args e =>
      (takes_spanFrom _).bind (.pure _ _)
  · rw [if_neg h]
    refine .takes (takes_eat_none h) ?_
    exact .takes (.pure [] d) (.takes (takes_spanFrom _) (.pure _))
termination_by 6 * c.left + 0
decreasing_by rw [Cursor.left_advance]; omega

theorem typeArgs_follows (c : Cursor) : Follows toks toks.typeArgs c c.typeArgs := by
  rw [Tokens.typeArgs]
  exact listLoop_follows Cursor.typeArgs_loop rfl rfl typeArgRounds_eq c fun d _ => type_follows d
termination_by 6 * c.left + 2
decreasing_by omega

theorem arrayOrSlice_follows (c : Cursor) (h : c.token? = some (.punct .lbrack)) :
    Follows toks toks.arrayOrSlice c ((c.advance.arrayType c.start).lift c.advance_le) := by
  have hlt := Cursor.advance_lt h
  rw [Tokens.arrayOrSlice, Cursor.arrayType]
  refine .takes takes_start (.takes (takes_expect h _) (Follows.lift ?_))
  split
  · next hclose =>
    refine .takes (takes_eat hclose) ?_
    exact (type_follows c.advance.advance).lift.map fun elem d =>
      (takes_spanFrom _).bind (.pure _ _)
  · next hclose =>
    refine .takes (takes_eat_none hclose) (.takes (takes_isAt _) (.takes takes_second ?_))
    by_cases hdots : c.advance.token? = some (.punct .ellipsis) ∧
        c.advance.second? = some (.punct .rbrack)
    · rw [dif_pos hdots, if_pos ⟨decide_eq_true hdots.1, hdots.2⟩]
      refine .takes takes_bump (.takes (.pure _ _) (Follows.lift ?_))
      exact arrayElem_follows c.advance.advance c.start _
    · rw [dif_neg hdots, if_neg fun h => hdots ⟨of_decide_eq_true h.1, h.2⟩]
      exact arrayLength_follows.bind fun length d _ => arrayElem_follows d c.start length
termination_by 6 * c.left + 0
decreasing_by all_goals (simp only [Cursor.left_advance] at *; omega)

theorem struct_follows (c : Cursor) (h : c.token? = some (.keyword .struct)) :
    Follows toks toks.struct c
      ((((c.advance.expect (.punct .lbrace) "'\x7b'").bind fun _ d _ => d.structFields).lift
        c.advance_le).map fun fields e => .struct (e.spanFrom c.start) fields) := by
  have hlt := Cursor.advance_lt h
  rw [Tokens.struct]
  refine .takes takes_start (.takes (takes_expect h _) ?_)
  have hbody := ((@expect_follows toks _ (.punct .lbrace) "'\x7b'").bind
    fun _ d hd => structFields_follows d).lift (k := c.advance_le)
  have htype := hbody.map (f := fun fields => do
    return TypeExpr.struct (← spanFrom c.start) fields)
    fun fields e => (takes_spanFrom _).bind (.pure _ _)
  simpa only [bind_assoc, pure_bind] using htype
termination_by 6 * c.left + 0
decreasing_by omega

/-- The closing bracket of an array length and the element type. -/
theorem arrayElem_follows (c : Cursor) (start : Nat) (length : ArrayLength) :
    Follows toks (do
      let _ ← toks.expect (.punct .rbrack) "']'"
      let elem ← toks.type
      return TypeExpr.array (← spanFrom start) length elem) c (c.arrayElem start length) := by
  rw [Cursor.arrayElem]
  refine (expect_follows _ _).bind fun _ d _ => ?_
  exact (type_follows d).map fun elem e => (takes_spanFrom _).bind (.pure _ _)
termination_by 6 * c.left + 0
decreasing_by omega

/-- The fields of a struct and the brace behind them. -/
theorem structFields_follows (c : Cursor) : Follows toks (do
      let fields ← toks.structRounds
      let _ ← toks.bump
      return fields) c c.structFields :=
  memberLoop_follows Cursor.structFields_loop rfl rfl structRounds_eq c fun d _ => field_follows d
termination_by 6 * c.left + 3
decreasing_by omega

theorem field_follows (c : Cursor) : Follows toks toks.field c c.field := by
  rw [Tokens.field, Cursor.field]
  refine .takes takes_start ?_
  split
  · next h => exact embedsField_follows h
  · next h =>
    refine .takes (takes_embedsField h) (.takes (.pure [] c) ?_)
    refine (type_follows c).andThen fun type d _ => .takes takes_stringLiteral ?_
    exact .takes (takes_spanFrom _) (.pure _)
  · next h =>
    refine .takes (takes_embedsField h) ?_
    refine (names_follows c _).bind fun names d _ => ?_
    refine (type_follows d).andThen fun type e _ => .takes takes_stringLiteral ?_
    exact .takes (takes_spanFrom _) (.pure _)
termination_by 6 * c.left + 2
decreasing_by all_goals omega

theorem interface_follows (c : Cursor) (h : c.token? = some (.keyword .interface)) :
    Follows toks toks.interface c
      ((((c.advance.expect (.punct .lbrace) "'\x7b'").bind fun _ d _ => d.interfaceElems).lift
        c.advance_le).map fun elems e => .interface (e.spanFrom c.start) elems) := by
  have hlt := Cursor.advance_lt h
  rw [Tokens.interface]
  refine .takes takes_start (.takes (takes_expect h _) ?_)
  have hbody := ((@expect_follows toks _ (.punct .lbrace) "'\x7b'").bind
    fun _ d hd => interfaceElems_follows d).lift (k := c.advance_le)
  have htype := hbody.map (f := fun elems => do
    return TypeExpr.interface (← spanFrom c.start) elems)
    fun elems e => (takes_spanFrom _).bind (.pure _ _)
  simpa only [bind_assoc, pure_bind] using htype
termination_by 6 * c.left + 0
decreasing_by omega

/-- The members of an interface and the brace behind them. -/
theorem interfaceElems_follows (c : Cursor) : Follows toks (do
      let elems ← toks.interfaceRounds
      let _ ← toks.bump
      return elems) c c.interfaceElems :=
  memberLoop_follows Cursor.interfaceElems_loop rfl rfl interfaceRounds_eq c
    fun d _ => interfaceElem_follows d
termination_by 6 * c.left + 5
decreasing_by omega

theorem interfaceElem_follows (c : Cursor) :
    Follows toks toks.interfaceElem c c.interfaceElem := by
  rw [Tokens.interfaceElem, Cursor.interfaceElem]
  by_cases h : c.atMethod = true
  · obtain ⟨s, htok, hsecond⟩ := atMethod_iff.1 h
    rw [if_pos h]
    refine .takes (takes_tok_eq htok) (.takes (takes_second_eq hsecond) ?_)
    refine .takes takes_start ?_
    refine (ident_follows _).bind fun name d _ => ?_
    exact (signature_follows d _).map fun sig e => .pure _ _
  · rw [if_neg h]
    refine .takes takes_tok (.takes takes_second ?_)
    split
    · next htok hsecond => exact (h (atMethod_iff.2 ⟨_, htok, hsecond⟩)).elim
    · exact (union_follows c).map fun terms e => .pure _ _
termination_by 6 * c.left + 4
decreasing_by all_goals omega

theorem union_follows (c : Cursor) : Follows toks toks.union c c.union := by
  rw [Tokens.union, Cursor.union]
  refine (term_follows c).andThen fun term d m => ?_
  split
  · next h =>
    refine .takes (takes_eat h) ?_
    exact ((union_follows d.advance).lift).after.map fun terms e => .pure _ _
  · next h => exact .takes (takes_eat_none h) (.pure _)
termination_by 6 * c.left + 3
decreasing_by all_goals first | omega | (rw [Cursor.left_advance]; omega)

theorem term_follows (c : Cursor) : Follows toks toks.term c c.term := by
  rw [Tokens.term, Cursor.term]
  split
  · next h =>
    refine .takes (takes_eat h) ?_
    exact (type_follows c.advance).lift.map fun type e => .pure _ _
  · next h =>
    refine .takes (takes_eat_none h) ?_
    exact (type_follows c).map fun type e => .pure _ _
termination_by 6 * c.left + 2
decreasing_by
  all_goals first | omega | (have h := Cursor.advance_lt ‹_›; omega)

theorem signature_follows (c : Cursor) (start : Nat) :
    Follows toks (toks.signature start) c (c.signature start) := by
  rw [Tokens.signature, Cursor.signature]
  refine (fieldList_follows c).andThen fun params d m => ?_
  split
  · next h =>
    refine .takes (takes_tok_eq h) ?_
    exact (fieldList_follows d).after.map fun results e => (takes_spanFrom _).bind (.pure _ _)
  · next h =>
    have hnone : Follows toks (do return ⟨← spanFrom start, params, .none⟩) d
        (.ok ⟨d.spanFrom start, params, .none⟩ d m : Outcome Signature c) :=
      .takes (takes_spanFrom _) (.pure _)
    cases htok : d.token? with
    | none => exact .takes (takes_tok_eq htok) hnone
    | some t =>
      have ht : t ≠ .punct .lparen := fun ht => h (ht ▸ htok)
      refine .takes (takes_tok_eq htok) ?_
      rw [Option.any_some]
      split
      · next heq => exact absurd (Option.some.inj heq) ht
      · next heq =>
        cases heq
        by_cases hstarts : t.startsType = true
        · rw [if_pos hstarts, if_pos hstarts]
          exact (type_follows d).after.map fun result e => (takes_spanFrom _).bind (.pure _ _)
        · rw [if_neg hstarts, if_neg hstarts]
          exact hnone
      · next heq => cases heq
termination_by 6 * c.left + 1
decreasing_by all_goals omega

theorem fieldList_follows (c : Cursor) : Follows toks toks.fieldList c c.fieldList := by
  rw [Tokens.fieldList, Cursor.fieldList]
  refine (expect_follows _ _).bind fun lparen d _ => ?_
  have hparams := (params_follows d).andThen
    (f := fun ps => fieldListOf lparen ps.1 ps.2) fun ps e m => fieldListOf_follows lparen ps e m
  simp only [bind_assoc, pure_bind] at hparams
  exact hparams
termination_by 6 * c.left + 0
decreasing_by omega

/-- The entries of a list and the parenthesis behind them. -/
theorem params_follows (c : Cursor) : Follows toks (do
      let params ← toks.paramRounds
      let rparen ← toks.expect (.punct .rparen) "')'"
      return (params, rparen)) c c.params :=
  listLoop_follows Cursor.params_loop rfl rfl paramRounds_eq c fun d _ => param_follows d
termination_by 6 * c.left + 4
decreasing_by omega

theorem param_follows (c : Cursor) : Follows toks toks.param c c.param := by
  have hbare : Follows toks (do return Param.bare (← toks.ident "parameter name")) c
      ((c.ident "parameter name").map fun name _ => .bare name) :=
    (ident_follows _).map fun name e => .pure _ _
  rw [Tokens.param, Cursor.param]
  refine .takes takes_start (.takes takes_tok (.takes takes_second ?_))
  by_cases hbarename : c.atBareParam = true
  · rw [if_pos hbarename]
    unfold Cursor.atBareParam at hbarename
    split
    · exact hbare
    · exact hbare
    · next hcomma hrparen =>
      split at hbarename
      · next htok hsecond => exact (hcomma _ htok hsecond).elim
      · next htok hsecond => exact (hrparen _ htok hsecond).elim
      · cases hbarename
  · rw [if_neg hbarename]
    unfold Cursor.atBareParam at hbarename
    split
    · next htok hsecond =>
      rw [htok, hsecond] at hbarename
      exact absurd rfl hbarename
    · next htok hsecond =>
      rw [htok, hsecond] at hbarename
      exact absurd rfl hbarename
    · by_cases hnamed : c.atNamedParam = true
      · rw [if_pos hnamed]
        refine paramName_follows hnamed fun name d _ => ?_
        exact (paramType_follows d).map fun type e => (takes_spanFrom _).bind (.pure _ _)
      · rw [if_neg hnamed]
        refine .takes (takes_paramName_none (Bool.eq_false_iff.2 hnamed)) ?_
        exact (paramType_follows c).map fun type e => (takes_spanFrom _).bind (.pure _ _)
termination_by 6 * c.left + 3
decreasing_by all_goals omega

theorem paramType_follows (c : Cursor) : Follows toks toks.paramType c c.paramType := by
  rw [Tokens.paramType, Cursor.paramType]
  split
  · next h =>
    refine .takes (takes_eat h) ?_
    exact (type_follows c.advance).lift.map fun type e => .pure _ _
  · next h =>
    refine .takes (takes_eat_none h) ?_
    exact (type_follows c).map fun type e => .pure _ _
termination_by 6 * c.left + 2
decreasing_by all_goals first | omega | (have h := Cursor.advance_lt ‹_›; omega)

end

end GoDecls.Indexed
