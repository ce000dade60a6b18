/-
  Types are read alike at two cursors with the same tokens (`type_echo`).

  There is one lemma for each reader of the grammar of types.  They call each other
  as the readers do, on the same cursors, and so they end for the same reason.  The
  tokens that a reader takes do not rise, or sink by one behind an opening bracket;
  this is why what `embedsField?` and `atNamedParam` find by looking ahead is found
  within them.
-/
import GoDecls.Proofs.Tree.Echo

namespace GoDecls.Tree.Cursor

open Outcome

variable {σ : Span → Span → Prop} {ts us : List Token}

/-! ## Names, lengths and tags -/

theorem names_echo {x x' : List Token} (c c' : Cursor) (hm : Meets σ x x' c c')
    (hx : Ends (· = .punct .comma) x x') (what : String) :
    (c.names what).Echoes x (Shut 0) SameNames (c'.names what) := by
  unfold names
  refine .andMore hm hx rfl ((ident_echo hm what).imp fun _ => shut_of_ident)
    (fun e e' _ he => names_echo e e' he hx what) (fun ts => Shut.cons_plain rfl rfl)
    (fun a a' b b' _ _ ha hb => ?_) fun a a' _ _ ha => ?_
  · rw [SameNames, List.map_cons, List.map_cons, ha, hb]
  · rw [SameNames, List.map_singleton, List.map_singleton, ha]
termination_by c.left

/-- A token that goes on with a type. -/
def GoesOn (t : Token) : Prop := t = .punct .dot ∨ t.startsType = true

theorem qualified_echo {x x' : List Token} {c c' : Cursor} (hm : Meets σ x x' c c')
    (hx : Ends GoesOn x x') :
    c.qualified.Echoes x (Shut 0) (fun p p' => p'.1.map (·.text) = p.1.map (·.text) ∧
      p'.2.text = p.2.text) c'.qualified := by
  unfold qualified
  refine .andMore hm hx (.inl rfl) ((ident_echo hm _).imp fun _ => shut_of_ident)
    (fun _ _ _ he => ident_echo he _) (fun ts hts => Shut.cons_plain rfl rfl (shut_of_ident hts))
    (fun first first' name name' _ _ hfirst hname => ?_) fun _ _ _ _ hname => ⟨rfl, hname⟩
  exact ⟨by rw [Option.map_some, Option.map_some, hfirst], hname⟩

theorem arrayLength_echo {x x' : List Token} {c c' : Cursor} (hm : Meets σ x x' c c')
    (hx : x.head? = x'.head?) :
    c.arrayLength.Echoes x (Shut 0) (ArrayLength.Alike σ) c'.arrayLength := by
  intro length d m ho hle
  unfold arrayLength at ho
  split at ho
  · cases ho
  · next n hn =>
    split at ho
    · cases ho
    · next hne =>
      cases ho
      rw [left_skip] at hle
      obtain ⟨hn', htwins⟩ := hm.lengthExtent? hx hn hle
      obtain ⟨hn_le, hshut⟩ := shut_lengthExtent hn
      have hn_le' := (shut_lengthExtent hn').1
      have hleft : c.left = c.rest.length := rfl
      have hne' : ¬ (n = 0 ∨ c'.left = 0) := by
        have : c'.left = c'.rest.length := rfl
        omega
      have hlength : c'.arrayLength = .ok (.expr (stretch (c'.rest.take n))
          (lengthExpr ((c'.rest.take n).map (·.token)))) (c'.skip n)
            (by rw [left_skip]; omega) := by
        unfold arrayLength
        split
        · next h =>
          rw [hn'] at h
          cases h
        · next k h =>
          rw [hn'] at h
          cases h
          rw [dif_neg hne']
      refine ⟨_, _, _, _, hlength, ?_, hshut, .of_skip hn_le, htwins.tokens ▸ .of_skip hn_le'⟩
      rw [htwins.tokens]
      refine .expr (htwins.whole fun hnil => hne (.inl ?_))
      have := congrArg List.length hnil
      rw [List.length_take, List.length_nil] at this
      omega

theorem tag?_echo {x x' : List Token} {c c' : Cursor} (hm : Meets σ x x' c c')
    (hx : x.head? = x'.head?) (hle : x.length ≤ c.tag?.2.left) :
    ∃ ts, Shut 0 ts ∧ Past ts c c.tag?.2 ∧ Past ts c' c'.tag?.2 ∧
      Option.Rel σ c.tag?.1 c'.tag?.1 := by
  unfold tag? at hle ⊢
  rw [hm.token?_of_head? hx]
  split
  · next h =>
    rw [if_pos h] at hle
    obtain ⟨t, ht, hstring⟩ := (Option.any_eq_true _ _).1 h
    have hlt : x.length < c.left := Nat.lt_of_le_of_lt hle (advance_lt ht)
    obtain ⟨ho, hc⟩ := Token.not_opens_of_isString hstring
    exact ⟨[t], .cons_plain ho hc .nil, .advance ht,
      .advance ((hm.token?_of_head? hx).trans ht), .some (hm.span hlt)⟩
  · exact ⟨[], .nil, .refl c, .refl c', .none⟩

/-! ## What looking ahead decides -/

/-- A name before a square bracket is no type without what is in the brackets. -/
theorem type_within {c : Cursor} {s : String} (hs : c.token? = some (.ident s))
    (hb : c.second? = some (.punct .lbrack)) : c.type.Within (c.left - 3) := by
  have hlt := left_pos hs
  have hnext : c.advance.token? = some (.punct .lbrack) := by
    rw [token?, advance_rest]
    exact hb
  rw [type_of_ident hs, namedType]
  refine .andThen fun name d m hname => ?_
  have hd : d = c.advance := by
    unfold qualified ident at hname
    split at hname
    · change (if c.advance.token? = _ then _ else _) = _ at hname
      rw [if_neg (by rw [hnext]; simp)] at hname
      cases hname
      rfl
    · cases hname
  subst hd
  rw [if_pos hnext]
  refine .map (Within.lift (Within.of_lt ?_)).lift
  have := left_pos hnext
  simp only [left_advance] at this ⊢
  omega

theorem field_within {c : Cursor} {s : String} (hs : c.token? = some (.ident s))
    (hb : c.second? = some (.punct .lbrack)) : c.field.Within (c.left - 2) := by
  rw [field]
  split
  · exact .error
  · refine .andThen fun type d m htype => .ok ?_
    have := type_within hs hb type d m htype
    have := d.tag?_le
    omega
  · refine .andThen fun names d m _ => Within.lift (.andThen fun type e m' _ => .ok ?_)
    have := e.tag?_le
    omega

theorem param_within {c : Cursor} {s : String} (hs : c.token? = some (.ident s))
    (hb : c.second? = some (.punct .lbrack)) : c.param.Within (c.left - 2) := by
  have hbare : c.atBareParam = false := by
    unfold atBareParam
    rw [hs, hb]
  have hellipsis : ¬ c.token? = some (.punct .ellipsis) := by
    rw [hs]
    simp
  rw [param, if_neg (by simp [hbare])]
  split
  · exact .andThen fun name d m _ => Within.lift (.of_lt (by omega))
  · rw [paramType, dif_neg hellipsis]
    refine .map (.map fun type d m htype => ?_)
    have := type_within hs hb type d m htype
    omega

/-- If reading takes the name and the bracket and leaves no bracket open, the bracket closes
    within. -/
theorem bracketThenType_of_shut {x x' : List Token} {c c' d : Cursor} (hm : Meets σ x x' c c')
    (hx : x.head? = x'.head?) {s : String} (hs : c.token? = some (.ident s))
    (hb : c.second? = some (.punct .lbrack)) (hp : Past ts c d) (hshut : Shut 0 ts)
    (hd : d.left ≤ c.left - 2) (hle : x.length ≤ d.left) :
    bracketThenType c'.rest.tail = bracketThenType c.rest.tail := by
  have hleft := hp.left
  have hpos := left_pos hs
  rw [token?_eq, hp.tokens] at hs
  rw [second?_eq, hp.tokens] at hb
  rcases ts with _ | ⟨t, _ | ⟨u, us⟩⟩
  · simp only [List.length_nil] at hleft
    omega
  · have := left_pos ((token?_eq d).trans hb)
    simp only [List.length_singleton] at hleft
    omega
  · cases hs
    cases hb
    have hinner : Shut 0 (.punct .lbrack :: us) := (shut_cons_plain rfl rfl).1 hshut
    exact hm.bracketThenType hx hp hle rfl (hinner.depthAfter?_eq_none rfl)

/-! ## Marked types -/

section

variable {α : Type} {mark : Token} {f : Option Span → TypeExpr → α}

/-- Reads a type, perhaps behind a mark. -/
def marked (mark : Token) (f : Option Span → TypeExpr → α) (c : Cursor) : Outcome α c :=
  if c.token? = some mark then (c.advance.type.lift c.advance_le).map fun T _ => f (some c.span) T
  else c.type.map fun T _ => f none T

theorem term_eq_marked (c : Cursor) : c.term = c.marked (.punct .tilde) .mk := by
  rw [term]
  rfl

theorem paramType_eq_marked (c : Cursor) : c.paramType = c.marked (.punct .ellipsis) .mk := by
  rw [paramType]
  rfl

theorem marked_echo {k : Prop} {x x' : List Token} {c c' : Cursor} {r : α → α → Prop}
    (hm : Meets σ x x' c c') (hx : x.head? = x'.head?) (hopens : mark.opens = false)
    (hcloses : mark.closes = false)
    (hf : ∀ s s' T T', s'.isSome = s.isSome → TypeExpr.Alike σ k T T' → r (f s T) (f s' T'))
    (htype : ∀ d d', d.left ≤ c.left → Meets σ x x' d d' →
      d.type.Echoes x (Shut 0) (TypeExpr.Alike σ k) d'.type) :
    (c.marked mark f).Echoes x (Shut 0) r (c'.marked mark f) := by
  unfold marked
  rw [hm.token?_of_head? hx]
  split
  · next h =>
    exact .map hm (.advance hm h (htype _ _ c.advance_le) fun ts => Shut.cons_plain hopens hcloses)
      fun T _ T' _ => hf _ _ T T' rfl
  · exact .map hm (htype c c' (Nat.le_refl _) hm) fun T _ T' _ => hf _ _ T T' rfl

end

/-! ## Types -/

mutual

theorem type_echo {σ : Span → Span → Prop} {k : Prop} {x x' : List Token}
    (c c' : Cursor) (hm : Meets σ x x' c c')
    (hx : Ends GoesOn x x') :
    c.type.Echoes x (Shut 0) (TypeExpr.Alike σ k) c'.type := by
  refine .of_lt fun hlt => ?_
  have ht := hm.token? hlt
  unfold type
  generalize hc : c.token? = t at ht ⊢
  generalize c'.token? = t' at ht ⊢
  subst ht
  split
  · exact namedType_echo c c' hm hx
  · exact .advance hm hc (fun hd => arrayType_echo _ _ hd hx _ _) fun ts => Shut.cons_opening rfl
  · refine .map hm (.advance (P := Shut 0) hm hc (fun hd => .bind hd
      (fun _ hd => expect_echo hd _ _) (fun _ d _ _ d' _ _ he => structFields_echo d d' he) ?_)
      fun ts => Shut.cons_plain rfl rfl) fun _ _ _ _ h => .struct h
    rintro _ ts rfl hts
    exact Shut.cons_opening rfl hts
  · refine .map hm (.advance (P := Shut 0) hm hc (fun hd => .bind hd
      (fun _ hd => expect_echo hd _ _) (fun _ d _ _ d' _ _ he => interfaceElems_echo d d' he) ?_)
      fun ts => Shut.cons_plain rfl rfl) fun _ _ _ _ h => .interface h
    rintro _ ts rfl hts
    exact Shut.cons_opening rfl hts
  · exact .map hm (.advance hm hc (fun hd => type_echo _ _ hd hx) fun ts => Shut.cons_plain rfl rfl)
      fun _ _ _ _ h => .pointer h
  · refine .advance (P := Shut 0) hm hc (fun hd => .bind hd (fun _ hd => expect_echo hd _ _)
      (Q := Shut 1) (fun _ d _ _ d' _ _ hd => ?_) ?_) fun ts => Shut.cons_plain rfl rfl
    · refine .bind (Q := Shut 1) hd (fun _ hd => type_echo (k := k) d d' hd (.inl rfl))
        (fun key e _ key' e' _ hkey he => ?_) fun ts us hts hus => hts.append hus
      refine .bind (Q := Shut 0) he (fun _ he => expect_echo he _ _)
        (fun _ f _ _ f' _ _ hf => ?_) ?_
      · exact .map hf (type_echo f f' hf hx) fun _ _ _ _ hvalue => .map hkey hvalue
      · rintro _ ts rfl hts
        exact Shut.cons_closing rfl hts
    · rintro _ ts rfl hts
      exact Shut.cons_opening rfl hts
  · change Echoes x _ _ (if _ then _ else _) (if _ then _ else _)
    by_cases hnext : x.length < c.advance.left
    · have harrow := (hm.advance hc hlt).token? hnext
      have hc' := (hm.token? hlt).trans hc
      rw [harrow]
      split
      · next h =>
        exact .map hm (.lift hm ((Past.advance hc).trans (.advance h))
          (fun _ => (Past.advance hc').trans (.advance (harrow.trans h)))
          (fun hd => type_echo _ _ hd hx)
          fun ts hts => Shut.cons_plain rfl rfl (Shut.cons_plain rfl rfl hts)) fun _ _ _ _ h => .chan h
      · exact .map hm (.advance hm hc (fun hd => type_echo _ _ hd hx)
          fun ts => Shut.cons_plain rfl rfl) fun _ _ _ _ h => .chan h
    · refine .of_short fun T d m hT => ?_
      have := c.advance.advance_le
      split at hT
      all_goals
        obtain ⟨_, hT, -⟩ := ok_of_map hT
        obtain ⟨_, -⟩ := ok_of_lift hT
        omega
  · refine .advance (P := Shut 0) hm hc (fun hd => .bind (Q := Shut 0) hd
      (fun _ hd => expect_echo hd _ _) (fun _ d _ _ d' _ _ hd => ?_) ?_)
      fun ts => Shut.cons_plain rfl rfl
    · exact .map hd (type_echo d d' hd hx) fun _ _ _ _ h => .chan h
    · rintro _ ts rfl hts
      exact Shut.cons_plain rfl rfl hts
  · exact .map hm (.advance hm hc (fun hd => signature_echo _ _ hd hx _ _)
      fun ts => Shut.cons_plain rfl rfl) fun _ _ _ _ h => .func h
  · refine .advance (P := Shut 1) hm hc (fun hd => ?_) fun ts => Shut.cons_opening rfl
    refine .bind (Q := Shut 1) hd (fun _ hd => type_echo (k := k) _ _ hd (.inl rfl))
      (fun inner d _ inner' d' _ hinner hd => ?_) fun ts us hts hus => hts.append hus
    refine (Echoes.map hd (expect_echo hd _ _) fun _ _ _ _ _ => .paren hinner).imp ?_
    rintro _ rfl
    exact shut_closing rfl
  · exact .fails
termination_by 6 * c.left + 1
decreasing_by
  all_goals first | omega | (have h := left_pos ‹_›; simp only [left_advance] at *; omega)

theorem namedType_echo {σ : Span → Span → Prop} {k : Prop} {x x' : List Token}
    (c c' : Cursor) (hm : Meets σ x x' c c')
    (hx : Ends GoesOn x x') :
    c.namedType.Echoes x (Shut 0) (TypeExpr.Alike σ k) c'.namedType := by
  unfold namedType
  exact .andMore hm hx (.inr rfl) (qualified_echo hm hx) (fun e e' _ he => typeArgs_echo e e' he)
    (fun ts => Shut.cons_opening rfl) (fun _ _ _ _ _ _ hname hargs => .named hname.1 hname.2 hargs)
    fun _ _ _ _ hname => .named hname.1 hname.2 .nil
termination_by 6 * c.left + 0
decreasing_by omega

theorem typeArgs_echo {σ : Span → Span → Prop} {k : Prop} {x x' : List Token}
    (c c' : Cursor) (hm : Meets σ x x' c c') :
    c.typeArgs.Echoes x (Shut 1) (List.Forall₂ (TypeExpr.Alike σ k)) c'.typeArgs :=
  typeArgs_loop.echo typeArgs_loop .shut c c' hm (solid_any _ _) fun d d' _ hm _ hx =>
    type_echo d d' hm (.inl hx)
termination_by 6 * c.left + 2
decreasing_by omega

theorem arrayType_echo {σ : Span → Span → Prop} {k : Prop} {x x' : List Token}
    (c c' : Cursor) (hm : Meets σ x x' c c')
    (hx : Ends GoesOn x x') (start start' : Nat) :
    (c.arrayType start).Echoes x (Shut 1) (TypeExpr.Alike σ k) (c'.arrayType start') := by
  refine .of_lt fun hlt => ?_
  have ht := hm.token? hlt
  by_cases hnext : x.length < c.advance.left
  · have hsecond : c'.second? = c.second? := by
      obtain ⟨l, ls, hrest⟩ := List.exists_cons_of_length_pos (Nat.zero_lt_of_lt hlt)
      rw [second?_eq_advance, second?_eq_advance]
      exact (hm.advance (by rw [Cursor.token?, hrest]; rfl) hlt).token? hnext
    unfold arrayType
    split
    · next h =>
      rw [dif_pos (ht.trans h)]
      exact .map hm (.advance hm h (fun hd => type_echo _ _ hd hx)
        fun ts => Shut.cons_closing rfl) fun _ _ _ _ h => .slice h
    · next h =>
      have h' : ¬ c'.token? = some (.punct .rbrack) := by rwa [ht]
      rw [dif_neg h']
      split
      · next h =>
        rw [dif_pos ⟨ht.trans h.1, hsecond.trans h.2⟩]
        have hfirst := h.1
        exact .advance hm hfirst (fun hd => arrayElem_echo _ _ hd hx _ _ .ellipsis)
          fun ts => Shut.cons_plain rfl rfl
      · next h =>
        rw [dif_neg (by rwa [ht, hsecond])]
        exact .bind (Q := Shut 1) hm (fun _ hm => arrayLength_echo hm rfl)
          (fun length d _ length' d' _ hlength hd => arrayElem_echo d d' hd hx _ _ hlength)
          fun ts us hts hus => hts.append hus
  · refine .of_short fun T d m hT => ?_
    have hadvance := c.left_advance
    unfold arrayType at hT
    split at hT
    · obtain ⟨_, hT, -⟩ := ok_of_map hT
      obtain ⟨_, -⟩ := ok_of_lift hT
      omega
    · split at hT
      · obtain ⟨_, -⟩ := ok_of_lift hT
        omega
      · have := left_of_bind hT
        omega
termination_by 6 * c.left + 1
decreasing_by all_goals first | omega | (have h := left_pos ‹_›; rw [left_advance]; omega)

theorem arrayElem_echo {σ : Span → Span → Prop} {k : Prop} {x x' : List Token}
    (c c' : Cursor) (hm : Meets σ x x' c c')
    (hx : Ends GoesOn x x') (start start' : Nat) {length length' : ArrayLength}
    (hlength : length.Alike σ length') :
    (c.arrayElem start length).Echoes x (Shut 1) (TypeExpr.Alike σ k)
      (c'.arrayElem start' length') := by
  unfold arrayElem
  refine .bind (Q := Shut 0) hm (fun _ hm => expect_echo hm _ _) (fun _ d _ _ d' _ _ hd => ?_) ?_
  · exact .map hd (type_echo d d' hd hx) fun _ _ _ _ h => .array hlength h
  · rintro _ ts rfl hts
    exact Shut.cons_closing rfl hts
termination_by 6 * c.left + 0
decreasing_by omega

theorem structFields_echo {σ : Span → Span → Prop} {k : Prop} {x x' : List Token}
    (c c' : Cursor) (hm : Meets σ x x' c c') :
    c.structFields.Echoes x (Shut 1) (List.Forall₂ (Field.Alike σ k)) c'.structFields :=
  structFields_loop.echo structFields_loop .shut c c' hm (solid_any _ _) fun d d' _ hm _ hx =>
    field_echo d d' hm hx
termination_by 6 * c.left + 3
decreasing_by omega

theorem field_echo {σ : Span → Span → Prop} {k : Prop} {x x' : List Token}
    (c c' : Cursor) (hm : Meets σ x x' c c')
    (hx : x.head? = x'.head?) :
    c.field.Echoes x (Shut 0) (Field.Alike σ k) c'.field := by
  -- first with the cursor itself, to see how far reading goes; then with the other
  have hknown {τ : Span → Span → Prop} {y : List Token} {b : Cursor} (hb : Meets τ x y c b)
      (hy : x.head? = y.head?) (hembeds : b.embedsField? = c.embedsField?) :
      c.field.Echoes x (Shut 0) (Field.Alike τ k) b.field := by
    have htagged (d : Cursor) {n : Nat} (h : d.left ≤ n) : d.tag?.2.left ≤ n :=
      Nat.le_trans d.tag?_le h
    unfold field
    rw [hembeds]
    match c.embedsField? with
    | none => exact .fails
    | some true =>
      refine (type_echo (k := k) c b hb (.inl hy)).andThen hb
        (fun type d m => .ok (htagged d (Nat.le_refl _)))
        fun us type d m type' d' m' htype hus hp hp' hd => .of_le fun hle => ?_
      obtain ⟨vs, hvs, hq, hq', htag⟩ := tag?_echo hd hy hle
      exact .ok (.intro rfl rfl htype htag rfl) (hus.append hvs) (hp.trans hq) (hp'.trans hq')
    | some false =>
      refine .bind (Q := Shut 0) hb (fun _ hb => names_echo c b hb (.inl rfl) _)
        (fun names d _ names' d' _ hnames hd => ?_) fun ts us hts hus => hts.append hus
      refine (type_echo (k := k) d d' hd (.inl hy)).andThen hd
        (fun type e m => .ok (htagged e (Nat.le_refl _)))
        fun us type e m type' e' m' htype hus hp hp' he => .of_le fun hle => ?_
      obtain ⟨vs, hvs, hq, hq', htag⟩ := tag?_echo he hy hle
      exact .ok (.intro hnames rfl htype htag rfl) (hus.append hvs) (hp.trans hq)
        (hp'.trans hq')
  intro field d m ho hle
  have hlt := Nat.lt_of_le_of_lt hle m
  have hembeds : c'.embedsField? = c.embedsField? := by
    have hbracket : ∀ s, c.token? = some (.ident s) → c.second? = some (.punct .lbrack) →
        bracketThenType c'.rest.tail = bracketThenType c.rest.tail := by
      intro s hs hb
      obtain ⟨ts, _, _, _, -, -, hshut, hp, -⟩ := hknown hm.left rfl rfl field d m ho hle
      exact bracketThenType_of_shut hm hx hs hb hp hshut (field_within hs hb field d m ho) hle
    unfold embedsField?
    rw [hm.token? hlt, hm.second? hx hlt]
    split <;> simp_all
  exact hknown hm hx hembeds field d m ho hle
termination_by 6 * c.left + 2
decreasing_by all_goals omega

theorem interfaceElems_echo {σ : Span → Span → Prop} {k : Prop} {x x' : List Token}
    (c c' : Cursor) (hm : Meets σ x x' c c') :
    c.interfaceElems.Echoes x (Shut 1) (List.Forall₂ (InterfaceElem.Alike σ k))
      c'.interfaceElems :=
  interfaceElems_loop.echo interfaceElems_loop .shut c c' hm (solid_any _ _) fun d d' _ hm _ hx =>
    interfaceElem_echo d d' hm hx
termination_by 6 * c.left + 5
decreasing_by omega

theorem interfaceElem_echo {σ : Span → Span → Prop} {k : Prop} {x x' : List Token}
    (c c' : Cursor) (hm : Meets σ x x' c c')
    (hx : x.head? = x'.head?) :
    c.interfaceElem.Echoes x (Shut 0) (InterfaceElem.Alike σ k) c'.interfaceElem := by
  refine .of_lt fun hlt => ?_
  have hmethod : c'.atMethod = c.atMethod := by
    unfold atMethod
    rw [hm.token? hlt, hm.second? hx hlt]
  unfold interfaceElem
  rw [hmethod]
  split
  · refine .bind (Q := Shut 0) hm (fun _ hm => ident_echo hm _)
      (fun name d _ name' d' _ hname hd => ?_)
      fun ts us hts hus => (shut_of_ident hts).append hus
    exact .map hd (signature_echo d d' hd (.inl hx) _ _) fun _ _ _ _ hsig => .method hname hsig
  · exact .map hm (union_echo c c' hm hx) fun _ _ _ _ hterms => .union hterms
termination_by 6 * c.left + 4
decreasing_by all_goals omega

theorem union_echo {σ : Span → Span → Prop} {k : Prop} {x x' : List Token}
    (c c' : Cursor) (hm : Meets σ x x' c c')
    (hx : x.head? = x'.head?) :
    c.union.Echoes x (Shut 0) (List.Forall₂ (Term.Alike σ k)) c'.union := by
  unfold union
  exact .andMore (E := fun _ => True) hm (.inl hx) trivial (term_echo c c' hm hx)
    (fun e e' _ he => union_echo e e' he hx) (fun ts => Shut.cons_plain rfl rfl)
    (fun _ _ _ _ _ _ hterm hterms => .cons hterm hterms) fun _ _ _ _ hterm => .cons hterm .nil
termination_by 6 * c.left + 3
decreasing_by all_goals omega

theorem term_echo {σ : Span → Span → Prop} {k : Prop} {x x' : List Token}
    (c c' : Cursor) (hm : Meets σ x x' c c')
    (hx : x.head? = x'.head?) :
    c.term.Echoes x (Shut 0) (Term.Alike σ k) c'.term := by
  rw [term_eq_marked, term_eq_marked]
  exact marked_echo hm hx rfl rfl (fun _ _ _ _ hmark hT => .intro hmark hT)
    fun d d' _ hd => type_echo d d' hd (.inl hx)
termination_by 6 * c.left + 2
decreasing_by omega

theorem signature_echo {σ : Span → Span → Prop} {k : Prop} {x x' : List Token}
    (c c' : Cursor) (hm : Meets σ x x' c c')
    (hx : Ends GoesOn x x') (start start' : Nat) :
    (c.signature start).Echoes x (Shut 0) (Signature.Alike σ k) (c'.signature start') := by
  unfold signature
  refine (fieldList_echo (k := k) c c' hm).andThen hm (fun params d m => ?_)
    fun us params d m params' d' m' hparams hus hp hp' hd => ?_
  · split
    · exact .map .after
    · split
      · exact .map .after
      · exact .ok (Nat.le_refl _)
  · rcases hd.token?_of_ends hx with ht | ⟨hle, ht⟩
    · rw [ht]
      split
      · exact .map hm (.after hm hp hp' (fun hd => fieldList_echo d d' hd)
          fun ts hts => hus.append hts) fun _ _ _ _ hresults => .intro hparams (.list hresults)
      · split
        · exact .map hm (.after hm hp hp' (fun hd => type_echo d d' hd hx)
            fun ts hts => hus.append hts)
            fun _ _ _ _ hresult => .intro hparams (.single hresult)
        · exact .ok (.intro hparams .none) hus hp hp'
    · have hany : ¬ d'.token?.any Token.startsType = true := by
        intro h
        obtain ⟨t, htoken, hstarts⟩ := (Option.any_eq_true _ _).1 h
        exact ht t (.inr hstarts) htoken
      rw [if_neg (ht _ (.inr rfl)), if_neg hany]
      have hshort {β : Type} {o : Outcome β d} {f : β → Cursor → Signature} {s : Signature}
          {e : Cursor} {m' : e.left < c.left} (h : (o.after m).map f = .ok s e m') :
          e.left < x.length := by
        obtain ⟨_, h, -⟩ := ok_of_map h
        obtain ⟨_, -⟩ := ok_of_lift h
        omega
      split
      · exact .of_short fun _ _ _ => hshort
      · split
        · exact .of_short fun _ _ _ => hshort
        · exact .ok (.intro hparams .none) hus hp hp'
termination_by 6 * c.left + 1
decreasing_by all_goals omega

theorem fieldList_echo {σ : Span → Span → Prop} {k : Prop} {x x' : List Token}
    (c c' : Cursor) (hm : Meets σ x x' c c') :
    c.fieldList.Echoes x (Shut 0) (FieldList.Alike σ k) c'.fieldList := by
  unfold fieldList
  refine .bind (Q := Shut 1) hm (fun _ hm => expect_echo hm _ _)
    (fun _ d _ _ d' _ _ hd => ?_) ?_
  · refine (params_echo (k := k) d d' hd).andThen hd (fun ps e m => ?_)
      fun us ps e m ps' e' m' hps hus hp hp' _ => ?_
    · split
      · exact .ok (Nat.le_refl _)
      · exact .error
    · split
      · next fields hfields =>
        obtain ⟨fields', hfields', hsame⟩ := Param.toFields_alike hps hfields
        rw [hfields']
        exact .ok (.intro hsame) hus hp hp'
      · exact .error
  · rintro _ ts rfl hts
    exact Shut.cons_opening rfl hts
termination_by 6 * c.left + 0
decreasing_by omega

theorem params_echo {σ : Span → Span → Prop} {k : Prop} {x x' : List Token}
    (c c' : Cursor) (hm : Meets σ x x' c c') :
    c.params.Echoes x (Shut 1) (fun p p' => List.Forall₂ (Param.Alike σ k) p.1 p'.1)
      c'.params :=
  params_loop.echo params_loop .shut c c' hm (solid_any _ _) fun d d' _ hm _ hx =>
    param_echo d d' hm hx
termination_by 6 * c.left + 4
decreasing_by omega

theorem param_echo {σ : Span → Span → Prop} {k : Prop} {x x' : List Token}
    (c c' : Cursor) (hm : Meets σ x x' c c')
    (hx : x.head? = x'.head?) :
    c.param.Echoes x (Shut 0) (Param.Alike σ k) c'.param := by
  -- first with the cursor itself, to see how far reading goes; then with the other
  have hknown {τ : Span → Span → Prop} {y : List Token} {b : Cursor} (hb : Meets τ x y c b)
      (hy : x.head? = y.head?) (hbare : b.atBareParam = c.atBareParam)
      (hnamed : b.atNamedParam = c.atNamedParam) :
      c.param.Echoes x (Shut 0) (Param.Alike τ k) b.param := by
    unfold param
    rw [hbare, hnamed]
    split
    · exact (Echoes.map hb (ident_echo hb _) fun _ _ _ _ hname => .bare hname).imp
        fun _ => shut_of_ident
    · split
      · refine .bind (Q := Shut 0) hb (fun _ hb => ident_echo hb _)
          (fun name d _ name' d' _ hname hd => ?_)
          fun ts us hts hus => (shut_of_ident hts).append hus
        refine .map hd (paramType_echo (k := k) d d' hd hy) fun type e type' e' htype => ?_
        exact .typed (by rw [Option.map_some, Option.map_some, hname]) htype.1 htype.2
      · exact .map hb (paramType_echo (k := k) c b hb hy)
          fun _ _ _ _ htype => .typed rfl htype.1 htype.2
  intro p d m ho hle
  have hlt := Nat.lt_of_le_of_lt hle m
  have hbare : c'.atBareParam = c.atBareParam := by
    unfold atBareParam
    rw [hm.token? hlt, hm.second? hx hlt]
  have hnamed : c'.atNamedParam = c.atNamedParam := by
    have hbracket : ∀ s, c.token? = some (.ident s) → c.second? = some (.punct .lbrack) →
        bracketThenType c'.rest.tail = bracketThenType c.rest.tail := by
      intro s hs hb
      obtain ⟨ts, _, _, _, -, -, hshut, hp, -⟩ := hknown hm.left rfl rfl rfl p d m ho hle
      exact bracketThenType_of_shut hm hx hs hb hp hshut (param_within hs hb p d m ho) hle
    unfold atNamedParam
    rw [hm.token? hlt, hm.second? hx hlt]
    split <;> simp_all
  exact hknown hm hx hbare hnamed p d m ho hle
termination_by 6 * c.left + 3
decreasing_by all_goals omega

theorem paramType_echo {σ : Span → Span → Prop} {k : Prop} {x x' : List Token}
    (c c' : Cursor) (hm : Meets σ x x' c c')
    (hx : x.head? = x'.head?) :
    c.paramType.Echoes x (Shut 0) (fun p p' => p'.1.isSome = p.1.isSome ∧ p.2.Alike σ k p'.2)
      c'.paramType := by
  rw [paramType_eq_marked, paramType_eq_marked]
  exact marked_echo hm hx rfl rfl (fun _ _ _ _ => .intro) fun d d' _ hd => type_echo d d' hd (.inl hx)
termination_by 6 * c.left + 2
decreasing_by omega

end

/-! ## What types are made of -/

section

variable {c d : Cursor}

/-- How a type is read, by its first token. -/
inductive TypeRead (c : Cursor) : TypeExpr → Cursor → Prop
  | named {name : String} {T : TypeExpr} {d : Cursor} {m : d.left < c.left}
    (ht : c.token? = some (.ident name)) (h : c.namedType = .ok T d m) : TypeRead c T d
  | array {T : TypeExpr} {d : Cursor} {m : d.left < c.advance.left}
    (ht : c.token? = some (.punct .lbrack)) (h : c.advance.arrayType c.start = .ok T d m) :
    TypeRead c T d
  | struct {fields : List Field} {d : Cursor} {m : d.left < c.advance.advance.left}
    (ht : c.token? = some (.keyword .struct)) (hopen : c.advance.token? = some (.punct .lbrace))
    (h : c.advance.advance.structFields = .ok fields d m) :
    TypeRead c (.struct (d.spanFrom c.start) fields) d
  | interface {elems : List InterfaceElem} {d : Cursor} {m : d.left < c.advance.advance.left}
    (ht : c.token? = some (.keyword .interface))
    (hopen : c.advance.token? = some (.punct .lbrace))
    (h : c.advance.advance.interfaceElems = .ok elems d m) :
    TypeRead c (.interface (d.spanFrom c.start) elems) d
  | pointer {elem : TypeExpr} {d : Cursor} {m : d.left < c.advance.left}
    (ht : c.token? = some (.punct .star)) (h : c.advance.type = .ok elem d m) :
    TypeRead c (.pointer (d.spanFrom c.start) c.span elem) d
  | map {key value : TypeExpr} {e d : Cursor} {m : e.left < c.advance.advance.left}
    {m' : d.left < e.advance.left} (ht : c.token? = some (.keyword .map))
    (hopen : c.advance.token? = some (.punct .lbrack))
    (hkey : c.advance.advance.type = .ok key e m) (hclose : e.token? = some (.punct .rbrack))
    (hvalue : e.advance.type = .ok value d m') :
    TypeRead c (.map (d.spanFrom c.start) key value) d
  | chan {elem : TypeExpr} {d : Cursor} {m : d.left < c.advance.left}
    (ht : c.token? = some (.keyword .chan)) (harrow : c.advance.token? ≠ some (.punct .arrow))
    (h : c.advance.type = .ok elem d m) : TypeRead c (.chan (d.spanFrom c.start) .both elem) d
  | sendChan {elem : TypeExpr} {d : Cursor} {m : d.left < c.advance.advance.left}
    (ht : c.token? = some (.keyword .chan)) (harrow : c.advance.token? = some (.punct .arrow))
    (h : c.advance.advance.type = .ok elem d m) :
    TypeRead c (.chan (d.spanFrom c.start) .send elem) d
  | recvChan {elem : TypeExpr} {d : Cursor} {m : d.left < c.advance.advance.left}
    (ht : c.token? = some (.punct .arrow)) (hchan : c.advance.token? = some (.keyword .chan))
    (h : c.advance.advance.type = .ok elem d m) :
    TypeRead c (.chan (d.spanFrom c.start) .recv elem) d
  | func {sig : Signature} {d : Cursor} {m : d.left < c.advance.left}
    (ht : c.token? = some (.keyword .func)) (h : c.advance.signature c.start = .ok sig d m) :
    TypeRead c (.func (d.spanFrom c.start) sig) d
  | paren {inner : TypeExpr} {e : Cursor} {m : e.left < c.advance.left}
    (ht : c.token? = some (.punct .lparen)) (h : c.advance.type = .ok inner e m)
    (hclose : e.token? = some (.punct .rparen)) :
    TypeRead c (.paren (e.advance.spanFrom c.start) inner) e.advance

/-- Every type is read so. -/
theorem typeRead {T : TypeExpr} {m : d.left < c.left} (h : c.type = .ok T d m) :
    TypeRead c T d := by
  rw [type] at h
  split at h
  · next ht => exact .named ht h
  · next ht =>
    obtain ⟨_, harray⟩ := ok_of_lift h
    exact .array ht harray
  · next ht =>
    obtain ⟨fields, hread, rfl⟩ := ok_of_map h
    obtain ⟨_, hread⟩ := ok_of_lift hread
    obtain ⟨_, e, _, _, hexpect, hfields⟩ := ok_of_bind hread
    obtain ⟨hopen, rfl⟩ := ok_of_expect hexpect
    exact .struct ht hopen hfields
  · next ht =>
    obtain ⟨elems, hread, rfl⟩ := ok_of_map h
    obtain ⟨_, hread⟩ := ok_of_lift hread
    obtain ⟨_, e, _, _, hexpect, helems⟩ := ok_of_bind hread
    obtain ⟨hopen, rfl⟩ := ok_of_expect hexpect
    exact .interface ht hopen helems
  · next ht =>
    obtain ⟨elem, hread, rfl⟩ := ok_of_map h
    obtain ⟨_, helem⟩ := ok_of_lift hread
    exact .pointer ht helem
  · next ht =>
    obtain ⟨_, hread⟩ := ok_of_lift h
    obtain ⟨_, e, _, _, hexpect, hread⟩ := ok_of_bind hread
    obtain ⟨hopen, rfl⟩ := ok_of_expect hexpect
    obtain ⟨key, e, _, _, hkey, hread⟩ := ok_of_bind hread
    obtain ⟨_, f, _, _, hexpect, hread⟩ := ok_of_bind hread
    obtain ⟨hclose, rfl⟩ := ok_of_expect hexpect
    obtain ⟨value, hvalue, rfl⟩ := ok_of_map hread
    exact .map ht hopen hkey hclose hvalue
  · next ht =>
    split at h
    · next harrow =>
      obtain ⟨elem, hread, rfl⟩ := ok_of_map h
      obtain ⟨_, helem⟩ := ok_of_lift hread
      exact .sendChan ht harrow helem
    · next harrow =>
      obtain ⟨elem, hread, rfl⟩ := ok_of_map h
      obtain ⟨_, helem⟩ := ok_of_lift hread
      exact .chan ht harrow helem
  · next ht =>
    obtain ⟨_, hread⟩ := ok_of_lift h
    obtain ⟨_, e, _, _, hexpect, hread⟩ := ok_of_bind hread
    obtain ⟨hchan, rfl⟩ := ok_of_expect hexpect
    obtain ⟨elem, helem, rfl⟩ := ok_of_map hread
    exact .recvChan ht hchan helem
  · next ht =>
    obtain ⟨sig, hread, rfl⟩ := ok_of_map h
    obtain ⟨_, hsig⟩ := ok_of_lift hread
    exact .func ht hsig
  · next ht =>
    obtain ⟨_, hread⟩ := ok_of_lift h
    obtain ⟨inner, e, _, _, hinner, hread⟩ := ok_of_bind hread
    obtain ⟨_, hexpect, rfl⟩ := ok_of_map hread
    obtain ⟨hclose, rfl⟩ := ok_of_expect hexpect
    exact .paren ht hinner hclose
  · cases h

theorem made_of_arrayElem {start : Nat} {length : ArrayLength} {T : TypeExpr}
    {m : d.left < c.left} (h : c.arrayElem start length = .ok T d m) :
    T.span = d.spanFrom start ∧ T.isFunc = false := by
  rw [arrayElem] at h
  obtain ⟨_, _, _, _, -, h⟩ := ok_of_bind h
  obtain ⟨_, -, rfl⟩ := ok_of_map h
  exact ⟨rfl, rfl⟩

theorem made_of_arrayType {start : Nat} {T : TypeExpr} {m : d.left < c.left}
    (h : c.arrayType start = .ok T d m) : T.span = d.spanFrom start ∧ T.isFunc = false := by
  rw [arrayType] at h
  split at h
  · obtain ⟨_, -, rfl⟩ := ok_of_map h
    exact ⟨rfl, rfl⟩
  · split at h
    · obtain ⟨_, h⟩ := ok_of_lift h
      exact made_of_arrayElem h
    · obtain ⟨_, _, _, _, -, h⟩ := ok_of_bind h
      exact made_of_arrayElem h

theorem made_of_namedType {T : TypeExpr} {m : d.left < c.left} (h : c.namedType = .ok T d m) :
    T.span = d.spanFrom c.start ∧ T.isFunc = false := by
  rw [namedType] at h
  obtain ⟨_, _, _, -, h⟩ := ok_of_andThen h
  split at h
  · obtain ⟨_, -, rfl⟩ := ok_of_map h
    exact ⟨rfl, rfl⟩
  · cases h
    exact ⟨rfl, rfl⟩

/-- A type covers everything from the cursor to the end of the last token read; a function
    type begins with its keyword, and no other type does. -/
theorem made_of_type {T : TypeExpr} {m : d.left < c.left} (h : c.type = .ok T d m) :
    T.span = d.spanFrom c.start ∧ (T.isFunc = true ↔ c.token? = some (.keyword .func)) := by
  cases typeRead h with
  | named ht h => simp [made_of_namedType h, ht]
  | array ht h => simp [made_of_arrayType h, ht]
  | _ => simp [TypeExpr.span, TypeExpr.isFunc, *]

/-- A type begins with a token that a type can begin with. -/
theorem token?_of_type {T : TypeExpr} {m : d.left < c.left} (h : c.type = .ok T d m) :
    ∃ t, c.token? = some t ∧ t.startsType = true := by
  cases typeRead h <;> exact ⟨_, ‹_›, rfl⟩

end

end GoDecls.Tree.Cursor
