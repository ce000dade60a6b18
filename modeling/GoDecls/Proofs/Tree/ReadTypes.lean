/-
  The readers of types give back what is written, one lemma a kind of type.

  `ReadsBack m T` says that the tokens of `T`, wherever they stand, are read as
  `T`.  Each kind reads back if the types below it do: here the kinds without
  lists of fields or members (`readsBack_named`, `readsBack_array`, …).
-/
import GoDecls.Proofs.Tree.Entries
import GoDecls.Proofs.Tree.Lookahead
import GoDecls.Proofs.Tree.Loops

namespace GoDecls.Tree

variable {m : Manner} {c : Cursor} {rs ms : List Lexeme}

/-- The type is read back from its tokens, wherever they stand. -/
def ReadsBack (m : Manner) (T : TypeExpr) : Prop :=
  ∀ ⦃c : Cursor⦄ ⦃rs : List Lexeme⦄, Spells c.rest (T.render m) rs → Stops rs →
    c.type.Gives (fun t => t.unplaced = T.unplaced) rs

/-! ## Lists -/

section

variable {α β : Type} {S : ListShape α β} {k : ListMarks}

/-- An item of the list ends here. -/
def ListMarks.Ends (k : ListMarks) (ms : List Lexeme) : Prop :=
  ∃ l ls, ms = l :: ls ∧ (l.token = .punct k.sep ∨ l.token = .punct k.close)

theorem ListMarks.Ends.stops (h : k.Ends ms) : Stops ms := by
  obtain ⟨l, ls, rfl, hl⟩ := h
  rintro _ ⟨⟩
  have hclose := k.closes
  rcases hl with hl | hl
  · rcases k.sep_cases with hsep | hsep <;> rw [hl, hsep] <;> decide
  · rw [hl]
    cases hp : k.close <;> rw [hp] at hclose <;> first | decide | cases hclose

theorem ListMarks.Ends.head?_ne_pipe (h : k.Ends ms) :
    ms.head?.map Lexeme.token ≠ some (.punct .pipe) := by
  obtain ⟨l, ls, rfl, hl⟩ := h
  have hclose := k.closes
  intro hpipe
  have hl' : l.token = .punct .pipe := Option.some.inj hpipe
  rcases hl with hl | hl
  · rcases k.sep_cases with hsep | hsep <;> rw [hl, hsep] at hl' <;> cases hl'
  · rw [← Token.punct.inj (hl'.symm.trans hl)] at hclose
    cases hclose

namespace Cursor

/-- A loop gives the items back, but for what `erase` takes away, if its reader of items
    does. -/
theorem ListLoop.gives {item : (c : Cursor) → Outcome α c} {loop : (c : Cursor) → Outcome β c}
    (hloop : ListLoop S item loop) {render : α → List Token} {closing : Bool} (erase : α → α) :
    ∀ {xs : List α}, (∀ x ∈ xs, ∃ t ts, render x = t :: ts ∧ t ≠ .punct S.close ∧
      t ≠ .punct S.sep) →
    (∀ x ∈ xs, ∀ c ms, Spells c.rest (render x) ms → S.Ends ms →
      (item c).Gives (fun y => erase y = erase x) ms) → ∀ {c : Cursor},
    Spells c.rest (listed S.sep closing (xs.map render) ++ [.punct S.close]) rs →
    (loop c).Gives (fun ys => (S.items ys).map erase = xs.map erase) rs
  | [], _, _, c, h => by
    rw [hloop.at_close (token?_of_spells h)]
    exact .ok (by rw [S.items_nil]) (Spells.nil_iff.1 (spells_advance h))
  | x :: xs, hbegin, hitem, c, h => by
    rw [List.map_cons, listed_cons, List.append_assoc] at h
    obtain ⟨t, us, hrender, hclose, hsep⟩ := hbegin x List.mem_cons_self
    have ht : c.token? = some t := by
      rw [hrender] at h
      exact token?_of_spells h
    obtain ⟨ms, h₁, h₂⟩ := Spells.append_iff.1 h
    have hx := hitem x List.mem_cons_self c ms h₁
    rw [hloop.at_item ht hclose fun _ => hsep]
    split at h₂
    · -- the last item, with the bracket right behind it
      next hlast =>
      obtain rfl : xs = [] := List.map_eq_nil_iff.1 hlast.1
      refine (hx ?_).bind fun y d _ hy hd => ?_
      · obtain ⟨l, ls, rfl, hl, -⟩ := Spells.cons_iff.1 h₂
        exact ⟨l, ls, rfl, .inr hl⟩
      subst hd
      rw [behind_of_close (token?_of_spells h₂)]
      refine .ok ?_ (Spells.nil_iff.1 (spells_advance h₂))
      rw [S.items_cons, S.items_nil, List.map_singleton, List.map_singleton, hy]
    · refine (hx ?_).bind fun y d _ hy hd => ?_
      · obtain ⟨l, ls, rfl, hl, -⟩ := Spells.cons_iff.1 h₂
        exact ⟨l, ls, rfl, .inl hl⟩
      subst hd
      have hmore := hloop.gives erase (fun x' hx' => hbegin x' (List.mem_cons_of_mem x hx'))
        (fun x' hx' => hitem x' (List.mem_cons_of_mem x hx')) (spells_advance h₂)
      rw [behind_of_sep (token?_of_spells h₂)]
      exact (hmore.lift _).map fun ys _ hys => by
        rw [S.items_cons, List.map_cons, List.map_cons, hy, hys]

end Cursor

end

/-! ## Names, and types with one type below -/

namespace Cursor

theorem qualified_gives {pkg : Option Ident} {name : Ident} {rs : List Lexeme}
    (h : Spells c.rest (renderQualifier pkg ++ [name.token]) rs)
    (hr : rs.head?.map Lexeme.token ≠ some (.punct .dot)) :
    c.qualified.Gives (fun p => p.1.map (·.unplaced) = pkg.map (·.unplaced) ∧
      p.2.unplaced = name.unplaced) rs := by
  rw [qualified]
  cases pkg with
  | none =>
    refine (ident_gives _ h).andThen fun first d m hfirst hd => ?_
    rw [if_neg (by rw [token?, hd]; exact hr)]
    exact .ok ⟨rfl, hfirst⟩ hd
  | some pkg =>
    obtain ⟨_, h₁, h₂⟩ := h.uncons
    refine (ident_gives _ h₁).andThen fun first d m hfirst hd => ?_
    subst hd
    rw [if_pos (token?_of_spells h₂)]
    refine (((ident_gives _ (spells_advance h₂)).lift _).after m).map fun i e hi => ?_
    exact ⟨congrArg some hfirst, hi⟩

/-- The token at a cursor before a type. -/
theorem token?_ne_of_type {T : TypeExpr} {t : Token} {ts : List Token}
    (h : Spells c.rest (T.render m ++ ts) rs) (ht : t.startsType = false) : c.token? ≠ some t := by
  rw [token?, T.head?_of_spells h]
  exact fun h' => T.head_ne ht (Option.some.inj h')

theorem typeArgs_gives {args : List TypeExpr} (hS : ∀ S ∈ args, ReadsBack m S)
    (h : Spells c.rest (listed .comma m.closing (args.map (·.render m)) ++ [.punct .rbrack]) rs) :
    c.typeArgs.Gives (fun ts => ts.map (·.unplaced) = args.map (·.unplaced)) rs :=
  typeArgs_loop.gives TypeExpr.unplaced
    (fun S _ => let ⟨us, hS⟩ := S.render_eq_head m; ⟨_, us, hS, S.head_ne rfl, S.head_ne rfl⟩)
    (fun S hmem _ _ h hms => hS S hmem h hms.stops) h

end Cursor

open Cursor

theorem readsBack_named {span : Span} {pkg : Option Ident} {name : Ident} {args : List TypeExpr}
    (ha : ∀ S ∈ args, ReadsBack m S) : ReadsBack m (.named span pkg name args) := by
  intro c rs h hr
  have hid : ∃ s, c.token? = some (.ident s) := by
    cases pkg <;> exact ⟨_, token?_of_spells h⟩
  obtain ⟨s, hs⟩ := hid
  rw [TypeExpr.render, renderTypes_eq_map, List.append_cons] at h
  rw [type_of_ident hs, namedType]
  obtain ⟨ms, h₁, h₂⟩ := Spells.append_iff.1 h
  cases args with
  | nil =>
    rw [List.map_nil, renderArgs, Spells.nil_iff] at h₂
    subst h₂
    refine (qualified_gives h₁ (hr.head?_ne (.inl rfl))).andThen fun q d _ hq hd => ?_
    rw [if_neg (by rw [token?, hd]; exact hr.head?_ne (.inr rfl))]
    refine .ok ?_ hd
    simp [TypeExpr.unplaced, hq]
  | cons S args =>
    have hdot : ms.head?.map Lexeme.token ≠ some (.punct .dot) := by
      rw [h₂.head?]
      decide
    refine (qualified_gives h₁ hdot).andThen fun q d _ hq hd => ?_
    subst hd
    rw [if_pos (token?_of_spells h₂)]
    refine (((typeArgs_gives ha (spells_advance h₂)).lift _).after _).map fun ts e hts => ?_
    simp [TypeExpr.unplaced, hq, hts]

theorem readsBack_pointer {span star : Span} {elem : TypeExpr} (he : ReadsBack m elem) :
    ReadsBack m (.pointer span star elem) := by
  intro c rs h hr
  rw [type_of_star (token?_of_spells h)]
  refine ((he (spells_advance h) hr).lift _).map fun t _ ht => ?_
  rw [TypeExpr.unplaced, TypeExpr.unplaced, ht]

theorem readsBack_slice {span : Span} {elem : TypeExpr} (he : ReadsBack m elem) :
    ReadsBack m (.slice span elem) := by
  intro c rs h hr
  have h' := spells_advance h
  rw [type_of_lbrack (token?_of_spells h)]
  refine Outcome.Gives.lift ?_ _
  rw [arrayType, dif_pos (token?_of_spells h')]
  refine ((he (spells_advance h') hr).lift _).map fun t _ ht => ?_
  rw [TypeExpr.unplaced, TypeExpr.unplaced, ht]

theorem readsBack_map {span : Span} {key value : TypeExpr} (hk : ReadsBack m key)
    (hv : ReadsBack m value) : ReadsBack m (.map span key value) := by
  intro c rs h hr
  obtain ⟨_, h₁, h₂⟩ := (spells_advance h).uncons
  obtain ⟨_, h₃, h₄⟩ := Spells.append_iff.1 h₂
  obtain ⟨_, h₅, h₆⟩ := h₄.uncons
  rw [type_of_map (token?_of_spells h)]
  refine Outcome.Gives.lift ?_ _
  refine (expect_gives _ h₁).bind fun _ d _ _ hd => ?_
  subst hd
  refine (hk h₃ (.of_spells h₄ (by decide) rfl)).bind fun k e _ hke he => ?_
  subst he
  refine (expect_gives _ h₅).bind fun _ f _ _ hf => ?_
  subst hf
  refine (hv h₆ hr).map fun v g hve => ?_
  rw [TypeExpr.unplaced, TypeExpr.unplaced, hke, hve]

theorem readsBack_chan {span : Span} {dir : ChanDir} {elem : TypeExpr}
    (hd : dir = .both → elem.isReceiveOnly = false) (he : ReadsBack m elem) :
    ReadsBack m (.chan span dir elem) := by
  intro c rs h hr
  cases dir with
  | both =>
    rw [type_of_chan (token?_of_spells h)]
    have h' : Spells c.advance.rest (elem.render m ++ []) rs := by
      rw [List.append_nil]
      exact spells_advance h
    have hne : c.advance.token? ≠ some (.punct .arrow) := by
      rw [token?, elem.head?_of_spells h']
      exact fun ha => TypeExpr.head_ne_arrow (hd rfl) (Option.some.inj ha)
    rw [if_neg hne]
    refine ((he (spells_advance h) hr).lift _).map fun t _ ht => ?_
    rw [TypeExpr.unplaced, TypeExpr.unplaced, ht]
  | send =>
    rw [type_of_chan (token?_of_spells h)]
    rw [if_pos (token?_of_spells (spells_advance h))]
    refine ((he (spells_advance (spells_advance h)) hr).lift _).map fun t _ ht => ?_
    rw [TypeExpr.unplaced, TypeExpr.unplaced, ht]
  | recv =>
    rw [type_of_arrow (token?_of_spells h)]
    obtain ⟨_, h₁, h₂⟩ := (spells_advance h).uncons
    refine Outcome.Gives.lift ((expect_gives _ h₁).bind fun _ d _ _ hd => ?_) _
    subst hd
    refine (he h₂ hr).map fun t _ ht => ?_
    rw [TypeExpr.unplaced, TypeExpr.unplaced, ht]

theorem readsBack_paren {span : Span} {inner : TypeExpr} (hi : ReadsBack m inner) :
    ReadsBack m (.paren span inner) := by
  intro c rs h _
  obtain ⟨_, h₁, h₂⟩ := Spells.append_iff.1 (spells_advance h)
  rw [type_of_lparen (token?_of_spells h)]
  refine Outcome.Gives.lift ((hi h₁ (.of_spells h₂ (by decide) rfl)).bind fun t d _ ht hd => ?_) _
  subst hd
  refine (expect_gives _ h₂).map fun _ _ _ => ?_
  rw [TypeExpr.unplaced, TypeExpr.unplaced, ht]

/-! ## Array lengths -/

theorem lengthExpr_render {span : Span} {e : LengthExpr}
    (h : ArrayLength.Canonical m (.expr span e)) :
    lengthExpr (ArrayLength.render m (.expr span e)) = e := by
  cases e with
  | ident _ => rfl
  | selector _ _ => rfl
  | literal kind =>
    obtain ⟨t, ht, hk⟩ := h
    rw [ArrayLength.render, ht]
    cases t with
    | ident _ => cases hk
    | _ => simp [lengthExpr, hk]
  | other =>
    obtain ⟨-, hne, -, hident, hsel, hlit⟩ := h
    rw [ArrayLength.render]
    unfold lengthExpr
    split
    · next hs => exact absurd hs (hident _)
    · next hs => exact absurd hs (hsel _ _)
    · next t _ hs =>
      cases hk : literalKind? t with
      | none => rfl
      | some kind => exact absurd hs (hlit t (by rw [hk]; rfl))
    · rfl

theorem ArrayLength.render_expr_ne_nil {span : Span} {e : LengthExpr}
    (h : ArrayLength.Canonical m (.expr span e)) : ArrayLength.render m (.expr span e) ≠ [] := by
  cases e with
  | ident _ => exact List.cons_ne_nil _ _
  | selector _ _ => exact List.cons_ne_nil _ _
  | literal kind =>
    obtain ⟨t, ht, -⟩ := h
    rw [render, ht]
    exact List.cons_ne_nil _ _
  | other => exact h.2.1

theorem ArrayLength.render_expr_ne_ellipsis {span : Span} {e : LengthExpr}
    (h : ArrayLength.Canonical m (.expr span e)) :
    ArrayLength.render m (.expr span e) ≠ [.punct .ellipsis] := by
  cases e with
  | ident _ => simp [render]
  | selector _ _ => simp [render]
  | literal kind =>
    obtain ⟨t, ht, hk⟩ := h
    rw [render, ht]
    intro h'
    cases h'
    cases hk
  | other => exact h.2.2.1

namespace Cursor

/-- An array length that is an expression is taken neither for the brackets of a
    slice nor for a length that the compiler counts. -/
theorem lengthExpr_ahead {span : Span} {e : LengthExpr} {us : List Token}
    (hl : ArrayLength.Canonical m (.expr span e))
    (h : Spells c.rest (ArrayLength.render m (.expr span e) ++ .punct .rbrack :: us) rs) :
    c.token? ≠ some (.punct .rbrack) ∧
      ¬ (c.token? = some (.punct .ellipsis) ∧ c.second? = some (.punct .rbrack)) := by
  have hb := hl.balanced
  have hne := ArrayLength.render_expr_ne_nil hl
  have hell := ArrayLength.render_expr_ne_ellipsis hl
  generalize ArrayLength.render m (.expr span e) = ts at h hb hne hell
  obtain ⟨t, ts, rfl⟩ := List.exists_cons_of_ne_nil hne
  rw [token?_of_spells h]
  constructor
  · intro ht
    cases ht
    exact Balanced.ne_cons_of_closes rfl hb
  · rintro ⟨ht, hu⟩
    cases ht
    cases ts with
    | nil => exact hell rfl
    | cons u ts =>
      rw [second?_of_spells h] at hu
      cases hu
      exact Balanced.ne_cons_of_closes rfl ((Balanced.cons_iff rfl rfl).1 hb)

theorem arrayLength_gives {span : Span} {e : LengthExpr}
    (hl : ArrayLength.Canonical m (.expr span e))
    (h : Spells c.rest (ArrayLength.render m (.expr span e)) ms)
    (hm : ms.head?.map Lexeme.token = some (.punct .rbrack)) :
    c.arrayLength.Gives (fun l => l.unplaced = .expr .zero e) ms := by
  obtain ⟨front, hc, hf⟩ := h
  have hextent : lengthExtent? 0 c.rest = some front.length := by
    have hb := hl.balanced
    rw [← hf] at hb
    rw [hc, lengthExtent?_append hb]
    cases ms with
    | nil => cases hm
    | cons l ms => rw [lengthExtent?, if_pos ⟨Option.some.inj hm, rfl⟩]; simp
  have hpos : front ≠ [] := by
    rintro rfl
    exact ArrayLength.render_expr_ne_nil hl hf.symm
  have hne : ¬ (front.length = 0 ∨ c.left = 0) := by
    have := List.length_pos_iff.2 hpos
    rw [left, hc, List.length_append]
    omega
  rw [arrayLength]
  split
  · next hnone =>
    rw [hextent] at hnone
    cases hnone
  · next n hn =>
    rw [hextent] at hn
    cases hn
    rw [dif_neg hne]
    refine .ok ?_ (by rw [skip_rest, hc, List.drop_left])
    rw [hc, List.take_left, hf, lengthExpr_render hl, ArrayLength.unplaced]

theorem arrayElem_gives {start : Nat} {length : ArrayLength} {elem : TypeExpr}
    (he : ReadsBack m elem) (h : Spells c.rest (.punct .rbrack :: elem.render m) rs)
    (hr : Stops rs) :
    (c.arrayElem start length).Gives
      (fun t => t.unplaced = .array .zero length.unplaced elem.unplaced) rs := by
  obtain ⟨_, h₁, h₂⟩ := h.uncons
  rw [arrayElem]
  refine (expect_gives _ h₁).bind fun _ d _ _ hd => ?_
  subst hd
  exact (he h₂ hr).map fun t _ ht => by rw [TypeExpr.unplaced, ht]

end Cursor

theorem readsBack_array {span : Span} {length : ArrayLength} {elem : TypeExpr}
    (hl : length.Canonical m) (he : ReadsBack m elem) :
    ReadsBack m (.array span length elem) := by
  intro c rs h hr
  have h' := spells_advance h
  rw [type_of_lbrack (token?_of_spells h)]
  refine Outcome.Gives.lift ?_ _
  rw [arrayType, TypeExpr.unplaced]
  cases length with
  | ellipsis s =>
    rw [dif_neg (token?_ne_of_spells h' (by decide)),
      dif_pos ⟨token?_of_spells h', second?_of_spells h'⟩]
    exact (arrayElem_gives he (spells_advance h') hr).lift _
  | expr s e =>
    -- the length is taken as far as the bracket that closes it, which balance fixes
    obtain ⟨h₁, h₂⟩ := lengthExpr_ahead hl h'
    rw [dif_neg h₁, dif_neg h₂]
    obtain ⟨ms, h₃, h₄⟩ := Spells.append_iff.1 h'
    refine (arrayLength_gives hl h₃ h₄.head?).bind fun l d _ hl' hd => ?_
    subst hd
    rw [ArrayLength.unplaced, ← hl']
    exact arrayElem_gives he h₄ hr

end GoDecls.Tree
