/-
  The reader of structs gives the fields back.

  A field is followed by its tag, by a separator or by the closing brace, and the
  one token of look-ahead behind a name tells an embedded field from one with
  names (`embedsField?_of_names`, `embedsField?_of_embeddable`).
-/
import GoDecls.Proofs.Tree.ReadTypes

namespace GoDecls.Tree

variable {m : Manner} {c : Cursor} {rs ms : List Lexeme}

/-! ## Fields of structs -/

/-- The token is a tag, or ends a field: it may follow the type of a field. -/
def endsFieldType : Token → Bool
  | .string _ | .rawString _ | .punct .semi | .punct .rbrace => true
  | _ => false

theorem endsFieldType_of_isString {t : Token} (h : t.isString = true) :
    endsFieldType t = true := by
  cases t <;> first | rfl | cases h

theorem Stops.of_endsFieldType {l : Lexeme} {ls : List Lexeme}
    (h : endsFieldType l.token = true) : Stops (l :: ls) := by
  intro l' hl'
  cases hl'
  cases ht : l.token with
  | string _ => exact ⟨Token.noConfusion, rfl⟩
  | rawString _ => exact ⟨Token.noConfusion, rfl⟩
  | punct p =>
    rw [ht] at h
    cases p with
    | semi | rbrace => exact ⟨by decide, rfl⟩
    | _ => cases h
  | _ => rw [ht] at h; cases h

/-- Behind the type of a field is its tag or its end. -/
theorem endsFieldType_of_renderTag {tag : Option Span} {ls : List Lexeme}
    (ht : ∀ span ∈ tag, ∃ t, m.source span = [t] ∧ t.isString = true)
    (h : Spells ls (renderTag m tag) ms) (hms : ListMarks.braced.Ends ms) :
    ∃ l ls', ls = l :: ls' ∧ endsFieldType l.token = true := by
  cases tag with
  | none =>
    rw [renderTag, Spells.nil_iff] at h
    subst h
    obtain ⟨l, ls', rfl, hl⟩ := hms
    exact ⟨l, ls', rfl, by rcases hl with hl | hl <;> rw [hl] <;> rfl⟩
  | some span =>
    obtain ⟨t, hs, hstr⟩ := ht span rfl
    rw [renderTag, hs] at h
    obtain ⟨l, ls', rfl, rfl, -⟩ := Spells.cons_iff.1 h
    exact ⟨l, ls', rfl, endsFieldType_of_isString hstr⟩

/-- A field begins neither with a separator nor with the closing brace. -/
theorem Field.InStruct.render_eq_cons {f : Field} (hf : f.InStruct m) :
    ∃ t ts, f.render m = t :: ts ∧ t ≠ .punct .rbrace ∧ t ≠ .punct .semi := by
  obtain ⟨span, names, ellipsis, type, tag, embedded⟩ := f
  obtain rfl : ellipsis = none := hf.ellipsis_eq
  rw [render]
  cases names with
  | nil =>
    obtain ⟨us, hT⟩ := type.render_eq_head m
    rw [hT]
    exact ⟨_, _, rfl, type.head_ne rfl, type.head_ne rfl⟩
  | cons i is => cases is <;> exact ⟨_, _, rfl, Token.noConfusion, Token.noConfusion⟩

namespace Cursor

theorem tag?_of_spells {tag : Option Span}
    (ht : ∀ span ∈ tag, ∃ t, m.source span = [t] ∧ t.isString = true)
    (h : Spells c.rest (renderTag m tag) ms) (hms : ListMarks.braced.Ends ms) :
    unplacedMark c.tag?.1 = unplacedMark tag ∧ c.tag?.2.rest = ms := by
  cases tag with
  | none =>
    rw [renderTag, Spells.nil_iff] at h
    subst h
    obtain ⟨l, ls, hc, hl⟩ := hms
    have hns : ¬ c.token?.any Token.isString = true := by
      rw [token?, hc]
      rcases hl with hl | hl <;> simp [hl, Token.isString]
    rw [tag?, if_neg hns]
    exact ⟨rfl, rfl⟩
  | some span =>
    obtain ⟨t, hs, hstr⟩ := ht span rfl
    rw [renderTag, hs] at h
    rw [tag?, if_pos (by rw [token?_of_spells h]; exact hstr)]
    exact ⟨rfl, Spells.nil_iff.1 (spells_advance h)⟩

/-- A field with names is not taken for an embedded one. -/
theorem embedsField?_of_names {names : List Ident} {T : TypeExpr} {us : List Token}
    (hn : names ≠ []) (hT : T.CanonicalHere m)
    (h : Spells c.rest (renderNames names ++ (T.render m ++ us)) rs) :
    c.embedsField? = some false := by
  obtain ⟨i, is, rfl⟩ := List.exists_cons_of_ne_nil hn
  cases is with
  | cons j is =>
    rw [embedsField?, token?_of_spells h, second?_of_spells h]
    rfl
  | nil =>
    obtain ⟨l, ls, hl, hi, h₁⟩ := Spells.cons_iff.1 h
    have h₁ : Spells ls (T.render m ++ us) rs := h₁
    have ht : c.token? = some i.token := token?_of_spells h
    have hs : c.second? = some T.head := by
      rw [second?, hl]
      exact T.head?_of_spells h₁
    rw [embedsField?, ht, hs]
    by_cases hb : T.head = .punct .lbrack
    · obtain ⟨_, h₂, -⟩ := Spells.append_iff.1 h₁
      rw [hb, hl]
      simp [Ident.token, bracketThenType_render hT hb h₂]
    · cases T with
      | array _ _ _ => exact absurd rfl hb
      | slice _ _ => exact absurd rfl hb
      | chan _ dir _ => cases dir <;> rfl
      | _ => rfl

/-- A name before what may follow the type of a field is that type. -/
theorem embedsField?_of_endsFieldType {s : String} {t : Token} (h : c.token? = some (.ident s))
    (hs : c.second? = some t) (ht : endsFieldType t = true) : c.embedsField? = some true := by
  rw [embedsField?, h, hs]
  cases t with
  | string _ => rfl
  | rawString _ => rfl
  | punct p => cases p <;> first | rfl | cases ht
  | _ => cases ht

/-- An embedded type is not taken for a field with names. -/
theorem embedsField?_of_embeddable {T : TypeExpr} (hT : ∀ S ∈ T.parts, S.Canonical m)
    (he : T.isEmbeddable = true) {l : Lexeme} {ls : List Lexeme}
    (h : Spells c.rest (T.render m) (l :: ls)) (hl : endsFieldType l.token = true) :
    c.embedsField? = some true := by
  cases T with
  | pointer _ _ _ => rw [embedsField?, token?_of_spells h]
  | named _ pkg name args =>
    rw [TypeExpr.render, renderTypes_eq_map] at h
    cases pkg with
    | some pkg =>
      rw [embedsField?, token?_of_spells h, second?_of_spells h]
      rfl
    | none =>
      obtain ⟨_, _, hc, -, h₁⟩ := Spells.cons_iff.1 h
      have ht : c.token? = some (.ident name.text) := token?_of_spells h
      cases args with
      | nil =>
        obtain rfl := Spells.nil_iff.1 h₁
        exact embedsField?_of_endsFieldType ht (by rw [second?, hc]; rfl) hl
      | cons S args =>
        have hbal : ∀ x ∈ (S :: args).map (·.render m), Balanced x := fun x hx => by
          obtain ⟨S', hS', rfl⟩ := List.mem_map.1 hx
          exact (hT S' hS').balanced
        have hfalse := bracketThenType_renderArgs hbal (List.cons_ne_nil _ _) h₁
          (.of_endsFieldType hl)
        rw [embedsField?, ht, second?_of_spells h, hc]
        simp [hfalse]
  | _ => cases he

theorem field_gives {f : Field} (hf : f.InStruct m) (hT : f.type.Canonical m)
    (ht : ReadsBack m f.type) (h : Spells c.rest (f.render m) ms) (hms : ListMarks.braced.Ends ms) :
    c.field.Gives (fun g => g.unplaced = f.unplaced) ms := by
  obtain ⟨span, names, ellipsis, type, tag, embedded⟩ := f
  obtain rfl : ellipsis = none := hf.ellipsis_eq
  obtain rfl : embedded = names.isEmpty := hf.embedded_eq
  obtain ⟨here, below⟩ := hT
  have htag : ∀ span ∈ tag, ∃ t, m.source span = [t] ∧ t.isString = true := hf.tag_string
  rw [field]
  cases names with
  | nil =>
    have h : Spells c.rest (type.render m ++ renderTag m tag) ms := h
    obtain ⟨_, h₁, h₂⟩ := Spells.append_iff.1 h
    obtain ⟨l, ls, rfl, hl⟩ := endsFieldType_of_renderTag htag h₂ hms
    rw [embedsField?_of_embeddable below (hf.embeddable rfl) h₁ hl]
    refine (ht h₁ (.of_endsFieldType hl)).andThen fun t d _ ht' hd => ?_
    rw [← hd] at h₂
    obtain ⟨h₃, h₄⟩ := tag?_of_spells htag h₂ hms
    refine .ok ?_ h₄
    simp [Field.unplaced, h₃, ht']
  | cons i is =>
    have h : Spells c.rest (renderNames (i :: is) ++ (type.render m ++ renderTag m tag)) ms := h
    obtain ⟨_, h₁, h₂⟩ := Spells.append_iff.1 h
    obtain ⟨_, h₃, h₄⟩ := Spells.append_iff.1 h₂
    obtain ⟨l, ls, rfl, hl⟩ := endsFieldType_of_renderTag htag h₄ hms
    rw [embedsField?_of_names (List.cons_ne_nil i is) here h]
    have hcomma := type.head?_of_spells h₂
    refine (names_gives _ (List.cons_ne_nil i is) h₁ ?_).bind fun js d _ hjs hd => ?_
    · rw [hcomma]
      exact fun h' => type.head_ne rfl (Option.some.inj h')
    subst hd
    refine (ht h₃ (.of_endsFieldType hl)).andThen fun t e _ ht' he => ?_
    rw [← he] at h₄
    obtain ⟨h₅, h₆⟩ := tag?_of_spells htag h₄ hms
    refine .ok ?_ h₆
    simp [Field.unplaced, h₅, ht', hjs]

theorem structFields_gives {fields : List Field} (hf : ∀ f ∈ fields, f.InStruct m)
    (hT : ∀ f ∈ fields, f.type.Canonical m) (hr : ∀ f ∈ fields, ReadsBack m f.type)
    (h : Spells c.rest (listed .semi m.closing (fields.map (·.render m)) ++ [.punct .rbrace]) rs) :
    c.structFields.Gives (fun gs => gs.map (·.unplaced) = fields.map (·.unplaced)) rs :=
  structFields_loop.gives Field.unplaced (fun f hmem => (hf f hmem).render_eq_cons)
    (fun f hmem _ _ => field_gives (hf f hmem) (hT f hmem) (hr f hmem)) h

end Cursor

open Cursor

theorem readsBack_struct {span : Span} {fields : List Field} (hf : ∀ f ∈ fields, f.InStruct m)
    (hT : ∀ f ∈ fields, f.type.Canonical m) (hr : ∀ f ∈ fields, ReadsBack m f.type) :
    ReadsBack m (.struct span fields) := by
  intro c rs h _
  rw [TypeExpr.render, renderFields_eq_map] at h
  obtain ⟨_, h₁, h₂⟩ := (spells_advance h).uncons
  rw [type_of_struct (token?_of_spells h)]
  have hfields := (expect_gives "'\x7b'" h₁).bind fun _ d _ _ hd =>
    structFields_gives hf hT hr (hd ▸ h₂)
  exact (hfields.lift _).map fun gs _ hgs => by simp [TypeExpr.unplaced, hgs]

end GoDecls.Tree
