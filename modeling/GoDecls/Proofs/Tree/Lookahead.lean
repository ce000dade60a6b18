/-
  What looking ahead finds at a type, a field or an entry of a list that is
  spelled out.

  Each guess of the readers is right: a name before a square bracket is the name
  of a field or parameter iff the bracket begins an array or slice type
  (`bracketThenType_render`), and a name in an interface is a method iff a
  parenthesis follows.
-/
import GoDecls.Proofs.Tree.Canonical

namespace GoDecls.Tree

variable {m : Manner} {ls ms rs : List Lexeme} {t : Token} {ts : List Token}

/-- Nothing that goes on with a type stands in front. -/
def Stops (rs : List Lexeme) : Prop :=
  ∀ l ∈ rs.head?, l.token ≠ .punct .dot ∧ l.token.startsType = false

theorem Stops.of_spells (h : Spells ms (t :: ts) rs) (hd : t ≠ .punct .dot)
    (ht : t.startsType = false) : Stops ms := by
  obtain ⟨l, _, rfl, rfl, -⟩ := Spells.cons_iff.1 h
  intro l' hl'
  cases hl'
  exact ⟨hd, ht⟩

theorem Stops.any_startsType (h : Stops rs) : rs.head?.any (·.token.startsType) = false := by
  cases rs with
  | nil => rfl
  | cons l rs => exact (h l rfl).2

theorem Stops.head?_ne {t : Token} (h : Stops rs) (ht : t = .punct .dot ∨ t.startsType = true) :
    rs.head?.map Lexeme.token ≠ some t := by
  cases rs with
  | nil => exact nofun
  | cons l rs =>
    intro hl
    cases hl
    obtain ⟨h₁, h₂⟩ := h l rfl
    rcases ht with ht | ht
    · exact h₁ ht
    · rw [ht] at h₂
      cases h₂

/-- The first token of a spelled type. -/
theorem TypeExpr.head?_of_spells {T : TypeExpr} (h : Spells ls (T.render m ++ ts) rs) :
    ls.head?.map Lexeme.token = some T.head := by
  obtain ⟨us, hT⟩ := T.render_eq_head m
  rw [hT] at h
  exact h.head?

/-- At an array or slice type, a type follows the brackets. -/
theorem bracketThenType_render {T : TypeExpr} (hT : T.CanonicalHere m)
    (hl : T.head = .punct .lbrack) (h : Spells ls (T.render m) rs) : bracketThenType ls = true := by
  have helem : ∀ (elem : TypeExpr) (ts : List Token), Balanced ts →
      Spells ls ((.punct .lbrack :: (ts ++ [.punct .rbrack])) ++ elem.render m) rs →
      bracketThenType ls = true := by
    intro elem ts hb h
    obtain ⟨ms, h₁, h₂⟩ := Spells.append_iff.1 h
    rw [bracketThenType_of_spells hb h₁]
    obtain ⟨us, hhead⟩ := elem.render_eq_head m
    rw [hhead] at h₂
    obtain ⟨l, _, rfl, hl, -⟩ := Spells.cons_iff.1 h₂
    simpa [hl] using elem.head_startsType
  cases T with
  | array _ length elem =>
    refine helem elem (length.render m) (ArrayLength.Canonical.balanced hT) ?_
    rw [TypeExpr.render] at h
    simpa using h
  | slice _ elem => exact helem elem [] .nil h
  | chan _ dir _ => cases dir <;> cases hl
  | _ => cases hl

/-- Behind type arguments nothing follows that begins a type, if nothing follows
    the whole. -/
theorem bracketThenType_renderArgs {xs : List (List Token)} (hxs : ∀ x ∈ xs, Balanced x)
    (hne : xs ≠ []) (h : Spells ls (renderArgs m xs) rs) (hr : Stops rs) :
    bracketThenType ls = false := by
  cases xs with
  | nil => exact absurd rfl hne
  | cons x xs =>
    rw [bracketThenType_of_spells (Balanced.listed rfl rfl hxs) h]
    exact hr.any_startsType

end GoDecls.Tree
