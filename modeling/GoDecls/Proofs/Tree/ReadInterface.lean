/-
  The reader of interfaces gives the members back.

  A name with a parenthesis behind it is a method; no union begins so
  (`atMethod_of_union`).
-/
import GoDecls.Proofs.Tree.ReadSignature
import GoDecls.Proofs.Tree.ReadStruct

namespace GoDecls.Tree

variable {m : Manner} {c : Cursor} {rs ms : List Lexeme}

/-- A member begins neither with a separator nor with the closing brace. -/
theorem InterfaceElem.Canonical.render_eq_cons (m : Manner) {e : InterfaceElem}
    (he : e.Canonical) :
    ∃ t ts, e.render m = t :: ts ∧ t ≠ .punct .rbrace ∧ t ≠ .punct .semi := by
  cases e with
  | method name sig => exact ⟨_, _, rfl, Token.noConfusion, Token.noConfusion⟩
  | union terms =>
    rw [render, renderTerms_eq_map]
    obtain ⟨⟨tilde, T⟩, ts, rfl⟩ := List.exists_cons_of_ne_nil he
    rw [List.map_cons, listed_cons, Term.render]
    cases tilde with
    | some _ => exact ⟨_, _, rfl, by decide, by decide⟩
    | none =>
      obtain ⟨us, hT⟩ := T.render_eq_head m
      rw [hT]
      exact ⟨_, _, rfl, T.head_ne rfl, T.head_ne rfl⟩

namespace Cursor

theorem term_gives {t : Term} (ht : ReadsBack m t.type) (h : Spells c.rest (t.render m) ms)
    (hms : Stops ms) : c.term.Gives (fun u => u.unplaced = t.unplaced) ms := by
  obtain ⟨tilde, type⟩ := t
  rw [term]
  cases tilde with
  | some _ =>
    rw [dif_pos (token?_of_spells h)]
    refine ((ht (spells_advance h) hms).lift _).map fun T _ hT => ?_
    simp [Term.unplaced, unplacedMark, hT]
  | none =>
    have h₁ : Spells c.rest (type.render m ++ []) ms := by rw [List.append_nil]; exact h
    rw [dif_neg (token?_ne_of_type h₁ rfl)]
    refine (ht h hms).map fun T _ hT => ?_
    simp [Term.unplaced, unplacedMark, hT]

theorem union_gives : ∀ {terms : List Term}, terms ≠ [] → (∀ t ∈ terms, ReadsBack m t.type) →
    ∀ {c : Cursor}, Spells c.rest (listed .pipe false (terms.map (·.render m))) ms →
    Stops ms → ms.head?.map Lexeme.token ≠ some (.punct .pipe) →
    c.union.Gives (fun us => us.map (·.unplaced) = terms.map (·.unplaced)) ms
  | [], hne, _, _, _, _, _ => absurd rfl hne
  | [t], _, ht, c, h, hms, hpipe => by
    rw [union]
    refine (term_gives (ht t List.mem_cons_self) h hms).andThen fun u d _ hu hd => ?_
    rw [if_neg (by rw [token?, hd]; exact hpipe)]
    exact .ok (by rw [List.map_singleton, hu]; rfl) hd
  | t :: t' :: ts, _, ht, c, h, hms, hpipe => by
    rw [List.map_cons, List.map_cons, listed, ← List.map_cons] at h
    obtain ⟨_, h₁, h₂⟩ := Spells.append_iff.1 h
    rw [union]
    refine (term_gives (ht t List.mem_cons_self) h₁ (.of_spells h₂ (by decide) rfl)).andThen
      fun u d _ hu hd => ?_
    subst hd
    rw [if_pos (token?_of_spells h₂)]
    have hmore := union_gives (List.cons_ne_nil t' ts)
      (fun u hu => ht u (List.mem_cons_of_mem t hu)) (spells_advance h₂) hms hpipe
    exact ((hmore.lift _).after _).map fun us _ hus => by rw [List.map_cons, hu, hus]; rfl

/-- A union is not taken for a method: no parenthesis follows a name that begins it. -/
theorem atMethod_of_union {terms : List Term} (hne : terms ≠ [])
    (h : Spells c.rest (listed .pipe false (terms.map (·.render m))) ms) (hms : ListMarks.braced.Ends ms) :
    c.atMethod = false := by
  obtain ⟨⟨tilde, T⟩, ts, rfl⟩ := List.exists_cons_of_ne_nil hne
  rw [List.map_cons, listed_cons] at h
  obtain ⟨ls, h₁, h₂⟩ := Spells.append_iff.1 h
  cases tilde with
  | some _ => rw [atMethod, token?_of_spells h₁]
  | none =>
    have h₁ : Spells c.rest (T.render m) ls := h₁
    cases T with
    | named _ pkg name args =>
      rw [TypeExpr.render, renderTypes_eq_map] at h₁
      cases pkg with
      | some pkg =>
        rw [atMethod, token?_of_spells h₁, second?_of_spells h₁]
        rfl
      | none =>
        cases args with
        | cons S args =>
          rw [atMethod, token?_of_spells h₁, second?_of_spells h₁]
          rfl
        | nil =>
          obtain ⟨l, ls', hc, hl, h₃⟩ := Spells.cons_iff.1 h₁
          obtain rfl := Spells.nil_iff.1 h₃
          have hsecond : c.second? = ls'.head?.map Lexeme.token := by rw [second?, hc]; rfl
          have ht : c.token? = some (.ident name.text) := token?_of_spells h₁
          rw [atMethod, ht, hsecond]
          split at h₂
          · obtain rfl := Spells.nil_iff.1 h₂
            obtain ⟨l', _, rfl, hl'⟩ := hms
            rcases hl' with hl' | hl' <;> rw [List.head?_cons, Option.map_some, hl'] <;> rfl
          · rw [h₂.head?]
    | chan _ dir _ => cases dir <;> rw [atMethod, token?_of_spells h₁]
    | _ => rw [atMethod, token?_of_spells h₁]

theorem interfaceElem_gives {e : InterfaceElem} (he : e.Canonical)
    (hT : ∀ S ∈ e.types, S.Canonical m ∧ ReadsBack m S) (h : Spells c.rest (e.render m) ms)
    (hms : ListMarks.braced.Ends ms) : c.interfaceElem.Gives (fun e' => e'.unplaced = e.unplaced) ms := by
  rw [interfaceElem]
  cases e with
  | method name sig =>
    obtain ⟨_, h₁, h₂⟩ := Spells.uncons h
    have hmethod : c.atMethod = true := by
      obtain ⟨_, ⟨_, _, _⟩, _⟩ := sig
      rw [atMethod, second?_of_spells h]
      have ht : c.token? = some (.ident name.text) := token?_of_spells h
      rw [ht]
    rw [if_pos hmethod]
    refine (ident_gives _ h₁).bind fun i d _ hi hd => ?_
    subst hd
    refine (signature_gives he hT h₂ hms.stops).map fun s _ hs => ?_
    rw [InterfaceElem.unplaced, InterfaceElem.unplaced, hi, hs]
  | union terms =>
    rw [InterfaceElem.render, renderTerms_eq_map] at h
    have hmethod := atMethod_of_union he h hms
    rw [if_neg (Bool.eq_false_iff.1 hmethod)]
    have hunion := union_gives he (fun t ht => (hT _ (List.mem_map_of_mem ht)).2) h hms.stops
      hms.head?_ne_pipe
    refine hunion.map fun us _ hus => ?_
    simp [InterfaceElem.unplaced, hus]

theorem interfaceElems_gives {elems : List InterfaceElem} (he : ∀ e ∈ elems, e.Canonical)
    (hT : ∀ e ∈ elems, ∀ S ∈ e.types, S.Canonical m ∧ ReadsBack m S)
    (h : Spells c.rest (listed .semi m.closing (elems.map (·.render m)) ++ [.punct .rbrace]) rs) :
    c.interfaceElems.Gives (fun es => es.map (·.unplaced) = elems.map (·.unplaced)) rs :=
  interfaceElems_loop.gives InterfaceElem.unplaced
    (fun e hmem => InterfaceElem.Canonical.render_eq_cons m (he e hmem))
    (fun e hmem _ _ => interfaceElem_gives (he e hmem) (hT e hmem)) h

end Cursor

open Cursor

theorem readsBack_interface {span : Span} {elems : List InterfaceElem}
    (he : ∀ e ∈ elems, e.Canonical)
    (hT : ∀ e ∈ elems, ∀ S ∈ e.types, S.Canonical m ∧ ReadsBack m S) :
    ReadsBack m (.interface span elems) := by
  intro c rs h _
  rw [TypeExpr.render, renderElems_eq_map] at h
  obtain ⟨_, h₁, h₂⟩ := (spells_advance h).uncons
  rw [type_of_interface (token?_of_spells h)]
  have helems := (expect_gives "'\x7b'" h₁).bind fun _ d _ _ hd =>
    interfaceElems_gives he hT (hd ▸ h₂)
  exact (helems.lift _).map fun es _ hes => by simp [TypeExpr.unplaced, hes]

end GoDecls.Tree
