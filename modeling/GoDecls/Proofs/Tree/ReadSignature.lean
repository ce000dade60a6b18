/-
  The readers of parameters, results and signatures give them back.

  A list is read entry by entry, and the entries are made into fields when the
  list is at its end.  One token behind a name tells a bare entry, a name before
  a type and a type from each other (`atBareParam_of_bare`,
  `atNamedParam_of_named`, `atNamedParam_of_anonymous`).
-/
import GoDecls.Proofs.Tree.ReadTypes

namespace GoDecls.Tree

variable {m : Manner} {c : Cursor} {rs ms : List Lexeme}

/-! ## Entries of a list -/

/-- The entry is written so that it is told from the others: the type is
    canonical and read back, and one that is a name is a bare entry. -/
def Param.Proper (m : Manner) : Param → Prop
  | .bare _ => True
  | .typed _ name ellipsis type =>
    type.Canonical m ∧ ReadsBack m type ∧
      (name = none → ellipsis = none → type.plainName? = none)

theorem Field.proper_of_mem_entries {f : Field} (hT : f.type.Canonical m)
    (ht : ReadsBack m f.type) : ∀ p ∈ f.entries, p.Proper m := by
  obtain ⟨span, names, ellipsis, type, tag, embedded⟩ := f
  have hnamed : ∀ names : List Ident, ∀ p ∈ namedEntries span ellipsis type names,
      p.Proper m := by
    intro names
    induction names with
    | nil => exact List.forall_mem_nil _
    | cons i is ih =>
      intro p hp
      cases is with
      | nil =>
        obtain rfl := List.mem_singleton.1 hp
        exact ⟨hT, ht, fun hnone => by cases hnone⟩
      | cons j is =>
        rcases List.mem_cons.1 hp with rfl | hp
        · trivial
        · exact ih p hp
  cases names with
  | nil =>
    intro p hp
    obtain rfl := List.mem_singleton.1 hp
    show (anonymousEntry span ellipsis type).Proper m
    unfold anonymousEntry
    split
    · trivial
    · next hplain =>
      refine ⟨hT, ht, fun _ he => ?_⟩
      cases hn : type.plainName? with
      | none => rfl
      | some i => exact absurd hn (hplain i he)
  | cons i is => exact hnamed (i :: is)

/-- The first token of an entry is a name or `...`, or begins a type. -/
theorem Param.render_eq_cons (m : Manner) (p : Param) :
    ∃ t ts, p.render m = t :: ts ∧ t ≠ .punct .rparen ∧ t ≠ .punct .comma := by
  cases p with
  | bare name => exact ⟨_, _, rfl, Token.noConfusion, Token.noConfusion⟩
  | typed _ name ellipsis type =>
    cases name with
    | some name => exact ⟨_, _, rfl, Token.noConfusion, Token.noConfusion⟩
    | none =>
      cases ellipsis with
      | some _ => exact ⟨_, _, rfl, by decide, by decide⟩
      | none =>
        obtain ⟨us, hT⟩ := type.render_eq_head m
        exact ⟨_, _, hT, type.head_ne rfl, type.head_ne rfl⟩

namespace Cursor

theorem paramType_gives {ellipsis : Option Span} {type : TypeExpr} (ht : ReadsBack m type)
    (h : Spells c.rest (renderMark .ellipsis ellipsis ++ type.render m) ms) (hms : Stops ms) :
    c.paramType.Gives (fun p => unplacedMark p.1 = unplacedMark ellipsis ∧
      p.2.unplaced = type.unplaced) ms := by
  rw [paramType]
  cases ellipsis with
  | some _ =>
    rw [dif_pos (token?_of_spells h)]
    exact ((ht (spells_advance h) hms).lift _).map fun t _ ht' => ⟨rfl, ht'⟩
  | none =>
    have h' : Spells c.rest (type.render m ++ []) ms := by rwa [List.append_nil]
    rw [dif_neg (token?_ne_of_type h' rfl)]
    exact (ht h hms).map fun t _ ht' => ⟨rfl, ht'⟩

theorem atBareParam_of_bare {name : Ident} (h : Spells c.rest [name.token] ms)
    (hms : ListMarks.parenthesized.Ends ms) : c.atBareParam = true := by
  obtain ⟨l, ls, rfl, hl⟩ := hms
  obtain ⟨_, _, hc, hname, h₁⟩ := Spells.cons_iff.1 h
  obtain rfl := Spells.nil_iff.1 h₁
  have hs : c.second? = some l.token := by rw [second?, hc]; rfl
  have ht : c.token? = some (.ident name.text) := token?_of_spells h
  rw [atBareParam, ht, hs]
  rcases hl with hl | hl <;> rw [hl] <;> rfl

theorem atNamedParam_of_named {name : Ident} {ellipsis : Option Span} {T : TypeExpr}
    (hT : T.CanonicalHere m)
    (h : Spells c.rest (name.token :: (renderMark .ellipsis ellipsis ++ T.render m)) ms) :
    c.atBareParam = false ∧ c.atNamedParam = true := by
  obtain ⟨l, ls, hc, -, h₁⟩ := Spells.cons_iff.1 h
  have ht : c.token? = some (.ident name.text) := token?_of_spells h
  cases ellipsis with
  | some _ =>
    rw [atBareParam, atNamedParam, ht, second?_of_spells h]
    exact ⟨rfl, rfl⟩
  | none =>
    have h₂ : Spells ls (T.render m ++ []) ms := by rw [List.append_nil]; exact h₁
    have hs : c.second? = some T.head := by
      rw [second?, hc]
      exact T.head?_of_spells h₂
    rw [atBareParam, atNamedParam, ht, hs]
    by_cases hb : T.head = .punct .lbrack
    · rw [hb, hc]
      exact ⟨rfl, bracketThenType_render hT hb h₁⟩
    · cases T with
      | array _ _ _ => exact absurd rfl hb
      | slice _ _ => exact absurd rfl hb
      | chan _ dir _ => cases dir <;> exact ⟨rfl, rfl⟩
      | _ => exact ⟨rfl, rfl⟩

theorem atNamedParam_of_anonymous {ellipsis : Option Span} {T : TypeExpr}
    (hT : ∀ S ∈ T.parts, S.Canonical m) (hp : ellipsis = none → T.plainName? = none)
    (h : Spells c.rest (renderMark .ellipsis ellipsis ++ T.render m) ms) (hms : Stops ms) :
    c.atBareParam = false ∧ c.atNamedParam = false := by
  cases ellipsis with
  | some _ =>
    rw [atBareParam, atNamedParam, token?_of_spells h]
    exact ⟨rfl, rfl⟩
  | none =>
    have h : Spells c.rest (T.render m) ms := h
    cases T with
    | named _ pkg name args =>
      rw [TypeExpr.render, renderTypes_eq_map] at h
      cases pkg with
      | some pkg =>
        rw [atBareParam, atNamedParam, token?_of_spells h, second?_of_spells h]
        exact ⟨rfl, rfl⟩
      | none =>
        obtain ⟨_, _, hc, -, h₁⟩ := Spells.cons_iff.1 h
        have ht : c.token? = some (.ident name.text) := token?_of_spells h
        cases args with
        | nil => cases hp rfl
        | cons S args =>
          have hbal : ∀ x ∈ (S :: args).map (·.render m), Balanced x := fun x hx => by
            obtain ⟨S', hS', rfl⟩ := List.mem_map.1 hx
            exact (hT S' hS').balanced
          rw [atBareParam, atNamedParam, ht, second?_of_spells h, hc]
          exact ⟨rfl, bracketThenType_renderArgs hbal (List.cons_ne_nil _ _) h₁ hms⟩
    | chan _ dir _ =>
      cases dir <;> rw [atBareParam, atNamedParam, token?_of_spells h] <;> exact ⟨rfl, rfl⟩
    | _ =>
      rw [atBareParam, atNamedParam, token?_of_spells h]
      exact ⟨rfl, rfl⟩

theorem param_gives {p : Param} (hp : p.Proper m) (h : Spells c.rest (p.render m) ms)
    (hms : ListMarks.parenthesized.Ends ms) : c.param.Gives (fun q => q.unplaced = p.unplaced) ms := by
  rw [param]
  cases p with
  | bare name =>
    rw [if_pos (atBareParam_of_bare h hms)]
    exact (ident_gives _ h).map fun i _ hi => by rw [Param.unplaced, Param.unplaced, hi]
  | typed _ name ellipsis type =>
    obtain ⟨hT, ht, hplain⟩ := hp
    obtain ⟨here, below⟩ := hT
    cases name with
    | some name =>
      obtain ⟨hbare, hnamed⟩ := atNamedParam_of_named here h
      rw [if_neg (Bool.eq_false_iff.1 hbare), if_pos hnamed]
      obtain ⟨_, h₁, h₂⟩ := Spells.uncons h
      refine (ident_gives _ h₁).bind fun i d _ hi hd => ?_
      subst hd
      refine (paramType_gives ht h₂ hms.stops).map fun t _ ht' => ?_
      simp [Param.unplaced, hi, ht']
    | none =>
      obtain ⟨hbare, hnamed⟩ := atNamedParam_of_anonymous below (hplain rfl) h hms.stops
      rw [if_neg (Bool.eq_false_iff.1 hbare), if_neg (Bool.eq_false_iff.1 hnamed)]
      refine (paramType_gives ht h hms.stops).map fun t _ ht' => ?_
      simp [Param.unplaced, ht']

theorem params_gives {ps : List Param} (hp : ∀ p ∈ ps, p.Proper m)
    (h : Spells c.rest (listed .comma m.closing (ps.map (·.render m)) ++ [.punct .rparen]) rs) :
    c.params.Gives (fun q => q.1.map (·.unplaced) = ps.map (·.unplaced)) rs :=
  params_loop.gives Param.unplaced (fun p _ => p.render_eq_cons m)
    (fun p hmem _ _ => param_gives (hp p hmem)) h

theorem fieldList_gives {l : FieldList} (hl : l.Canonical)
    (hT : ∀ S ∈ l.types, S.Canonical m ∧ ReadsBack m S) (h : Spells c.rest (l.render m) rs) :
    c.fieldList.Gives (fun k => k.unplaced = l.unplaced) rs := by
  obtain ⟨_, fields, _⟩ := l
  rw [FieldList.render, renderFields_eq_map, listed_render_fields m m.closing hl.inParams] at h
  obtain ⟨_, h₁, h₂⟩ := Spells.uncons h
  rw [fieldList]
  refine (expect_gives _ h₁).bind fun _ d _ _ hd => ?_
  subst hd
  have hproper : ∀ p ∈ fields.flatMap Field.entries, p.Proper m := by
    intro p hp
    obtain ⟨f, hf, hpf⟩ := List.mem_flatMap.1 hp
    obtain ⟨hTf, htf⟩ := hT f.type (List.mem_map_of_mem hf)
    exact f.proper_of_mem_entries hTf htf p hpf
  refine (params_gives hproper h₂).andThen fun q e _ hq he => ?_
  obtain ⟨gs, hgs, hsame⟩ := Param.toFields_entries hl
  obtain ⟨fs, hfs, hsame'⟩ := Param.toFields_congr hq hgs
  rw [hfs]
  refine .ok ?_ he
  simp only [FieldList.unplaced, unplacedFields_eq_map, hsame', hsame]

theorem signature_gives {start : Nat} {s : Signature} (hs : s.Canonical)
    (hT : ∀ S ∈ s.types, S.Canonical m ∧ ReadsBack m S) (h : Spells c.rest (s.render m) rs)
    (hr : Stops rs) : (c.signature start).Gives (fun s' => s'.unplaced = s.unplaced) rs := by
  obtain ⟨_, params, results⟩ := s
  obtain ⟨_, h₁, h₂⟩ := Spells.append_iff.1 h
  simp only [Signature.types, List.mem_append] at hT
  rw [signature]
  refine (fieldList_gives hs.params (fun S hS => hT S (.inl hS)) h₁).andThen fun ps d _ hps hd => ?_
  subst hd
  cases results with
  | none =>
    obtain hd := Spells.nil_iff.1 h₂
    have hlparen : d.token? ≠ some (.punct .lparen) := by
      rw [token?, hd]
      exact hr.head?_ne (.inr rfl)
    have hstart : ¬ d.token?.any Token.startsType = true := by
      rw [token?, hd, Option.any_map]
      exact Bool.eq_false_iff.1 hr.any_startsType
    rw [if_neg hlparen, if_neg hstart]
    exact .ok (by simp [Signature.unplaced, Results.unplaced, hps]) hd
  | single T =>
    have h₃ : Spells d.rest (T.render m ++ []) rs := by rwa [List.append_nil]
    have htoken : d.token? = some T.head := T.head?_of_spells h₃
    have hlparen : d.token? ≠ some (.punct .lparen) := by
      rw [htoken]
      exact fun h' => T.head_ne_lparen hs.results (Option.some.inj h')
    rw [if_neg hlparen, if_pos (by rw [htoken]; exact T.head_startsType)]
    obtain ⟨-, ht⟩ := hT T (.inr (List.mem_singleton_self T))
    refine ((ht h₂ hr).after _).map fun t _ ht' => ?_
    simp [Signature.unplaced, Results.unplaced, hps, ht']
  | list fields =>
    have hlparen : d.token? = some (.punct .lparen) := by
      obtain ⟨_, _, _⟩ := fields
      exact token?_of_spells h₂
    rw [if_pos hlparen]
    refine ((fieldList_gives hs.results (fun S hS => hT S (.inr hS)) h₂).after _).map
      fun rs' _ hrs' => ?_
    simp [Signature.unplaced, Results.unplaced, hps, hrs']

end Cursor

open Cursor

theorem readsBack_func {span : Span} {s : Signature} (hs : s.Canonical)
    (hT : ∀ S ∈ s.types, S.Canonical m ∧ ReadsBack m S) : ReadsBack m (.func span s) := by
  intro c rs h hr
  rw [type_of_func (token?_of_spells h)]
  refine ((signature_gives hs hT (spells_advance h) hr).lift _).map fun s' _ hs' => ?_
  rw [TypeExpr.unplaced, TypeExpr.unplaced, hs']

end GoDecls.Tree
