/-
  The tokens of declarations of specs.

  * `SpecKind.IsSpec us`: the tokens are a spec wherever they stand;
  * `listing_of_specs`: what is read between parentheses are specs with semicolons;
  * `rows_of_decls`: the tokens of consecutive declarations of specs are declarations of
    the tokens of these.
-/
import GoDecls.Proofs.Tree.Rows
import GoDecls.Proofs.Tree.TypeEnds

namespace GoDecls.Tree

open Outcome Cursor

/-! ## Specs -/

namespace Cursor

variable {c : Cursor} {layout : Layout}

theorem stringLiteral_ends (what : String) : (c.stringLiteral what).Ending := by
  unfold stringLiteral
  split
  · next h => exact .token h rfl
  · next h => exact .token h rfl
  · exact .error

theorem past_importName? (c : Cursor) : ∃ ts, Past ts c c.importName?.2 := by
  unfold importName?
  split
  · next h => exact ⟨_, .advance h⟩
  · next h => exact ⟨_, .advance h⟩
  · exact ⟨_, .refl c⟩

theorem importSpec_ends (doc : Option Nat) : (c.importSpec doc).Ending := by
  obtain ⟨ts, hp⟩ := past_importName? c
  exact .map (.lift hp (stringLiteral_ends _))

theorem typeParams_moves : c.typeParams.Moves :=
  (typeParams_echo (k := False) (.of_tokens (rfl : c.tokens = c.tokens))).moves

theorem typeSpecTail_ends (doc : Option Nat) (name : Ident) (params : Option TypeParams) :
    (c.typeSpecTail layout doc name params).Ending := by
  unfold typeSpecTail
  split
  · next h => exact .map (.advance h (type_ends _))
  · exact .map (type_ends _)

theorem typeSpec_ends (doc : Option Nat) : (c.typeSpec layout doc).Ending := by
  unfold typeSpec
  refine .bind (ident_ends _).moves fun name d _ => ?_
  split
  · exact .bind typeParams_moves fun ps e _ => typeSpecTail_ends doc name _
  · exact typeSpecTail_ends doc name none

end Cursor

namespace SpecKind

variable {k : SpecKind} {layout : Layout} {doc : Option Nat} {c d : Cursor} {v : k.Spec}
  {m : d.left < c.left}

theorem read_ends (k : SpecKind) (layout : Layout) (doc : Option Nat) (c : Cursor) :
    (k.read layout doc c).Ending := by
  cases k with
  | import_ => exact importSpec_ends doc
  | type => exact typeSpec_ends doc

/-- The tokens are a spec: they are read as one wherever they stand, and a statement may
    end behind them. -/
structure IsSpec (k : SpecKind) (us : List Lexeme) : Prop where
  readable : k.Readable (us.map Lexeme.token)
  ends : ∃ init l, us = init ++ [l] ∧ l.token.endsStatement = true

/-- What a spec is read from. -/
theorem isSpec_of_read (h : k.read layout doc c = .ok v d m) (hd : Stops d.tokens) :
    ∃ us, c.rest = us ++ d.rest ∧ k.IsSpec us ∧ k.Reads layout us v := by
  obtain ⟨ts, t, hp, ht⟩ := read_ends k layout doc c v d m h
  have hsplit : c.rest = c.rest.take (ts ++ [t]).length ++ d.rest := by
    rw [hp.rest, List.take_append_drop]
  have htokens : (c.rest.take (ts ++ [t]).length).map Lexeme.token = ts ++ [t] := by
    have hall := hp.tokens
    rw [Cursor.tokens, hsplit, List.map_append] at hall
    exact List.append_cancel_right hall
  obtain ⟨init, last, hus, -, hlast⟩ := List.map_eq_append_iff.1 htokens
  obtain ⟨l, rfl, hl⟩ := List.map_eq_singleton_iff.1 hlast
  refine ⟨_, hsplit, ⟨?_, init, l, hus, by rwa [hl]⟩, doc, c, d, m, d.rest, hsplit, hd, h, rfl⟩
  rw [htokens]
  exact readable_of_read h hp.tokens rfl

end SpecKind

/-! ## Between parentheses -/

section

variable {k : SpecKind} {layout : Layout} {c d : Cursor}

theorem rest_of_token? {t : Token} (h : c.token? = some t) :
    ∃ l, c.rest = l :: c.advance.rest ∧ l.token = t := by
  obtain ⟨l, hl, hlt⟩ := Option.map_eq_some_iff.1 h
  obtain ⟨ls, hls⟩ := List.head?_eq_some_iff.1 hl
  exact ⟨l, by rw [rest_advance hls, hls], hlt⟩

theorem stops_of_token? {t : Token} (h : c.token? = some t)
    (ht : t = .punct .semi ∨ t = .punct .rparen) : SpecKind.Stops c.tokens := by
  intro u hu
  rw [Cursor.tokens, List.head?_map] at hu
  change c.token? = some u at hu
  rw [h] at hu
  rwa [← Option.some.inj hu]

/-- **Between parentheses** what is read are specs with semicolons between them. -/
theorem listing_of_specs (doc : Cursor → Option Nat) (c : Cursor) {d : Cursor}
    {p : List k.Spec × Span} {m : d.left < c.left}
    (h : specs (fun e => k.read layout (doc e) e) c = .ok p d m) :
    ∃ uss ts rp, c.rest = ts ++ rp :: d.rest ∧ rp.token = .punct .rparen ∧ Listing uss ts ∧
      (∀ us ∈ uss, k.IsSpec us) ∧ List.Forall₂ (k.Reads layout) uss p.1 := by
  obtain ⟨ht, rfl, rfl⟩ | ⟨-, ht, _, hread⟩ | ⟨-, v, e, m₁, m₂, hv, hmore⟩ :=
    (specs_loop _).ok_cases h
  · obtain ⟨rp, hrest, hrp⟩ := rest_of_token? ht
    exact ⟨[], [], rp, hrest, hrp, .nil, List.forall_mem_nil _, .nil⟩
  · have hlt := advance_lt ht
    obtain ⟨uss, ts, rp, hrest, hrp, hlisting, hspecs, hreads⟩ := listing_of_specs doc _ hread
    obtain ⟨l, hl, hlt⟩ := rest_of_token? ht
    exact ⟨uss, l :: ts, rp, by rw [hl, hrest]; rfl, hrp, .semi hlt hlisting, hspecs, hreads⟩
  obtain ⟨ht, rfl, rfl⟩ | ⟨ht, q, _, hq, rfl⟩ := ok_of_behind hmore
  · obtain ⟨us, hus, hspec, hread⟩ := SpecKind.isSpec_of_read hv (stops_of_token? ht (.inr rfl))
    obtain ⟨rp, hrest, hrp⟩ := rest_of_token? ht
    exact ⟨[us], us, rp, by rw [hus, hrest], hrp, .last, List.forall_mem_singleton.2 hspec,
      .cons hread .nil⟩
  · have hlt := advance_lt ht
    obtain ⟨us, hus, hspec, hread⟩ := SpecKind.isSpec_of_read hv (stops_of_token? ht (.inl rfl))
    obtain ⟨uss, ts, rp, hrest, hrp, hlisting, hspecs, hreads⟩ := listing_of_specs doc _ hq
    obtain ⟨l, hl, hlt⟩ := rest_of_token? ht
    refine ⟨us :: uss, us ++ l :: ts, rp, ?_, hrp, .cons hlt hlisting,
      List.forall_mem_cons.2 ⟨hspec, hspecs⟩, .cons hread hreads⟩
    rw [hus, hl, hrest, List.append_assoc]
    rfl
termination_by c.left
decreasing_by all_goals omega

/-! ## Declarations -/

theorem endDecl_ok {α : Type} {a b : α} {e : Cursor} {m₁ : e.left < c.left} {m : d.left < c.left}
    (h : endDecl a e m₁ = .ok b d m) : b = a ∧ Terminal e.rest ∧ d.rest = e.rest.tail := by
  unfold endDecl at h
  split at h
  · next ht =>
    have hnil : e.rest = [] := List.head?_eq_none_iff.1 (Option.map_eq_none_iff.1 ht)
    rw [hnil]
    cases h
    exact ⟨rfl, by rintro _ ⟨⟩, hnil⟩
  · next ht =>
    cases h
    obtain ⟨l, hl, hlt⟩ := rest_of_token? ht
    rw [hl]
    refine ⟨rfl, ?_, rfl⟩
    rintro _ ⟨⟩
    exact hlt
  · cases h

theorem Terminal.stops {x : List Lexeme} (h : Terminal x) :
    SpecKind.Stops (x.map Lexeme.token) := by
  intro t ht
  rw [List.head?_map] at ht
  obtain ⟨l, hl, rfl⟩ := Option.map_eq_some_iff.1 ht
  exact .inl (h l hl)

/-- What a declaration of specs is read from. -/
theorem rows_of_specDecl {p : DeclHead × List k.Spec} {m : d.left < c.left}
    (hkw : c.token? = some (.keyword k.keyword))
    (h : c.specDecl layout (k.read layout) = .ok p d m) : ∃ uss ts x, c.rest = ts ++ x ∧
      Rows k uss ts ∧ Terminal x ∧ d.rest = x.tail ∧ (∀ us ∈ uss, k.IsSpec us) ∧
      List.Forall₂ (k.Reads layout) uss p.2 := by
  obtain ⟨kw, hc, hkw⟩ := rest_of_token? hkw
  unfold specDecl at h
  dsimp only at h
  split at h
  · next hlparen =>
    obtain ⟨q, e, m₁, hq, h⟩ := ok_of_andThen h
    obtain ⟨_, hq⟩ := ok_of_lift hq
    obtain ⟨_, hq⟩ := ok_of_lift hq
    obtain ⟨rfl, hterminal, hd⟩ := endDecl_ok h
    obtain ⟨lp, hlp, hlpt⟩ := rest_of_token? hlparen
    obtain ⟨uss, ts, rp, hrest, hrp, hlisting, hspecs, hreads⟩ := listing_of_specs _ _ hq
    refine ⟨uss, _, e.rest, ?_, .group hkw hlpt hrp hlisting, hterminal, hd, hspecs, hreads⟩
    rw [hc, hlp, hrest]
    simp
  · obtain ⟨v, e, m₁, hv, h⟩ := ok_of_andThen h
    obtain ⟨_, hv⟩ := ok_of_lift hv
    obtain ⟨rfl, hterminal, hd⟩ := endDecl_ok h
    obtain ⟨us, hus, hspec, hread⟩ := SpecKind.isSpec_of_read hv hterminal.stops
    exact ⟨[us], kw :: us, e.rest, by rw [hc, hus]; rfl, .single hkw, hterminal, hd,
      List.forall_mem_singleton.2 hspec, .cons hread .nil⟩

/-- A declaration of specs is read at its keyword. -/
theorem specDecl_of_decl {r : DeclHead × List k.Spec} {m : d.left < c.left}
    (h : c.decl layout = .ok (k.toDecl r.1 r.2) d m) : c.token? = some (.keyword k.keyword) ∧
      c.specDecl layout (k.read layout) = .ok r d m := by
  cases k with
  | import_ =>
    unfold decl at h
    dsimp only at h
    split at h
    · next ht =>
      obtain ⟨q, hq, heq⟩ := ok_of_map h
      obtain ⟨hhead, hspecs⟩ := Decl.imports.inj heq
      obtain rfl : r = q := Prod.ext hhead hspecs
      exact ⟨ht, hq⟩
    · obtain ⟨_, -, heq⟩ := ok_of_map h
      cases heq
    all_goals cases h
  | type =>
    unfold decl at h
    dsimp only at h
    split at h
    · obtain ⟨_, -, heq⟩ := ok_of_map h
      cases heq
    · next ht =>
      obtain ⟨q, hq, heq⟩ := ok_of_map h
      obtain ⟨hhead, hspecs⟩ := Decl.types.inj heq
      obtain rfl : r = q := Prod.ext hhead hspecs
      exact ⟨ht, hq⟩
    all_goals cases h

/-- **The tokens of consecutive declarations of specs** are declarations of the tokens of
    the specs. -/
theorem rows_of_decls (c : Cursor) (hfaults : (c.decls layout).2 = [])
    {r : DeclHead × List k.Spec} {rows : List (DeclHead × List k.Spec)} {ds : List Decl}
    (h : (c.decls layout).1 = (r :: rows).map (fun r => k.toDecl r.1 r.2) ++ ds) :
    ∃ semis uss ts x, c.rest = semis ++ (ts ++ x) ∧ (∀ l ∈ semis, l.token = .punct .semi) ∧
      Rows k uss ts ∧ Terminal x ∧ (∀ us ∈ uss, k.IsSpec us) ∧
      List.Forall₂ (k.Reads layout) uss ((r :: rows).flatMap (·.2)) ∧
      ∀ l ∈ ts.head?, l.span.start = (k.toDecl r.1 r.2).start := by
  obtain ⟨ht, hdecls⟩ | ⟨ht, hdecls⟩ | ⟨d, next, m, hd⟩ := decls_cases hfaults
  · rw [hdecls] at h
    cases h
  · have hlt := advance_lt ht
    rw [hdecls] at h hfaults
    obtain ⟨semis, uss, ts, x, hrest, hsemis, hmore⟩ := rows_of_decls c.advance hfaults h
    obtain ⟨l, hl, hlt⟩ := rest_of_token? ht
    exact ⟨l :: semis, uss, ts, x, by rw [hl, hrest]; rfl,
      List.forall_mem_cons.2 ⟨hlt, hsemis⟩, hmore⟩
  · rw [decls_of_decl hd] at h hfaults
    obtain ⟨rfl, hds⟩ := List.cons.inj h
    obtain ⟨hkw, hspecDecl⟩ := specDecl_of_decl hd
    obtain ⟨uss, ts, x, hrest, hrows, hterminal, hnext, hspecs, hreads⟩ :=
      rows_of_specDecl hkw hspecDecl
    have hstart : ∀ l ∈ ts.head?, l.span.start = (k.toDecl r.1 r.2).start := by
      obtain ⟨kw, ls, rfl, -⟩ := hrows.head?
      rintro _ ⟨⟩
      rw [decl_start hd, start, span, hrest]
      rfl
    cases rows with
    | nil =>
      refine ⟨[], uss, ts, x, hrest, List.forall_mem_nil _, hrows, hterminal, hspecs, ?_, hstart⟩
      rwa [List.flatMap_singleton]
    | cons r' rows =>
      obtain ⟨semis, uss', ts', x', hrest', hsemis, hrows', hterminal', hspecs', hreads', -⟩ :=
        rows_of_decls next hfaults hds
      obtain ⟨kw', ls', rfl, -⟩ := hrows'.head?
      cases x with
      | nil =>
        rw [hnext] at hrest'
        simp at hrest'
      | cons l x =>
        obtain rfl : next.rest = x := hnext
        have hsemi := hterminal l rfl
        refine ⟨[], uss ++ uss', _, x', ?_, List.forall_mem_nil _,
          .append hrows (List.cons_ne_nil l semis) (List.forall_mem_cons.2 ⟨hsemi, hsemis⟩) hrows',
          hterminal', List.forall_mem_append.2 ⟨hspecs, hspecs'⟩, ?_, ?_⟩
        · rw [hrest, hrest']
          simp
        · rw [List.flatMap_cons]
          exact List.rel_append hreads hreads'
        · obtain ⟨kw, ls, rfl, -⟩ := hrows.head?
          exact hstart
termination_by c.left

/-- The declarations of a cursor from one of them on are those of a later cursor. -/
theorem decls_from (c : Cursor) (hfaults : (c.decls layout).2 = []) {ds es : List Decl}
    (h : (c.decls layout).1 = ds ++ es) :
    ∃ b us, Past us c b ∧ (b.decls layout).1 = es ∧ (b.decls layout).2 = [] := by
  cases ds with
  | nil => exact ⟨c, [], .refl c, h, hfaults⟩
  | cons d ds =>
    obtain ⟨ht, hdecls⟩ | ⟨ht, hdecls⟩ | ⟨d', next, m, hd⟩ := decls_cases hfaults
    · rw [hdecls] at h
      cases h
    · have hlt := advance_lt ht
      rw [hdecls] at h hfaults
      obtain ⟨b, us, hp, hb⟩ := decls_from c.advance hfaults h
      exact ⟨b, _, (Past.advance ht).trans hp, hb⟩
    · rw [decls_of_decl hd] at h hfaults
      obtain ⟨-, hds⟩ := List.cons.inj h
      obtain ⟨b, us, hp, hb⟩ := decls_from next hfaults hds
      obtain ⟨ts, -, -, -, -, -, -, hq, -⟩ := decl_echo (k := True) (.any layout layout)
        (.of_tokens rfl) (solid_any _ c) rfl d' next m hd (Nat.zero_le _)
      exact ⟨b, _, hq.trans hp, hb⟩
termination_by c.left

end

end GoDecls.Tree
