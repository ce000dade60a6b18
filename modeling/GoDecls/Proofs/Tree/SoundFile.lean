/-
  Files that are read from a text.

  * `Decl.Sound text ts d`: the names and types of the declaration are sound, and
    every path that it imports is a string literal among the tokens;
  * `SourceFile.sound_ofText`: in the tree of a text every declaration is sound;
  * `SourceFile.lists_ofText`: every list of parameters or results in it is as the
    reader of these lists ensures.
-/
import GoDecls.Proofs.Token.Account
import GoDecls.Proofs.Tree.SoundTypes
import GoDecls.Tree.File

namespace GoDecls.Tree

open Scan Text

variable {text : List Char} {ts : List Lexeme}

/-- The path is a string literal among the tokens. -/
def ImportSpec.HasLiteral (ts : List Lexeme) (s : ImportSpec) : Prop :=
  ∃ l ∈ ts, l.token.isString = true ∧ l.span = s.path

/-- The types in the constraint are sound. -/
def TypeParam.Sound (text : List Char) (p : TypeParam) : Prop :=
  ∀ t ∈ p.constraint, t.type.Sound text

/-- The declared name is one; the declared type is sound, and so are its type
    parameters. -/
structure TypeSpec.Sound (text : List Char) (s : TypeSpec) : Prop where
  name : IsName s.name.text.toList
  type : s.type.Sound text
  typeParams : ∀ ps ∈ s.typeParams, ∀ p ∈ ps.params, p.Sound text

/-- What the declaration declares is sound, and the paths it imports are literals. -/
def Decl.Sound (text : List Char) (ts : List Lexeme) : Decl → Prop
  | .imports _ specs => ∀ s ∈ specs, s.HasLiteral ts
  | .types _ specs => ∀ s ∈ specs, s.Sound text
  | _ => True

/-! ## Lists in declarations -/

/-- The declared name is one, and the types are sound, with the property for all lists
    in them. -/
structure TypeSpec.SoundWith (text : List Char) (L : FieldList → Prop) (s : TypeSpec) : Prop where
  name : IsName s.name.text.toList
  types : ∀ T ∈ s.types, T.SoundWith text L

/-- The declaration is sound, and all lists in its types have the property. -/
structure Decl.SoundWith (text : List Char) (ts : List Lexeme) (L : FieldList → Prop)
    (d : Decl) : Prop where
  sound : d.Sound text ts
  types : ∀ T ∈ d.parts, T.SoundWith text L

variable {L : FieldList → Prop}

theorem TypeExpr.SoundWith.sound {T : TypeExpr} (h : T.SoundWith text L) : T.Sound text :=
  h.imp fun _ => And.left

theorem TypeSpec.SoundWith.sound {s : TypeSpec} (h : s.SoundWith text L) : s.Sound text where
  name := h.name
  type := (h.types _ List.mem_cons_self).sound
  typeParams ps hps p hp t ht :=
    (h.types t.type (List.mem_cons_of_mem _ (List.mem_flatMap.2 ⟨ps, Option.mem_toList.2 hps,
      List.mem_flatMap.2 ⟨p, hp, List.mem_map_of_mem ht⟩⟩))).sound

namespace Cursor

open Outcome

variable {c : Cursor}

/-! ## Specs -/

theorem typeParam_ensures (hts : Grounded text ts) (hL : ListsEnsured ts L) (hc : c.rest <:+ ts) :
    c.typeParam.Ensures ts fun p => ∀ T ∈ p.types, T.SoundWith text L := by
  unfold typeParam
  refine (names_ensures hts hc _).bind fun _ d _ _ hd => ?_
  exact (union_ensures hts hL d hd).map fun _ _ hterms => List.forall_mem_map.2 hterms

theorem typeParamList_ensures (hts : Grounded text ts) (hL : ListsEnsured ts L) (c : Cursor)
    (hc : c.rest <:+ ts) : c.typeParamList.Ensures ts fun ps =>
      ∀ p ∈ ps, ∀ T ∈ p.types, T.SoundWith text L :=
  typeParamList_loop.ensures c hc fun _ _ hd => typeParam_ensures hts hL hd

theorem typeParams_ensures (hts : Grounded text ts) (hL : ListsEnsured ts L) (hc : c.rest <:+ ts) :
    c.typeParams.Ensures ts fun ps => ∀ p ∈ ps.params, ∀ T ∈ p.types, T.SoundWith text L := by
  unfold typeParams
  refine (expect_ensures hc _ _).bind fun _ d _ _ hd => ?_
  exact (typeParamList_ensures hts hL d hd).map fun _ _ hps => hps

theorem suffix_importName? (hc : c.rest <:+ ts) : c.importName?.2.rest <:+ ts := by
  unfold importName?
  split
  · exact suffix_advance hc
  · exact suffix_advance hc
  · exact hc

theorem stringLiteral_ensures (hc : c.rest <:+ ts) (what : String) :
    (c.stringLiteral what).Ensures ts fun p => ∃ l ∈ ts, l.token.isString = true ∧ l.span = p := by
  unfold stringLiteral
  split
  · next h =>
    obtain ⟨l, hl, htoken, hspan⟩ := mem_of_token? hc h
    exact .ok ⟨l, hl, by rw [htoken]; rfl, hspan⟩ (suffix_advance hc)
  · next h =>
    obtain ⟨l, hl, htoken, hspan⟩ := mem_of_token? hc h
    exact .ok ⟨l, hl, by rw [htoken]; rfl, hspan⟩ (suffix_advance hc)
  · exact fails_ensures what

theorem importSpec_ensures (doc : Option Nat) (hc : c.rest <:+ ts) :
    (c.importSpec doc).Ensures ts (·.HasLiteral ts) :=
  (stringLiteral_ensures (suffix_importName? hc) _).lift.map fun _ _ h => h

theorem typeSpecTail_ensures (hts : Grounded text ts) (hL : ListsEnsured ts L) (layout : Layout)
    (doc : Option Nat) {name : Ident} (hname : IsName name.text.toList)
    {params : Option TypeParams}
    (hparams : ∀ ps ∈ params, ∀ p ∈ ps.params, ∀ T ∈ p.types, T.SoundWith text L)
    (hc : c.rest <:+ ts) :
    (c.typeSpecTail layout doc name params).Ensures ts (·.SoundWith text L) := by
  have htypes : ∀ T ∈ params.toList.flatMap fun ps => ps.params.flatMap TypeParam.types,
      T.SoundWith text L :=
    List.forall_mem_flatMap.2 fun ps hps =>
      List.forall_mem_flatMap.2 (hparams ps (Option.mem_toList.1 hps))
  unfold typeSpecTail
  split
  · exact (type_ensures hts hL c.advance (suffix_advance hc)).lift.map fun _ _ htype =>
      ⟨hname, List.forall_mem_cons.2 ⟨htype, htypes⟩⟩
  · exact (type_ensures hts hL c hc).map fun _ _ htype =>
      ⟨hname, List.forall_mem_cons.2 ⟨htype, htypes⟩⟩

theorem typeSpec_ensures (hts : Grounded text ts) (hL : ListsEnsured ts L) (layout : Layout)
    (doc : Option Nat) (hc : c.rest <:+ ts) :
    (c.typeSpec layout doc).Ensures ts (·.SoundWith text L) := by
  unfold typeSpec
  refine (ident_ensures hts hc _).bind fun name d _ hname hd => ?_
  split
  · refine (typeParams_ensures hts hL hd).bind fun ps e _ hps he => ?_
    refine typeSpecTail_ensures hts hL layout doc hname ?_ he
    rintro _ ⟨⟩
    exact hps
  · exact typeSpecTail_ensures hts hL layout doc hname nofun hd

/-! ## Declarations -/

section

variable {α : Type} {P : α → Prop}

theorem specs_ensures {spec : (c : Cursor) → Outcome α c}
    (hspec : ∀ c : Cursor, c.rest <:+ ts → (spec c).Ensures ts P) (c : Cursor)
    (hc : c.rest <:+ ts) : (specs spec c).Ensures ts fun p => ∀ s ∈ p.1, P s :=
  (specs_loop spec).ensures c hc fun d _ => hspec d

theorem endDecl_ensures {a : α} {d : Cursor} {m : d.left < c.left} (ha : P a) (hd : d.rest <:+ ts) :
    (endDecl a d m).Ensures ts P := by
  unfold endDecl
  split
  · exact .ok ha hd
  · exact .ok ha (suffix_advance hd)
  · exact (fails_ensures _).after

theorem specDecl_ensures (layout : Layout) {spec : Option Nat → (c : Cursor) → Outcome α c}
    (hspec : ∀ doc, ∀ c : Cursor, c.rest <:+ ts → (spec doc c).Ensures ts P) (hc : c.rest <:+ ts) :
    (c.specDecl layout spec).Ensures ts fun p => ∀ s ∈ p.2, P s := by
  unfold specDecl
  dsimp only
  split
  · have hmore := specs_ensures (fun e he => hspec (layout.docFor? e.start) e he) c.advance.advance
      (suffix_advance (suffix_advance hc))
    exact hmore.lift.lift.andThen fun _ _ _ hs he => endDecl_ensures hs he
  · exact (hspec none c.advance (suffix_advance hc)).lift.andThen fun _ _ _ hs he =>
      endDecl_ensures (List.forall_mem_singleton.2 hs) he

end

theorem decl_ensures (hts : Grounded text ts) (hL : ListsEnsured ts L) (layout : Layout)
    (hc : c.rest <:+ ts) : (c.decl layout).Ensures ts (·.SoundWith text ts L) := by
  unfold decl
  dsimp only
  split
  · exact (specDecl_ensures layout (fun doc _ => importSpec_ensures doc) hc).map fun _ _ h =>
      ⟨h, List.forall_mem_nil _⟩
  · exact (specDecl_ensures layout (fun doc _ => typeSpec_ensures hts hL layout doc) hc).map
      fun _ _ h => ⟨fun s hs => (h s hs).sound,
        List.forall_mem_flatMap.2 fun s hs => (h s hs).types⟩
  · exact .ok ⟨trivial, List.forall_mem_nil _⟩ (suffix_skip hc _)
  · exact .ok ⟨trivial, List.forall_mem_nil _⟩ (suffix_skip hc _)
  · exact .ok ⟨trivial, List.forall_mem_nil _⟩ (suffix_skip hc _)
  · exact fails_ensures _

/-! ## Files -/

/-- Declarations that are read without a diagnostic are sound. -/
theorem decls_sound (hts : Grounded text ts) (hL : ListsEnsured ts L) (layout : Layout)
    (c : Cursor) (hc : c.rest <:+ ts) (hfaults : (c.decls layout).2 = []) :
    ∀ d ∈ (c.decls layout).1, d.SoundWith text ts L := by
  rw [decls] at hfaults ⊢
  split at hfaults
  · exact List.forall_mem_nil _
  · exact decls_sound hts hL layout c.advance (suffix_advance hc) hfaults
  · split at hfaults
    · next d next m h =>
      obtain ⟨hd, hnext⟩ := decl_ensures hts hL layout hc _ _ _ h
      exact List.forall_mem_cons.2 ⟨hd, decls_sound hts hL layout next hnext hfaults⟩
    · cases hfaults
termination_by c.left
decreasing_by
  · exact advance_lt ‹_›
  · assumption

theorem packageClause_ensures (hts : Grounded text ts) (hc : c.rest <:+ ts) :
    c.packageClause.Ensures ts fun _ => True := by
  unfold packageClause
  refine (expect_ensures hc _ _).bind fun _ d _ _ hd => ?_
  exact (ident_ensures hts hd _).andThen fun _ _ _ _ he => endDecl_ensures trivial he

end Cursor

open Cursor

theorem SourceFile.sound_read (hts : Grounded text ts) (hL : ListsEnsured ts L) (layout : Layout)
    {c : Cursor} (hc : c.rest <:+ ts) (hfaults : (SourceFile.read layout c).2 = []) :
    ∀ d ∈ (SourceFile.read layout c).1.decls, d.SoundWith text ts L := by
  unfold SourceFile.read at hfaults ⊢
  dsimp only at hfaults ⊢
  split at hfaults
  · next keyword name next m h =>
    exact decls_sound hts hL layout next (packageClause_ensures hts hc _ _ _ h).2 hfaults
  · cases hfaults

/-! ## The tokens of a text -/

/-- The tokens of a text stand in it. -/
theorem grounded_run (text : List Char) : Grounded text (Lexer.ofText text).run.1 := by
  obtain ⟨hordered, hwithin⟩ := (Lexer.ofText text).run_ordered
  constructor
  case name =>
    intro l hl s htoken
    have htext : l.token.text? = some s := by rw [htoken]; rfl
    obtain ⟨g, hg, hident, -⟩ := segment_of_text? hl htext
    exact isName_of_token? hg (htoken ▸ hident)
  case stretch =>
    intro ls hls hne hlimit
    obtain ⟨l, ls, rfl⟩ := List.exists_cons_of_ne_nil hne
    have hmem : ∀ m ∈ l :: ls, m ∈ (Lexer.ofText text).run.1 := fun m hm => hls.subset hm
    have hpairs := List.pairwise_cons.1 (hordered.sublist hls.sublist)
    have hlast := List.getLast_mem (List.cons_ne_nil l ls)
    have hle : l.start ≤ ((l :: ls).getLast (List.cons_ne_nil l ls)).stop := by
      have hfirst := (hwithin l (hmem l List.mem_cons_self)).2.1
      rcases List.mem_cons.1 hlast with h | h
      · rwa [h]
      · have := hpairs.1 _ h
        have := (hwithin _ (hmem _ hlast)).2.1
        omega
    have hstart := (boundary_of_mem_run (hmem l List.mem_cons_self)).1
    have hstop := (boundary_of_mem_run (hmem _ hlast)).2
    rw [stretch, Span.text?, Span.ofOffsets_of_le (Nat.le_trans hstart.le hlimit)
      (Nat.le_trans hstop.le hlimit)]
    exact slice?_isSome hstart hstop hle

theorem SourceFile.soundWith_ofText {file : SourceFile}
    (hL : ListsEnsured (Lexer.ofText text).run.1 L) (h : SourceFile.ofText text = .ok file) :
    ∀ d ∈ file.decls, d.SoundWith text (Lexer.ofText text).run.1 L := by
  unfold SourceFile.ofText at h
  dsimp only at h
  split at h
  · split at h
    · next hfaults =>
      cases h
      exact SourceFile.sound_read (grounded_run text) hL _ (List.suffix_refl _)
        (List.isEmpty_iff.1 hfaults)
    · cases h
  · cases h

/-- **In the tree of a text every declaration is sound.** -/
theorem SourceFile.sound_ofText {file : SourceFile} (h : SourceFile.ofText text = .ok file) :
    ∀ d ∈ file.decls, d.Sound text (Lexer.ofText text).run.1 := by
  have hL : ListsEnsured (Lexer.ofText text).run.1 fun _ => True := fun _ _ _ _ _ _ => trivial
  exact fun d hd => (SourceFile.soundWith_ofText hL h d hd).sound

/-- **In the tree of a text every list is as its reader ensures.** -/
theorem SourceFile.lists_ofText {file : SourceFile} (hL : ListsEnsured (Lexer.ofText text).run.1 L)
    (h : SourceFile.ofText text = .ok file) :
    ∀ d ∈ file.decls, ∀ T ∈ d.parts, T.Everywhere fun S => ∀ l ∈ S.lists, L l :=
  fun d hd T hT => ((SourceFile.soundWith_ofText hL h d hd).types T hT).imp fun _ => And.right

end GoDecls.Tree
