/-
  Specs one behind the other, in declarations of their own or several between
  parentheses.

  * `SpecKind`: the kinds of declarations that hold specs;
  * `Listing uss ts`: between parentheses the tokens `ts` are the specs `uss` with
    semicolons; `Rows k uss ts`: the tokens are declarations of these specs;
  * `specs_of_listing`, `decls_of_rows`: they are read as these specs, however these are
    grouped;
  * `Regrouped σ ds ds'`: the declarations hold the same specs in other groups;
    `SourceFile.read_regrouped`: those of a file do, if the tokens of some of them are
    others of the same specs.
-/
import GoDecls.Proofs.Tree.EncloseFile

namespace GoDecls.Tree

open Outcome Cursor

/-! ## Kinds of specs -/

/-- The kinds of declarations that hold specs. -/
inductive SpecKind where
  | import_
  | type
deriving DecidableEq, Repr

namespace SpecKind

/-- The keyword of the declarations. -/
def keyword : SpecKind → Keyword
  | .import_ => .import_
  | .type => .type

/-- The specs of the kind. -/
def Spec : SpecKind → Type
  | .import_ => ImportSpec
  | .type => TypeSpec

/-- The declaration of specs. -/
def toDecl : (k : SpecKind) → DeclHead → List k.Spec → Decl
  | .import_ => .imports
  | .type => .types

/-- Reads a spec with the given doc comment. -/
def read (layout : Layout) : (k : SpecKind) → Option Nat → (c : Cursor) → Outcome k.Spec c
  | .import_ => importSpec
  | .type => typeSpec layout

/-- The specs are the same but for places. -/
def Alike (σ : Span → Span → Prop) (γ : Option Nat → Option Nat → Prop) :
    (k : SpecKind) → k.Spec → k.Spec → Prop
  | .import_ => ImportSpec.Alike σ
  | .type => TypeSpec.Alike σ True γ

variable {k : SpecKind} {σ : Span → Span → Prop} {ω : Lexeme → Prop}
  {γ : Option Nat → Option Nat → Prop} {layout layout' : Layout} {doc doc' : Option Nat}
  {c c' d : Cursor} {m : d.left < c.left} {v : k.Spec} {x x' ts : List Token}

theorem decl_eq (h : c.token? = some (.keyword k.keyword)) :
    c.decl layout = (c.specDecl layout (k.read layout)).map fun p _ => k.toDecl p.1 p.2 := by
  cases k with
  | import_ =>
    unfold decl
    rw [keyword] at h
    split <;> first | rfl | simp_all
  | type => exact decl_of_type h

/-- What may follow a spec stands in front, or nothing. -/
def Stops (x : List Token) : Prop := ∀ t ∈ x.head?, t = .punct .semi ∨ t = .punct .rparen

/-- A spec is read alike before anything that may follow one. -/
theorem read_echo (hl : SameGroups σ ω γ layout layout') (hm : Meets σ x x' c c')
    (hc : c.Solid ω x) (hx : Stops x') (doc doc' : Option Nat) :
    (k.read layout doc c).Echoes x (fun _ => True) (k.Alike σ γ) (k.read layout' doc' c') := by
  cases k with
  | import_ => exact importSpec_echo hm doc doc'
  | type =>
    refine typeSpec_echo hl doc doc' hm hc (.inr fun t ht => ?_)
    rcases hx t ht with rfl | rfl
    · exact not_or.2 ⟨nofun, nofun⟩
    · exact not_or.2 ⟨nofun, nofun⟩

/-- A spec begins with neither a semicolon nor a parenthesis. -/
def Begins (t : Token) : Prop :=
  t ≠ .punct .semi ∧ t ≠ .punct .lparen ∧ t ≠ .punct .rparen

theorem begins_of_stringLiteral {what : String} {s : Span}
    (h : c.stringLiteral what = .ok s d m) : ∃ t, c.token? = some t ∧ Begins t := by
  unfold stringLiteral at h
  split at h
  · next ht => exact ⟨_, ht, by simp [Begins]⟩
  · next ht => exact ⟨_, ht, by simp [Begins]⟩
  · cases h

theorem begins_of_importName? (c : Cursor) :
    (∃ t, c.token? = some t ∧ Begins t) ∨ c.importName?.2 = c := by
  unfold importName?
  split
  · next ht => exact .inl ⟨_, ht, by simp [Begins]⟩
  · next ht => exact .inl ⟨_, ht, by simp [Begins]⟩
  · exact .inr rfl

theorem begins_of_read (h : k.read layout doc c = .ok v d m) :
    ∃ t, c.token? = some t ∧ Begins t := by
  cases k with
  | import_ =>
    obtain ⟨path, hpath, -⟩ := ok_of_map h
    obtain ⟨_, hpath⟩ := ok_of_lift hpath
    have hbegins := begins_of_stringLiteral hpath
    rcases begins_of_importName? c with hname | hname
    · exact hname
    · rwa [hname] at hbegins
  | type =>
    obtain ⟨name, _, _, _, hname, -⟩ := ok_of_bind h
    unfold ident at hname
    split at hname
    · next ht => exact ⟨_, ht, by simp [Begins]⟩
    · cases hname

/-! ## Tokens of specs -/

/-- Wherever these tokens stand before what may follow a spec, they are read as one. -/
def Readable (k : SpecKind) (ts : List Token) : Prop :=
  ∀ (layout : Layout) (doc : Option Nat) (c : Cursor) (us y : List Lexeme),
    us.map Lexeme.token = ts → c.rest = us ++ y → Stops (y.map Lexeme.token) →
    (k.read layout doc c).Gives (fun _ => True) y

/-- The tokens are read as this spec. -/
def Reads (k : SpecKind) (layout : Layout) (us : List Lexeme) (v : k.Spec) : Prop :=
  ∃ (doc : Option Nat) (c d : Cursor) (m : d.left < c.left) (y : List Lexeme),
    c.rest = us ++ y ∧ Stops (y.map Lexeme.token) ∧ k.read layout doc c = .ok v d m ∧ d.rest = y

theorem past_of_tokens (hd : d.tokens = x) (hc : c.tokens = ts ++ x) {us : List Token}
    (hp : Past us c d) : us = ts := by
  have htokens := hp.tokens
  rw [hc, hd] at htokens
  exact (List.append_cancel_right htokens).symm

theorem rest_of_past {us y : List Lexeme} (hc : c.rest = us ++ y)
    (hp : Past (us.map Lexeme.token) c d) : d.rest = y := by
  rw [hp.rest, hc, List.length_map, List.drop_left]

/-- What is read as a spec at one place is so at all others. -/
theorem readable_of_read (h : k.read layout doc c = .ok v d m) (hc : c.tokens = ts ++ x)
    (hd : d.tokens = x) : k.Readable ts := by
  intro layout' doc' c' us y hus hc' hy
  have hm : Meets (fun _ _ => True) x (y.map Lexeme.token) c c' :=
    .of_front hc (by rw [Cursor.tokens, hc', List.map_append, hus])
  have hle : x.length ≤ d.left := Nat.le_of_eq (by rw [← length_tokens, hd])
  obtain ⟨ts', v', d', m', h', -, -, hp, hp'⟩ :=
    read_echo (.any layout layout') hm (solid_any _ c) hy doc doc' v d m h hle
  obtain rfl := past_of_tokens hd hc hp
  rw [← hus] at hp'
  exact ⟨v', d', m', h', trivial, rest_of_past hc' hp'⟩

theorem Readable.gives {us y : List Lexeme} (h : k.Readable (us.map Lexeme.token))
    (hc : c.rest = us ++ y) (hy : Stops (y.map Lexeme.token)) (layout : Layout)
    (doc : Option Nat) : (k.read layout doc c).Gives (k.Reads layout us) y := by
  obtain ⟨v, d, m, hv, -, hd⟩ := h layout doc c us y rfl hc hy
  exact ⟨v, d, m, hv, ⟨doc, c, d, m, y, hc, hy, hv, hd⟩, hd⟩

theorem Readable.begins {us : List Lexeme} (h : k.Readable (us.map Lexeme.token)) :
    ∃ l ls, us = l :: ls ∧ Begins l.token := by
  obtain ⟨v, d, m, hv, -, -⟩ := h ⟨[], [], []⟩ none ⟨us, 0, 0⟩ us [] rfl
    (List.append_nil us).symm nofun
  obtain ⟨t, ht, hbegins⟩ := begins_of_read hv
  obtain ⟨l, hl, rfl⟩ := Option.map_eq_some_iff.1 ht
  obtain ⟨ls, hls⟩ := List.head?_eq_some_iff.1 hl
  exact ⟨l, ls, hls, hbegins⟩

/-- The same tokens are read as specs that are alike. -/
theorem Reads.alike (hl : SameGroups σ (fun _ => True) γ layout layout') {us us' : List Lexeme}
    {v v' : k.Spec} (h : k.Reads layout us v) (h' : k.Reads layout' us' v')
    (htwins : Twins σ us us') : k.Alike σ γ v v' := by
  obtain ⟨doc, c, d, m, y, hc, -, hv, hd⟩ := h
  obtain ⟨doc', c', d', m', y', hc', hy', hv', -⟩ := h'
  have hm : Meets σ (y.map Lexeme.token) (y'.map Lexeme.token) c c' :=
    ⟨us, us', y, y', hc, hc', htwins, rfl, rfl⟩
  have hle : (y.map Lexeme.token).length ≤ d.left := by
    rw [List.length_map, ← hd]
    exact Nat.le_refl _
  obtain ⟨_, v'', _, _, hv'', halike, -⟩ :=
    read_echo hl hm (solid_any _ c) hy' doc doc' v d m hv hle
  rw [hv'] at hv''
  cases hv''
  exact halike

end SpecKind

/-! ## Between parentheses -/

/-- The tokens are those of the specs with semicolons between them, and any number of
    semicolons around them. -/
inductive Listing : List (List Lexeme) → List Lexeme → Prop where
  | nil : Listing [] []
  | semi {l : Lexeme} {uss : List (List Lexeme)} {ts : List Lexeme}
    (hl : l.token = .punct .semi) (h : Listing uss ts) : Listing uss (l :: ts)
  | last {us : List Lexeme} : Listing [us] us
  | cons {us : List Lexeme} {l : Lexeme} {uss : List (List Lexeme)} {ts : List Lexeme}
    (hl : l.token = .punct .semi) (h : Listing uss ts) : Listing (us :: uss) (us ++ l :: ts)

theorem Listing.semis {uss : List (List Lexeme)} {ss ts : List Lexeme} (h : Listing uss ts)
    (hss : ∀ l ∈ ss, l.token = .punct .semi) : Listing uss (ss ++ ts) := by
  induction ss with
  | nil => exact h
  | cons l ss ih =>
    obtain ⟨hl, hss⟩ := List.forall_mem_cons.1 hss
    exact .semi hl (ih hss)

section

variable {k : SpecKind} {uss : List (List Lexeme)} {ts us x : List Lexeme} {rp : Lexeme}
  {layout : Layout} {c : Cursor}

/-- **Specs between parentheses** are read up to the closing one. -/
theorem specs_of_listing (h : Listing uss ts)
    (hr : ∀ us ∈ uss, k.Readable (us.map Lexeme.token)) (hrp : rp.token = .punct .rparen)
    (layout : Layout) (doc : Cursor → Option Nat) : ∀ {c : Cursor}, c.rest = ts ++ rp :: x →
    (specs (fun e => k.read layout (doc e) e) c).Gives
      (fun p => List.Forall₂ (k.Reads layout) uss p.1) x := by
  induction h with
  | nil =>
    intro c hc
    have ht := token?_of_rest hc
    rw [hrp] at ht
    rw [(specs_loop _).at_close ht]
    exact .ok .nil (rest_advance hc)
  | @semi l uss ts hl _ ih =>
    intro c hc
    rw [List.cons_append] at hc
    have ht := token?_of_rest hc
    rw [hl] at ht
    rw [(specs_loop _).at_semi rfl ht]
    exact (ih hr (rest_advance hc)).lift _
  | @last us =>
    intro c hc
    have hus := hr us List.mem_cons_self
    obtain ⟨l, ls, rfl, hsemi, -, hclose⟩ := hus.begins
    rw [(specs_loop _).at_item (token?_of_rest hc) hclose fun _ => hsemi]
    refine (hus.gives hc ?_ layout _).bind fun v d m hv hd => ?_
    · rintro _ ⟨⟩
      exact .inr hrp
    · have ht := token?_of_rest hd
      rw [hrp] at ht
      rw [behind_of_close ht]
      exact .ok (.cons hv .nil) (rest_advance hd)
  | @cons us l uss ts hl _ ih =>
    intro c hc
    obtain ⟨hus, hmore⟩ := List.forall_mem_cons.1 hr
    obtain ⟨f, ls, rfl, hsemi, -, hclose⟩ := hus.begins
    rw [List.append_assoc, List.cons_append] at hc
    rw [(specs_loop _).at_item (token?_of_rest hc) hclose fun _ => hsemi]
    refine (hus.gives hc ?_ layout _).bind fun v d m hv hd => ?_
    · rintro _ ⟨⟩
      exact .inl hl
    · have ht := token?_of_rest hd
      rw [hl] at ht
      rw [behind_of_sep ht]
      exact ((ih hmore (rest_advance hd)).lift _).map fun p _ hp => .cons hv hp

end

/-! ## Declarations of specs -/

/-- The tokens are declarations of the specs, one behind the other, with semicolons
    between them. -/
inductive Rows (k : SpecKind) : List (List Lexeme) → List Lexeme → Prop where
  | single {kw : Lexeme} {us : List Lexeme} (hkw : kw.token = .keyword k.keyword) :
    Rows k [us] (kw :: us)
  | group {kw lp rp : Lexeme} {uss : List (List Lexeme)} {ts : List Lexeme}
    (hkw : kw.token = .keyword k.keyword) (hlp : lp.token = .punct .lparen)
    (hrp : rp.token = .punct .rparen) (h : Listing uss ts) :
    Rows k uss (kw :: lp :: (ts ++ [rp]))
  | append {uss uss' : List (List Lexeme)} {ts ss ts' : List Lexeme} (h : Rows k uss ts)
    (hne : ss ≠ []) (hss : ∀ l ∈ ss, l.token = .punct .semi) (h' : Rows k uss' ts') :
    Rows k (uss ++ uss') (ts ++ (ss ++ ts'))

theorem Rows.head? {k : SpecKind} {uss : List (List Lexeme)} {ts : List Lexeme}
    (h : Rows k uss ts) : ∃ kw ls, ts = kw :: ls ∧ kw.token = .keyword k.keyword := by
  induction h with
  | single hkw => exact ⟨_, _, rfl, hkw⟩
  | group hkw => exact ⟨_, _, rfl, hkw⟩
  | append _ _ _ _ ih _ =>
    obtain ⟨kw, ls, rfl, hkw⟩ := ih
    exact ⟨kw, _, rfl, hkw⟩

/-- A declaration may end before these tokens. -/
def Terminal (x : List Lexeme) : Prop := ∀ l ∈ x.head?, l.token = .punct .semi

theorem terminal_of_semis {ss : List Lexeme} (hne : ss ≠ [])
    (hss : ∀ l ∈ ss, l.token = .punct .semi) (x : List Lexeme) : Terminal (ss ++ x) := by
  cases ss with
  | nil => exact absurd rfl hne
  | cons l ss =>
    rintro _ ⟨⟩
    exact hss _ List.mem_cons_self

/-- From the cursor `c` up to `d` declarations are read that hold the specs `uss`, and
    have no doc comments. -/
structure RowsRead (k : SpecKind) (layout : Layout) (uss : List (List Lexeme))
    (rows : List (DeclHead × List k.Spec)) (c d : Cursor) : Prop where
  decls : (c.decls layout).1 = rows.map (fun r => k.toDecl r.1 r.2) ++ (d.decls layout).1
  faults : (c.decls layout).2 = (d.decls layout).2
  specs : List.Forall₂ (k.Reads layout) uss (rows.flatMap (·.2))
  docs : ∀ r ∈ rows, r.1.doc = none

section

variable {k : SpecKind} {uss uss' : List (List Lexeme)} {ts x : List Lexeme}
  {layout : Layout} {c d e : Cursor} {rows rows' : List (DeclHead × List k.Spec)}

theorem RowsRead.append (h : RowsRead k layout uss rows c d)
    (h' : RowsRead k layout uss' rows' d e) :
    RowsRead k layout (uss ++ uss') (rows ++ rows') c e where
  decls := by rw [h.decls, h'.decls, List.map_append, List.append_assoc]
  faults := h.faults.trans h'.faults
  specs := by
    rw [List.flatMap_append]
    exact List.rel_append h.specs h'.specs
  docs r hr := (List.mem_append.1 hr).elim (h.docs r) (h'.docs r)

theorem endDecl_of_terminal {α : Type} {a : α} {m : d.left < c.left} (hd : Terminal d.rest)
    (layout : Layout) : ∃ next m', (endDecl a d m : Outcome α c) = .ok a next m' ∧
      next.decls layout = d.decls layout := by
  unfold endDecl
  split
  · exact ⟨d, m, rfl, rfl⟩
  · next ht =>
    exact ⟨d.advance, Nat.lt_of_le_of_lt d.advance_le m, rfl, (decls_of_semi ht).symm⟩
  · next t ht hnone =>
    obtain ⟨l, hl, rfl⟩ := Option.map_eq_some_iff.1 hnone
    exact absurd (hd l hl) ht

/-- Semicolons before declarations are passed over. -/
theorem decls_of_semis {ss : List Lexeme} (hss : ∀ l ∈ ss, l.token = .punct .semi)
    (layout : Layout) : ∀ {c : Cursor}, c.rest = ss ++ x →
    ∃ d : Cursor, d.rest = x ∧ d.decls layout = c.decls layout := by
  induction ss with
  | nil =>
    intro c hc
    exact ⟨c, hc, rfl⟩
  | cons l ss ih =>
    intro c hc
    obtain ⟨hl, hss⟩ := List.forall_mem_cons.1 hss
    have ht := token?_of_rest hc
    rw [hl] at ht
    obtain ⟨d, hd, hdecls⟩ := ih hss (rest_advance hc)
    exact ⟨d, hd, hdecls.trans (decls_of_semi ht).symm⟩

theorem docFor?_eq_none (hlayout : layout.groups = []) (pos : Nat) : layout.docFor? pos = none := by
  rw [Layout.docFor?, hlayout]
  rfl

theorem lineCommentAfter?_eq_none (hlayout : layout.groups = []) (pos : Nat) :
    layout.lineCommentAfter? pos = none := by
  rw [Layout.lineCommentAfter?, hlayout]
  rfl

theorem sameGroups_of_none {σ : Span → Span → Prop} {ω : Lexeme → Prop} {layout' : Layout}
    (h : layout.groups = []) (h' : layout'.groups = []) :
    SameGroups σ ω Eq layout layout' where
  doc _ _ _ _ := by rw [docFor?_eq_none h, docFor?_eq_none h']
  line _ _ _ _ := by rw [lineCommentAfter?_eq_none h, lineCommentAfter?_eq_none h']

/-- A declaration of specs, read up to what may end it. -/
theorem rowsRead_of_gives (ht : c.token? = some (.keyword k.keyword))
    {o : Outcome (DeclHead × List k.Spec) c}
    (ho : o.Gives (fun p => p.1.doc = none ∧ List.Forall₂ (k.Reads layout) uss p.2) x)
    (hx : Terminal x)
    (hdecl : c.specDecl layout (k.read layout) = o.andThen fun p e m => endDecl p e m) :
    ∃ rows d, d.rest = x ∧ RowsRead k layout uss rows c d := by
  obtain ⟨p, e, m, rfl, ⟨hdoc, hspecs⟩, he⟩ := ho
  obtain ⟨next, m', hend, hnext⟩ := endDecl_of_terminal (a := p) (m := m) (he ▸ hx) layout
  have hread : c.decl layout = .ok (k.toDecl p.1 p.2) next m' := by
    rw [SpecKind.decl_eq ht, hdecl]
    change (endDecl p e m : Outcome _ c).map _ = _
    rw [hend]
    rfl
  refine ⟨[p], e, he, ⟨?_, ?_, ?_, ?_⟩⟩
  · rw [decls_of_decl hread, hnext]
    rfl
  · rw [decls_of_decl hread, hnext]
  · rw [List.flatMap_singleton]
    exact hspecs
  · rintro r hr
    rw [List.mem_singleton.1 hr]
    exact hdoc

/-- **Declarations of specs** are read as these specs, however they are grouped. -/
theorem decls_of_rows (hlayout : layout.groups = []) (h : Rows k uss ts)
    (hr : ∀ us ∈ uss, k.Readable (us.map Lexeme.token)) : ∀ {c : Cursor} {x : List Lexeme},
    c.rest = ts ++ x → Terminal x → ∃ rows d, d.rest = x ∧ RowsRead k layout uss rows c d := by
  induction h with
  | @single kw us hkw =>
    intro c x hc hx
    have ht := token?_of_rest hc
    have hd := rest_advance hc
    rw [hkw] at ht
    have hus := hr us List.mem_cons_self
    obtain ⟨l, ls, rfl, -, hopen, -⟩ := hus.begins
    have hgives := hus.gives hd (fun t ht => ?_) layout none
    · refine rowsRead_of_gives (o := ((k.read layout none c.advance).lift c.advance_le).map
        fun s _ => (⟨layout.docFor? c.start, c.span, none⟩, [s])) ht
        ((hgives.lift _).map fun s _ hs => ⟨docFor?_eq_none hlayout _, .cons hs .nil⟩) hx ?_
      have hne : c.advance.token? ≠ some (.punct .lparen) := by
        rw [token?_of_rest hd]
        exact fun h => hopen (Option.some.inj h)
      unfold specDecl
      dsimp only
      rw [if_neg hne]
      cases (k.read layout none c.advance).lift c.advance_le <;> rfl
    · obtain ⟨m, hm, rfl⟩ := Option.map_eq_some_iff.1 ((List.head?_map ..).symm.trans ht)
      exact .inl (hx m hm)
  | @group kw lp rp uss ts hkw hlp hrp hlisting =>
    intro c x hc hx
    rw [List.cons_append, List.cons_append, List.append_assoc] at hc
    have ht := token?_of_rest hc
    have hd := rest_advance hc
    rw [hkw] at ht
    have hlt := token?_of_rest hd
    rw [hlp] at hlt
    have he : c.advance.advance.rest = ts ++ rp :: x := rest_advance hd
    have hgives := specs_of_listing hlisting hr hrp layout
      (fun e => layout.docFor? e.start) he
    refine rowsRead_of_gives (o := (((specs (fun e => k.read layout (layout.docFor? e.start) e)
        c.advance.advance).lift c.advance.advance_le).lift c.advance_le).map fun more _ =>
      (⟨layout.docFor? c.start, c.span, some (c.advance.span, more.2)⟩, more.1)) ht
      (((hgives.lift _).lift _).map fun p _ hp => ⟨docFor?_eq_none hlayout _, hp⟩) hx ?_
    unfold specDecl
    dsimp only
    rw [if_pos hlt]
    generalize ((specs (fun e => k.read layout (layout.docFor? e.start) e)
      c.advance.advance).lift c.advance.advance_le).lift c.advance_le = o
    cases o <;> rfl
  | @append uss uss' ts ss ts' _ hne hss _ ih ih' =>
    intro c x hc hx
    obtain ⟨hr, hr'⟩ := List.forall_mem_append.1 hr
    rw [List.append_assoc, List.append_assoc] at hc
    obtain ⟨rows, d, hd, hread⟩ := ih hr hc (terminal_of_semis hne hss _)
    obtain ⟨e, he, hdecls⟩ := decls_of_semis hss layout hd
    obtain ⟨rows', f, hf, hread'⟩ := ih' hr' he hx
    refine ⟨_, f, hf, hread.append ⟨?_, ?_, hread'.specs, hread'.docs⟩⟩
    · rw [← hdecls, hread'.decls]
    · rw [← hdecls, hread'.faults]

end

/-! ## Files -/

/-- The declarations hold the same specs but for places, some of them in other groups;
    these have no doc comments. -/
inductive Regrouped (σ : Span → Span → Prop) : List Decl → List Decl → Prop where
  | intro {front front' back back' : List Decl} {k : SpecKind}
    {rows rows' : List (DeclHead × List k.Spec)}
    (hfront : List.Forall₂ (Decl.Alike σ True Eq) front front')
    (hrows : List.Forall₂ (k.Alike σ Eq) (rows.flatMap (·.2)) (rows'.flatMap (·.2)))
    (hdocs : ∀ r ∈ rows ++ rows', r.1.doc = none)
    (hback : List.Forall₂ (Decl.Alike σ True Eq) back back') :
    Regrouped σ (front ++ (rows.map (fun r => k.toDecl r.1 r.2) ++ back))
      (front' ++ (rows'.map (fun r => k.toDecl r.1 r.2) ++ back'))

section

variable {σ : Span → Span → Prop} {layout layout' : Layout} {k : SpecKind}

theorem keyword_of_specDecl {α : Type} {spec : Option Nat → (c : Cursor) → Outcome α c}
    {c d : Cursor} {p : DeclHead × List α} {m : d.left < c.left}
    (h : c.specDecl layout spec = .ok p d m) : p.1.keyword = c.span := by
  have hend {a p : DeclHead × List α} {e d : Cursor} {m₁ : e.left < c.left} {m : d.left < c.left}
      (h : endDecl a e m₁ = .ok p d m) : p = a := by
    unfold endDecl at h
    split at h
    · cases h
      rfl
    · cases h
      rfl
    · cases h
  unfold specDecl at h
  dsimp only at h
  split at h
  · obtain ⟨_, _, _, -, h⟩ := ok_of_andThen h
    rw [hend h]
  · obtain ⟨_, _, _, -, h⟩ := ok_of_andThen h
    rw [hend h]

theorem decl_start {c next : Cursor} {d : Decl} {m : next.left < c.left}
    (h : c.decl layout = .ok d next m) : d.start = c.start := by
  unfold decl at h
  dsimp only at h
  split at h
  · obtain ⟨p, hp, rfl⟩ := ok_of_map h
    rw [Decl.start, keyword_of_specDecl hp, start]
  · obtain ⟨p, hp, rfl⟩ := ok_of_map h
    rw [Decl.start, keyword_of_specDecl hp, start]
  · cases h
    rfl
  · cases h
    rfl
  · cases h
    exact Nat.min_eq_left c.start_le_limit
  · cases h

/-- **Up to a declaration the same are read** at a cursor with the same tokens up to
    there. -/
theorem decls_front (layout : Layout) (c : Cursor) (hfaults : (c.decls layout).2 = []) {d : Decl}
    (hd : d ∈ (c.decls layout).1) : ∃ b us ds, Past us c b ∧ b.start = d.start ∧
      (∃ k, b.token? = some (.keyword k)) ∧ (b.decls layout).2 = [] ∧
      (c.decls layout).1 = ds ++ (b.decls layout).1 ∧
      ∀ {σ : Span → Span → Prop} {layout' : Layout} {x' : List Token} {c' : Cursor},
        SameGroups σ (fun _ => True) Eq layout layout' → Meets σ b.tokens x' c c' →
        b.tokens.head? = x'.head? → ∃ b' ds', Past us c' b' ∧
          (c'.decls layout').1 = ds' ++ (b'.decls layout').1 ∧
          (c'.decls layout').2 = (b'.decls layout').2 ∧
          List.Forall₂ (Decl.Alike σ True Eq) ds ds' := by
  obtain ⟨ht, hdecls⟩ | ⟨ht, hdecls⟩ | ⟨d₀, next, m, hd₀⟩ := decls_cases hfaults
  · rw [hdecls] at hd
    cases hd
  · have hlt := advance_lt ht
    rw [hdecls] at hd hfaults ⊢
    obtain ⟨b, us, ds, hp, hstart, htoken, hb, hds, hsame⟩ :=
      decls_front layout c.advance hfaults hd
    refine ⟨b, _, ds, (Past.advance ht).trans hp, hstart, htoken, hb, hds, fun hl hm hx => ?_⟩
    have hleft := hp.left
    have hlt' : b.tokens.length < c.left := by
      rw [length_tokens]
      omega
    have ht' := (hm.token? hlt').trans ht
    obtain ⟨b', ds', hp', hds', hfaults', halike⟩ := hsame hl (hm.advance ht hlt') hx
    rw [decls_of_semi ht']
    exact ⟨b', ds', (Past.advance ht').trans hp', hds', hfaults', halike⟩
  · have htoken := token?_of_decl hd₀
    rw [decls_of_decl hd₀] at hd
    rcases List.mem_cons.1 hd with rfl | hd
    · exact ⟨c, [], [], .refl c, (decl_start hd₀).symm, htoken, hfaults, rfl,
        fun _ _ _ => ⟨_, [], .refl _, rfl, rfl, .nil⟩⟩
    · rw [decls_of_decl hd₀] at hfaults ⊢
      obtain ⟨b, us, ds, hp, hstart, htoken, hb, hds, hsame⟩ := decls_front layout next hfaults hd
      obtain ⟨ts, -, -, -, -, -, -, hq, -⟩ := decl_echo (k := True) (.any layout layout)
        (.of_tokens rfl) (solid_any _ c) rfl d₀ next m hd₀ (Nat.zero_le _)
      refine ⟨b, ts ++ us, d₀ :: ds, hq.trans hp, hstart, htoken, hb, by rw [hds]; rfl,
        fun hl hm hx => ?_⟩
      have hleft := hp.left
      have hle : b.tokens.length ≤ next.left := by
        rw [length_tokens]
        omega
      obtain ⟨ts', d', next', m', hd', halike₀, -, hq₁, hq'⟩ :=
        decl_echo (k := True) hl hm (solid_any _ c) hx d₀ next m hd₀ hle
      obtain rfl : ts = ts' := List.append_cancel_right (hq.tokens.symm.trans hq₁.tokens)
      obtain ⟨b', ds', hp', hds', hfaults', halike⟩ := hsame hl (hm.past hq hq' hle) hx
      rw [decls_of_decl hd']
      exact ⟨b', d' :: ds', hq'.trans hp', by rw [hds']; rfl, hfaults', .cons halike₀ halike⟩
termination_by c.left

/-- In tokens that start one behind the other, a start tells the place. -/
theorem append_inj_of_start {A B L M : List Lexeme} {l m : Lexeme}
    (hordered : (A ++ l :: L).Pairwise (·.start < ·.start)) (h : A ++ l :: L = B ++ m :: M)
    (hstart : l.start = m.start) : A = B ∧ l :: L = m :: M := by
  rcases List.append_eq_append_iff.1 h with ⟨C, rfl, hL⟩ | ⟨C, rfl, hM⟩
  · cases C with
    | nil => exact ⟨(List.append_nil A).symm, hL⟩
    | cons x C =>
      obtain ⟨rfl, rfl⟩ := List.cons.inj hL
      have hlt := (List.pairwise_cons.1 (List.pairwise_append.1 hordered).2.1).1 m (by simp)
      omega
  · cases C with
    | nil => exact ⟨List.append_nil B, hM.symm⟩
    | cons x C =>
      obtain ⟨rfl, rfl⟩ := List.cons.inj hM
      have hlt := (List.pairwise_append.1 hordered).2.2 m (by simp) l List.mem_cons_self
      omega

/-- A cursor that begins where a token does stands at that token. -/
theorem rest_of_start {c b : Cursor} {vs : List Token} {A L : List Lexeme} {l : Lexeme} {t : Token}
    (hp : Past vs c b) (ht : b.token? = some t) (hc : c.rest = A ++ l :: L)
    (hordered : c.rest.Pairwise (·.start < ·.start)) (hheld : ∀ l ∈ c.rest, l.start ≤ Span.limit)
    (hstart : l.start = b.start) : A = c.rest.take vs.length ∧ b.rest = l :: L := by
  obtain ⟨l', hl', -⟩ := Option.map_eq_some_iff.1 ht
  obtain ⟨L', hrest⟩ := List.head?_eq_some_iff.1 hl'
  have hsplit : c.rest = c.rest.take vs.length ++ l' :: L' := by
    rw [← hrest, hp.rest, List.take_append_drop]
  have hspan : b.start = l'.start := by
    have hheld' := hheld l' (by rw [hsplit]; simp)
    rw [start, span, hrest]
    exact Nat.min_eq_left hheld'
  rw [hc] at hordered
  obtain ⟨hA, hL⟩ := append_inj_of_start hordered (hc.symm.trans hsplit) (hstart.trans hspan)
  exact ⟨hA, hrest.trans hL.symm⟩

theorem forall₂_alike (hl : SameGroups σ (fun _ => True) Eq layout layout')
    {uss uss' : List (List Lexeme)} (htwins : List.Forall₂ (Twins σ) uss uss') :
    ∀ {vs vs' : List k.Spec}, List.Forall₂ (k.Reads layout) uss vs →
      List.Forall₂ (k.Reads layout') uss' vs' → List.Forall₂ (k.Alike σ Eq) vs vs' := by
  induction htwins with
  | nil =>
    rintro _ _ ⟨⟩ ⟨⟩
    exact .nil
  | cons htwin _ ih =>
    rintro _ _ (_ | ⟨hv, hvs⟩) (_ | ⟨hv', hvs'⟩)
    exact .cons (hv.alike hl hv' htwin) (ih hvs hvs')

theorem readable_of_twins {uss uss' : List (List Lexeme)}
    (htwins : List.Forall₂ (Twins σ) uss uss')
    (h : ∀ us ∈ uss, k.Readable (us.map Lexeme.token)) :
    ∀ us ∈ uss', k.Readable (us.map Lexeme.token) := by
  induction htwins with
  | nil => exact h
  | cons htwin _ ih =>
    obtain ⟨hus, hmore⟩ := List.forall_mem_cons.1 h
    exact List.forall_mem_cons.2 ⟨by rwa [htwin.tokens], ih hmore⟩

theorem Terminal.of_twins {x x' : List Lexeme} (h : Terminal x) (htwins : Twins σ x x') :
    Terminal x' := by
  intro l' hl'
  have htoken : x.head?.map Lexeme.token = some l'.token := by
    rw [← List.head?_map, ← htwins.tokens, List.head?_map, hl']
    rfl
  obtain ⟨l, hl, heq⟩ := Option.map_eq_some_iff.1 htoken
  rw [← heq]
  exact h l hl

/-- A declaration of a file begins with its keyword. -/
theorem SourceFile.exists_keyword {c : Cursor} {file : SourceFile} {d : Decl}
    (hread : SourceFile.read layout c = (file, [])) (hd : d ∈ file.decls) :
    ∃ l ∈ c.rest, (∃ k, l.token = .keyword k) ∧ l.span.start = d.start := by
  obtain ⟨keyword, name, next, m, hclause⟩ :=
    SourceFile.clause_of_read (congrArg Prod.snd hread)
  rw [SourceFile.read_of_clause hclause] at hread
  obtain ⟨rfl, hfaults⟩ := Prod.mk.inj hread
  obtain ⟨b, vs, -, hp, hstart, ⟨k, ht⟩, -⟩ := decls_front layout next hfaults hd
  obtain ⟨qs, -, -, -, -, -, -, hq, -⟩ :=
    packageClause_echo (Meets.of_tokens rfl) rfl _ next m hclause (Nat.zero_le _)
  obtain ⟨l, hl, hkw⟩ := Option.map_eq_some_iff.1 ht
  obtain ⟨L, hrest⟩ := List.head?_eq_some_iff.1 hl
  refine ⟨l, ?_, ⟨k, hkw⟩, ?_⟩
  · have hmem : l ∈ b.rest := List.mem_of_head? hl
    rw [(hq.trans hp).rest] at hmem
    exact List.mem_of_mem_drop hmem
  · rw [← hstart, start, span, hrest]

/-- **Specs in other groups.**  If some tokens of a file are declarations of specs, then
    the file with other declarations of the same specs in their place has the same specs
    in other groups. -/
theorem SourceFile.read_regrouped {c c' : Cursor} {file : SourceFile} {d : Decl}
    {us us' ts ts' ws ws' : List Lexeme} {uss uss' : List (List Lexeme)}
    (hread : SourceFile.read layout c = (file, [])) (hd : d ∈ file.decls)
    (hlayout : layout.groups = []) (hlayout' : layout'.groups = [])
    (hc : c.rest = us ++ (ts ++ ws)) (hc' : c'.rest = us' ++ (ts' ++ ws'))
    (hordered : c.rest.Pairwise (·.start < ·.start))
    (hheld : ∀ l ∈ c.rest, l.start ≤ Span.limit) (hstart : ∀ l ∈ ts.head?, l.start = d.start)
    (hrows : Rows k uss ts) (hrows' : Rows k uss' ts')
    (hreadable : ∀ us ∈ uss, k.Readable (us.map Lexeme.token))
    (hspecs : List.Forall₂ (Twins σ) uss uss') (hfront : Twins σ us us')
    (hback : Twins σ ws ws') (hterminal : Terminal ws) :
    ∃ file', SourceFile.read layout' c' = (file', []) ∧ file'.package = file.package ∧
      Regrouped σ file.decls file'.decls := by
  have hl : SameGroups σ (fun _ => True) Eq layout layout' := sameGroups_of_none hlayout hlayout'
  obtain ⟨keyword, name, next, m, hclause⟩ :=
    SourceFile.clause_of_read (congrArg Prod.snd hread)
  rw [SourceFile.read_of_clause hclause] at hread
  obtain ⟨rfl, hfaults⟩ := Prod.mk.inj hread
  obtain ⟨b, vs, ds, hp, hb_start, ⟨t, ht⟩, hb_faults, hds, hsame⟩ :=
    decls_front layout next hfaults hd
  obtain ⟨qs, -, -, -, -, -, -, hq, -⟩ :=
    packageClause_echo (Meets.of_tokens rfl) rfl _ next m hclause (Nat.zero_le _)
  -- the declarations of the specs begin at `b`
  obtain ⟨kw, ls, hts, hkw⟩ := hrows.head?
  obtain ⟨kw', ls', hts', hkw'⟩ := hrows'.head?
  obtain ⟨hus, hb⟩ := rest_of_start (hq.trans hp) ht (A := us) (l := kw) (L := ls ++ ws)
    (by rw [hc, hts]; rfl) hordered hheld ((hstart kw (by rw [hts]; rfl)).trans hb_start.symm)
  replace hb : b.rest = ts ++ ws := by rw [hb, hts]; rfl
  have hb_tokens : (ts ++ ws).map Lexeme.token = b.tokens := by rw [Cursor.tokens, hb]
  have hx : b.tokens.head? = ((ts' ++ ws').map Lexeme.token).head? := by
    rw [← hb_tokens, hts, hts', List.cons_append, List.cons_append, List.map_cons, List.map_cons,
      List.head?_cons, List.head?_cons, hkw, hkw']
  have hm : Meets σ b.tokens ((ts' ++ ws').map Lexeme.token) c c' :=
    ⟨us, us', ts ++ ws, ts' ++ ws', hc, hc', hfront, hb_tokens, rfl⟩
  have hle : b.tokens.length ≤ next.left := by
    rw [length_tokens, hp.left]
    exact Nat.le_add_left _ _
  obtain ⟨qs', ⟨keyword', name'⟩, next', m', hclause', hname, -, hq₁, hq'⟩ :=
    packageClause_echo hm hx _ next m hclause hle
  obtain rfl : qs = qs' := List.append_cancel_right (hq.tokens.symm.trans hq₁.tokens)
  obtain ⟨b', ds', hp', hds', hfaults', hds_alike⟩ := hsame hl (hm.past hq hq' hle) hx
  have hb' : b'.rest = ts' ++ ws' := by
    have hlength : (qs ++ vs).length = us'.length := by
      have hleft := (hq.trans hp).left
      rw [hfront.length_eq, hus, List.length_take, Nat.min_eq_left]
      exact Nat.le.intro hleft.symm
    rw [(hq'.trans hp').rest, hc', hlength, List.drop_left]
  -- the specs
  obtain ⟨rows, e, he, hrow⟩ := decls_of_rows hlayout hrows hreadable hb hterminal
  obtain ⟨rows', e', he', hrow'⟩ := decls_of_rows hlayout' hrows'
    (readable_of_twins hspecs hreadable) hb' (hterminal.of_twins hback)
  -- the declarations behind them
  have hmore : Meets σ [] [] e e' :=
    ⟨ws, ws', [], [], by rw [he, List.append_nil], by rw [he', List.append_nil], hback, rfl, rfl⟩
  obtain ⟨hfaults_e, hback_alike⟩ := decls_echo (k := True) hl e e' hmore (solid_any _ e)
    (by rw [← hrow.faults, hb_faults])
  refine ⟨_, (SourceFile.read_of_clause hclause').trans (congrArg (Prod.mk _) ?_), hname, ?_⟩
  · rw [hfaults', hrow'.faults, hfaults_e]
  · dsimp only
    rw [hds, hds', hrow.decls, hrow'.decls]
    refine .intro hds_alike (forall₂_alike hl hspecs hrow.specs hrow'.specs) (fun r hr => ?_)
      hback_alike
    exact (List.mem_append.1 hr).elim (hrow.docs r) (hrow'.docs r)

end

end GoDecls.Tree
