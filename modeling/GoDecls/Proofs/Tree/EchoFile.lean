/-
  Declarations are read alike at two cursors with the same tokens (`decl_echo`), and so
  a declaration whose content is not read may have any other content.

  * `Covered d ts`: every semicolon of the tokens is in brackets, from depth `d` on;
  * `SourceFile.read_replaced`: with other tokens between the keyword and the end of
    such a declaration the file has the same declarations, but for places and comments.
-/
import GoDecls.Proofs.Tree.AlikeFile
import GoDecls.Proofs.Tree.TypeEnds
import GoDecls.Tree.File

namespace GoDecls.Tree

open Outcome

/-! ## Comments at two places -/

/-- The layouts find comment groups with `γ` for what begins or ends with a token with
    `ω`, if the token stands at places with `σ`. -/
structure SameGroups (σ : Span → Span → Prop) (ω : Lexeme → Prop)
    (γ : Option Nat → Option Nat → Prop) (layout layout' : Layout) : Prop where
  doc : ∀ {c c' : Cursor} {l l' : Lexeme}, c.rest.head? = some l → c'.rest.head? = some l' →
    σ l.span l'.span → ω l → γ (layout.docFor? c.start) (layout'.docFor? c'.start)
  line : ∀ {c c' : Cursor} {l l' : Lexeme}, c.rest.head? = some l → c'.rest.head? = some l' →
    σ l.span l'.span → ω l →
    γ (layout.lineCommentAfter? c.advance.last) (layout'.lineCommentAfter? c'.advance.last)

theorem SameGroups.any (layout layout' : Layout) :
    SameGroups (fun _ _ => True) (fun _ => True) (fun _ _ => True) layout layout' :=
  ⟨fun _ _ _ _ => trivial, fun _ _ _ _ => trivial⟩

namespace Cursor

variable {σ : Span → Span → Prop} {k : Prop} {ω : Lexeme → Prop}
  {γ : Option Nat → Option Nat → Prop} {x x' : List Token}

/-- The tokens at the cursors, if the first one is no semicolon and stands before `x`. -/
theorem Meets.heads {c c' : Cursor} {t : Token} (hm : Meets σ x x' c c') (hc : c.Solid ω x)
    (hlt : x.length < c.left) (ht : c.token? = some t) (hsemi : t ≠ .punct .semi) :
    ∃ l l', c.rest.head? = some l ∧ c'.rest.head? = some l' ∧ σ l.span l'.span ∧ ω l := by
  obtain ⟨l, hl, hω⟩ := hc.head? hm hlt ht hsemi
  obtain ⟨l', hl', -⟩ := Option.map_eq_some_iff.1 ((hm.token? hlt).trans ht)
  refine ⟨l, l', hl, hl', ?_, hω⟩
  have hspan := hm.span hlt
  obtain ⟨_, hrest⟩ := List.head?_eq_some_iff.1 hl
  obtain ⟨_, hrest'⟩ := List.head?_eq_some_iff.1 hl'
  rwa [Cursor.span, Cursor.span, hrest, hrest'] at hspan

section

variable {layout layout' : Layout} {c c' d d' : Cursor} {t : Token} {ts : List Token}

theorem Meets.doc (hm : Meets σ x x' c c') (hl : SameGroups σ ω γ layout layout')
    (hc : c.Solid ω x) (hlt : x.length < c.left) (ht : c.token? = some t)
    (hsemi : t ≠ .punct .semi) : γ (layout.docFor? c.start) (layout'.docFor? c'.start) := by
  obtain ⟨l, l', hhead, hhead', hσ, hω⟩ := hm.heads hc hlt ht hsemi
  exact hl.doc hhead hhead' hσ hω

/-- The comment groups behind what ends with the token `t`. -/
theorem Meets.line (hm : Meets σ x x' c c') (hl : SameGroups σ ω γ layout layout')
    (hc : c.Solid ω x) (hp : Past (ts ++ [t]) c d) (hp' : Past (ts ++ [t]) c' d')
    (hle : x.length ≤ d.left) (hsemi : t ≠ .punct .semi) :
    γ (layout.lineCommentAfter? d.last) (layout'.lineCommentAfter? d'.last) := by
  obtain ⟨e, he, hlast⟩ := hp.split
  obtain ⟨e', he', hlast'⟩ := hp'.split
  have hleft : e.left = 1 + d.left := hlast.left
  obtain rfl := hlast.skip
  obtain rfl := hlast'.skip
  have hme := hm.past he he' (by omega)
  obtain ⟨l, l', hhead, hhead', hσ, hω⟩ :=
    hme.heads (hc.past he) (by omega) hlast.token? hsemi
  exact hl.line hhead hhead' hσ hω

end

/-! ## Type parameters -/

theorem typeParam_echo {c c' : Cursor} (hm : Meets σ x x' c c') (hx : x.head? = x'.head?) :
    c.typeParam.Echoes x (fun _ => True) (TypeParam.Alike σ k) c'.typeParam := by
  unfold typeParam
  refine .bindAny hm (fun _ hm => names_echo c c' hm (.inl rfl) _)
    fun _ names d _ names' d' _ hnames _ hd => ?_
  exact (Echoes.map hd (union_echo d d' hd hx) fun _ _ _ _ hterms => ⟨hnames, hterms⟩).imp
    fun _ _ => trivial

theorem typeParamList_echo (c c' : Cursor) (hm : Meets σ x x' c c') :
    c.typeParamList.Echoes x (fun _ => True) (List.Forall₂ (TypeParam.Alike σ k))
      c'.typeParamList :=
  typeParamList_loop.echo typeParamList_loop .any c c' hm (solid_any _ _) fun _ _ _ hm _ hx =>
    typeParam_echo hm hx

theorem typeParams_echo {c c' : Cursor} (hm : Meets σ x x' c c') :
    c.typeParams.Echoes x (fun _ => True) (TypeParams.Alike σ k) c'.typeParams := by
  unfold typeParams
  refine .bindAny hm (fun _ hm => expect_echo hm _ _) fun _ _ d _ _ d' _ _ _ hd => ?_
  exact .map hd (typeParamList_echo d d' hd) fun _ _ _ _ hps => hps

/-- Type parameters are told from an array length by three tokens. -/
theorem Meets.atTypeParams {c c' : Cursor} (hm : Meets σ x x' c c')
    (hlt : x.length + 3 ≤ c.left) : c'.atTypeParams = c.atTypeParams := by
  obtain ⟨us, hus, hus'⟩ := hm.front
  have hlength := congrArg List.length hus
  rw [length_tokens, List.length_append] at hlength
  rcases us with _ | ⟨u, _ | ⟨v, _ | ⟨w, us⟩⟩⟩ <;> try (simp at hlength; omega)
  unfold Cursor.atTypeParams
  simp only [tokens, List.cons_append] at hus hus'
  rw [hus, hus']
  split <;> split <;> simp_all

theorem atTypeParams_eq_false {c : Cursor} (h : c.token? ≠ some (.punct .lbrack)) :
    c.atTypeParams = false := by
  unfold atTypeParams
  split
  · next ht =>
    refine absurd ?_ h
    rw [token?_eq, tokens, ht]
    rfl
  · rfl

/-! ## Specs -/

theorem stringLiteral_echo {c c' : Cursor} (hm : Meets σ x x' c c') (what : String) :
    (c.stringLiteral what).Echoes x (fun _ => True) σ (c'.stringLiteral what) := by
  refine .of_lt fun hlt => ?_
  have ht := hm.token? hlt
  have hspan := hm.span hlt
  unfold stringLiteral
  split
  · next h =>
    split <;> try (simp_all; done)
    exact .ok hspan trivial (.advance h) (.advance (ht.trans h))
  · next h =>
    split <;> try (simp_all; done)
    exact .ok hspan trivial (.advance h) (.advance (ht.trans h))
  · exact .fails

theorem importName?_echo {c c' : Cursor} (hm : Meets σ x x' c c') (hlt : x.length < c.left) :
    ∃ ts, Past ts c c.importName?.2 ∧ Past ts c' c'.importName?.2 ∧
      c'.importName?.1.map ImportName.unplaced = c.importName?.1.map ImportName.unplaced := by
  have ht := hm.token? hlt
  unfold importName?
  rw [ht]
  split
  · next h => exact ⟨_, .advance h, .advance (ht.trans h), rfl⟩
  · next s h =>
    refine ⟨_, .advance h, .advance (ht.trans h), ?_⟩
    split <;> rfl
  · exact ⟨[], .refl c, .refl c', rfl⟩

theorem importSpec_echo {c c' : Cursor} (hm : Meets σ x x' c c') (doc doc' : Option Nat) :
    (c.importSpec doc).Echoes x (fun _ => True) (ImportSpec.Alike σ) (c'.importSpec doc') := by
  refine .of_lt fun hlt => ?_
  obtain ⟨ts, hp, hp', hname⟩ := importName?_echo hm hlt
  unfold importSpec
  exact .map hm (.lift hm hp (fun _ => hp') (fun hd => stringLiteral_echo hd _) fun _ _ => trivial)
    fun _ _ _ _ hpath => ⟨hname, hpath⟩

/-- A declared type and the comment group behind it. -/
def commentedType (layout : Layout) (c : Cursor) : Outcome (TypeExpr × Option Nat) c :=
  c.type.map fun type d => (type, layout.lineCommentAfter? d.last)

theorem typeSpecTail_eq {layout : Layout} {doc : Option Nat} {name : Ident}
    {params : Option TypeParams} {c : Cursor} : c.typeSpecTail layout doc name params =
    if c.token? = some (.punct .assign) then
      ((c.advance.commentedType layout).lift c.advance_le).map fun p _ =>
        ⟨doc, p.2, name, params, some c.span, p.1⟩
    else (c.commentedType layout).map fun p _ => ⟨doc, p.2, name, params, none, p.1⟩ := by
  unfold typeSpecTail commentedType
  split
  · cases c.advance.type <;> rfl
  · cases c.type <;> rfl

/-- An array or a slice takes a closing bracket and its element at least. -/
theorem arrayType_left {c d : Cursor} {start : Nat} {T : TypeExpr} {m : d.left < c.left}
    (h : c.arrayType start = .ok T d m) : d.left + 2 ≤ c.left := by
  rw [arrayType] at h
  split at h
  · next ht =>
    have hlt := advance_lt ht
    obtain ⟨elem, helem, -⟩ := ok_of_map h
    obtain ⟨m', -⟩ := ok_of_lift helem
    omega
  · split at h
    · have hle := c.advance_le
      obtain ⟨_, helem⟩ := ok_of_lift h
      rw [arrayElem] at helem
      have := left_of_bind helem
      omega
    · exact left_of_bind h

/-- Behind a square bracket a type takes at least two tokens. -/
theorem type_left_of_lbrack {c d : Cursor} {T : TypeExpr} {m : d.left < c.left}
    (h : c.token? = some (.punct .lbrack)) (hT : c.type = .ok T d m) : d.left + 3 ≤ c.left := by
  have hlt := advance_lt h
  rw [type_of_lbrack h] at hT
  obtain ⟨_, hT⟩ := ok_of_lift hT
  have := arrayType_left hT
  omega

theorem typeSpecRest_left {layout : Layout} {doc : Option Nat} {c d : Cursor} {name : Ident}
    {spec : TypeSpec} {m : d.left < c.left} (h : c.token? = some (.punct .lbrack))
    (hspec : (if c.atTypeParams then
        c.typeParams.bind fun ps e _ => e.typeSpecTail layout doc name (some ps)
      else c.typeSpecTail layout doc name none) = .ok spec d m) : d.left + 3 ≤ c.left := by
  split at hspec
  · obtain ⟨ps, e, _, m₂, hparams, -⟩ := ok_of_bind hspec
    have := left_of_bind hparams
    omega
  · unfold typeSpecTail at hspec
    rw [if_neg (by rw [h]; simp)] at hspec
    obtain ⟨type, htype, -⟩ := ok_of_map hspec
    exact type_left_of_lbrack h htype

section

variable {layout layout' : Layout} (hl : SameGroups σ ω γ layout layout') (doc doc' : Option Nat)

include hl

theorem commentedType_echo {c c' : Cursor} (hm : Meets σ x x' c c') (hc : c.Solid ω x)
    (hx : Ends GoesOn x x') :
    (c.commentedType layout).Echoes x (fun _ => True)
      (fun p p' => p.1.Alike σ k p'.1 ∧ (p.1.isFunc = true → p'.1.isFunc = true) ∧ γ p.2 p'.2)
      (c'.commentedType layout') := by
  intro p d m ho hle
  obtain ⟨T, hT, rfl⟩ := ok_of_map ho
  obtain ⟨ts, T', d', m', hT', hsame, -, hp, hp'⟩ :=
    type_echo (k := k) c c' hm hx T d m hT hle
  -- nothing is put around the type itself
  obtain ⟨-, _, _, _, hT'', htop, -⟩ := type_echo (k := False) c c' hm hx T d m hT hle
  cases hT'.symm.trans hT''
  obtain ⟨us, t, hq, hends⟩ := type_ends c T d m hT
  obtain rfl : ts = us ++ [t] := List.append_cancel_right (hp.tokens.symm.trans hq.tokens)
  refine ⟨_, (T', layout'.lineCommentAfter? d'.last), d', m', ?_, ⟨hsame, htop.isFunc, ?_⟩, trivial,
    hp, hp'⟩
  · rw [commentedType, hT']
    rfl
  · refine hm.line hl hc hp hp' hle ?_
    rintro rfl
    cases hends

theorem typeSpecTail_echo {c c' : Cursor} (hm : Meets σ x x' c c') (hc : c.Solid ω x)
    (hx : Ends GoesOn x x') {name name' : Ident} {params params' : Option TypeParams}
    (hname : name'.text = name.text)
    (hparams : Option.Rel (TypeParams.Alike σ k) params params') :
    (c.typeSpecTail layout doc name params).Echoes x (fun _ => True) (TypeSpec.Alike σ k γ)
      (c'.typeSpecTail layout' doc' name' params') := by
  refine .of_lt fun hlt => ?_
  rw [typeSpecTail_eq, typeSpecTail_eq, hm.token? hlt]
  split
  · next h =>
    exact .map hm (.advance hm h (fun hd => commentedType_echo hl hd (hc.past (.advance h)) hx)
      fun _ => id) fun _ _ _ _ htype =>
        ⟨hname, hparams, rfl, htype.1, fun _ => htype.2.1, htype.2.2⟩
  · exact .map hm (commentedType_echo hl hm hc hx) fun _ _ _ _ htype =>
      ⟨hname, hparams, rfl, htype.1, fun _ => htype.2.1, htype.2.2⟩

theorem typeSpec_echo {c c' : Cursor} (hm : Meets σ x x' c c') (hc : c.Solid ω x)
    (hx : Ends GoesOn x x') :
    (c.typeSpec layout doc).Echoes x (fun _ => True) (TypeSpec.Alike σ k γ)
      (c'.typeSpec layout' doc') := by
  unfold typeSpec
  refine .bindAny hm (fun _ hm => ident_echo hm _) fun _ name d _ name' d' _ hname hp hd => ?_
  intro spec e m ho hle
  have hd_solid := hc.past hp
  have hparams : d'.atTypeParams = d.atTypeParams := by
    by_cases hb : d.token? = some (.punct .lbrack)
    · have hleft := typeSpecRest_left hb ho
      exact hd.atTypeParams (by omega)
    · have hlt := Nat.lt_of_le_of_lt hle m
      rw [atTypeParams_eq_false hb, atTypeParams_eq_false (by rwa [hd.token? hlt])]
  revert spec e m
  rw [hparams]
  split
  · exact Echoes.bindAny hd (fun _ hd => typeParams_echo (k := k) hd)
      fun _ ps e _ ps' e' _ hps hq he =>
        typeSpecTail_echo hl doc doc' he (hd_solid.past hq) hx hname (.some hps)
  · exact typeSpecTail_echo hl doc doc' hd hd_solid hx hname .none

end

/-! ## Declarations -/

section

variable {α : Type} {r : α → α → Prop}

theorem specs_echo {spec spec' : (c : Cursor) → Outcome α c}
    (hspec : ∀ {x x'} c c', Meets σ x x' c c' → c.Solid ω x → x.head? = x'.head? →
      (spec c).Echoes x (fun _ => True) r (spec' c'))
    (c c' : Cursor) (hm : Meets σ x x' c c') (hc : c.Solid ω x) :
    (specs spec c).Echoes x (fun _ => True) (fun p p' => List.Forall₂ r p.1 p'.1)
      (specs spec' c') :=
  (specs_loop spec).echo (specs_loop spec') .any c c' hm hc fun d d' _ => hspec d d'

theorem endDecl_echo {ts : List Token} {c c' d d' : Cursor} {a a' : α} {m : d.left < c.left}
    {m' : d'.left < c'.left} (hp : Past ts c d) (hp' : Past ts c' d') (hd : Meets σ x x' d d')
    (hx : x.head? = x'.head?) (ha : r a a') :
    (endDecl a d m).Echoes x (fun _ => True) r (endDecl a' d' m') := by
  unfold endDecl
  have ht := hd.token?_of_head? hx
  split <;> split <;> try (simp_all; done)
  · exact .ok ha trivial hp hp'
  · next h _ h' => exact .ok ha trivial (hp.trans (.advance h)) (hp'.trans (.advance h'))
  · exact .error

theorem endDecl_within {c d : Cursor} {a : α} {m : d.left < c.left} :
    (endDecl a d m).Within d.left := by
  unfold endDecl
  split
  · exact .ok (Nat.le_refl _)
  · exact .ok d.advance_le
  · exact .after

theorem specDecl_echo {layout layout' : Layout} (hl : SameGroups σ ω γ layout layout')
    {spec spec' : Option Nat → (c : Cursor) → Outcome α c}
    (hspec : ∀ {x x'} doc doc' c c', Meets σ x x' c c' → c.Solid ω x → x.head? = x'.head? →
      (spec doc c).Echoes x (fun _ => True) r (spec' doc' c'))
    {c c' : Cursor} (hm : Meets σ x x' c c') (hc : c.Solid ω x) (hx : x.head? = x'.head?) {t : Token}
    (ht : c.token? = some t) (hsemi : t ≠ .punct .semi) :
    (c.specDecl layout spec).Echoes x (fun _ => True)
      (fun p p' => p.1.Alike γ p'.1 ∧ List.Forall₂ r p.2 p'.2) (c'.specDecl layout' spec') := by
  refine .of_lt fun hlt => ?_
  have hd := hm.advance ht hlt
  have hd_solid := hc.past (.advance ht)
  have hdoc : γ (layout.docFor? c.start) (layout'.docFor? c'.start) :=
    hm.doc hl hc hlt ht hsemi
  unfold specDecl
  dsimp only
  rw [hd.token?_of_head? hx]
  split
  · next hparen =>
    have hspecs (he : Meets σ x x' c.advance.advance c'.advance.advance) :=
      specs_echo (r := r) (fun e e' he hsolid hx =>
        hspec (layout.docFor? e.start) (layout'.docFor? e'.start) e e' he hsolid hx)
        c.advance.advance c'.advance.advance he (hd_solid.past (.advance hparen))
    refine (Echoes.advance (P := fun _ => True) (Q := fun _ => True) hm ht
      (fun hd => .advance hd hparen hspecs fun _ _ => trivial)
      fun _ _ => trivial).andThen hm (fun _ _ _ => endDecl_within) ?_
    intro ts more e m more' e' m' hmore _ hp hp' he
    exact endDecl_echo hp hp' he hx ⟨⟨hdoc, rfl⟩, hmore⟩
  · refine (Echoes.advance (Q := fun _ => True) hm ht
      (fun hd => hspec none none _ _ hd hd_solid hx)
      fun _ _ => trivial).andThen hm (fun _ _ _ => endDecl_within) ?_
    intro ts s e m s' e' m' hs _ hp hp' he
    exact endDecl_echo hp hp' he hx ⟨⟨hdoc, rfl⟩, .cons hs .nil⟩

end

/-! ## What is passed over -/

end Cursor

/-- Every semicolon of the tokens is in brackets, if they begin at depth `d`.  Brackets of
    all shapes count alike, and one that closes at depth zero does not count. -/
def Covered (d : Nat) (ts : List Token) : Prop :=
  ∀ front back, ts = front ++ .punct .semi :: back → front.foldl nest d ≠ 0

theorem covered_nil (d : Nat) : Covered d [] := by
  intro front back h
  simp at h

theorem covered_cons_iff {d : Nat} {t : Token} {ts : List Token} :
    Covered d (t :: ts) ↔ ¬ (t = .punct .semi ∧ d = 0) ∧ Covered (nest d t) ts := by
  constructor
  · intro h
    refine ⟨?_, fun front back hts => h (t :: front) back (by rw [hts]; rfl)⟩
    rintro ⟨rfl, rfl⟩
    exact h [] ts rfl rfl
  · rintro ⟨ht, hts⟩ front back hsplit
    cases front with
    | nil =>
      cases hsplit
      exact fun hd => ht ⟨rfl, hd⟩
    | cons u front =>
      cases hsplit
      exact hts front back rfl

instance decidableCovered : (d : Nat) → (ts : List Token) → Decidable (Covered d ts)
  | d, [] => isTrue (covered_nil d)
  | d, t :: ts =>
    have := decidableCovered (nest d t) ts
    decidable_of_iff _ covered_cons_iff.symm

/-- A declaration that is passed over goes on as long as its semicolons are covered. -/
theorem declExtent_append {body : List Lexeme} {d : Nat} (h : Covered d (body.map Lexeme.token))
    (rest : List Lexeme) : declExtent d (body ++ rest) =
      body.length + declExtent ((body.map Lexeme.token).foldl nest d) rest := by
  induction body generalizing d with
  | nil => simp
  | cons l body ih =>
    obtain ⟨hl, hbody⟩ := covered_cons_iff.1 h
    rw [List.cons_append, declExtent, if_neg hl, ih hbody, List.length_cons, List.map_cons,
      List.foldl_cons]
    omega

/-- The rest begins with a semicolon outside brackets, if the tokens before it begin at
    depth `d`; or there is none. -/
def EndsAt (d : Nat) (body rest : List Token) : Prop :=
  rest = [] ∨ rest.head? = some (.punct .semi) ∧ body.foldl nest d = 0

theorem exists_covered (d : Nat) (ls : List Lexeme) : ∃ body rest, ls = body ++ rest ∧
    Covered d (body.map Lexeme.token) ∧
      EndsAt d (body.map Lexeme.token) (rest.map Lexeme.token) := by
  induction ls generalizing d with
  | nil => exact ⟨[], [], rfl, covered_nil d, .inl rfl⟩
  | cons l ls ih =>
    by_cases hl : l.token = .punct .semi ∧ d = 0
    · exact ⟨[], l :: ls, rfl, covered_nil d, .inr ⟨congrArg some hl.1, hl.2⟩⟩
    · obtain ⟨body, rest, rfl, hbody, hrest⟩ := ih (nest d l.token)
      exact ⟨l :: body, rest, rfl, covered_cons_iff.2 ⟨hl, hbody⟩, hrest⟩

/-- A declaration that is passed over ends at the same place in lists that begin with
    the same tokens up to there. -/
theorem declExtent_congr {us x x' : List Token} (hx : x.head? = x'.head?) {ls ls' : List Lexeme}
    {d : Nat} (hls : ls.map Lexeme.token = us ++ x) (hls' : ls'.map Lexeme.token = us ++ x')
    (hle : declExtent d ls ≤ us.length) : declExtent d ls' = declExtent d ls := by
  induction us generalizing d ls ls' with
  | nil =>
    cases ls with
    | nil =>
      obtain rfl : x = [] := hls.symm
      obtain rfl : x' = [] := List.head?_eq_none_iff.1 hx.symm
      rw [List.map_eq_nil_iff.1 hls']
    | cons l ls =>
      exfalso
      unfold declExtent at hle
      split at hle <;> simp at hle
  | cons u us ih =>
    obtain ⟨l, ls, rfl, rfl, hms⟩ := List.map_eq_cons_iff.1 hls
    obtain ⟨l', ls', rfl, htoken, hms'⟩ := List.map_eq_cons_iff.1 hls'
    rw [declExtent, declExtent, htoken] at *
    split
    · rfl
    · next hend =>
      rw [if_neg hend] at hle
      rw [ih hms hms' (Nat.le_of_succ_le_succ hle)]

namespace Cursor

theorem declExtent_le (d : Nat) (ls : List Lexeme) : declExtent d ls ≤ ls.length := by
  induction ls generalizing d with
  | nil => exact Nat.le_refl _
  | cons l ls ih =>
    unfold declExtent
    split
    · exact Nat.succ_le_succ (Nat.zero_le _)
    · exact Nat.succ_le_succ (ih _)

theorem skipDecl_past {σ : Span → Span → Prop} {x x' : List Token} {c c' : Cursor}
    (hm : Meets σ x x' c c') (hx : x.head? = x'.head?) (hle : x.length ≤ c.skipDecl.left) :
    ∃ ts, Past ts c c.skipDecl ∧ Past ts c' c'.skipDecl := by
  obtain ⟨us, hus, hus'⟩ := hm.front
  have hextent_le := declExtent_le 0 c.rest
  have hlength := congrArg List.length hus
  rw [length_tokens, List.length_append] at hlength
  rw [skipDecl, left_skip] at hle
  have hextent : declExtent 0 c.rest ≤ us.length := by
    have : c.left = c.rest.length := rfl
    omega
  have hextent' := declExtent_congr hx hus hus' hextent
  refine ⟨(c.rest.take (declExtent 0 c.rest)).map Lexeme.token, .of_skip hextent_le, ?_⟩
  have htake (b : Cursor) (n : Nat) : (b.rest.take n).map Lexeme.token = b.tokens.take n :=
    List.map_take
  have hp' := Past.of_skip (declExtent_le 0 c'.rest)
  rw [htake, hus', hextent', List.take_append_of_le_length hextent] at hp'
  rw [htake, hus, List.take_append_of_le_length hextent, skipDecl, hextent']
  exact hp'

/-- Behind a declaration that is passed over, reading goes on behind the semicolon. -/
theorem skipDecl_tokens {c : Cursor} {t : Token} {body rest : List Token}
    (h : c.tokens = t :: (body ++ rest)) (hsemi : t ≠ .punct .semi) (ht : nest 0 t = 0)
    (hbody : Covered 0 body) (hrest : EndsAt 0 body rest) : c.skipDecl.tokens = rest.tail := by
  obtain ⟨l, ls, hc, rfl, hls⟩ := List.map_eq_cons_iff.1 h
  obtain ⟨lbody, lrest, rfl, rfl, rfl⟩ := List.map_eq_append_iff.1 hls
  have hextent : declExtent 0 c.rest = lbody.length + 1 +
      declExtent ((lbody.map Lexeme.token).foldl nest 0) lrest := by
    rw [hc, declExtent, if_neg fun h => hsemi h.1, ht, declExtent_append hbody]
    omega
  have hskip : c.skipDecl.tokens = (c.rest.drop (declExtent 0 c.rest)).map Lexeme.token := by
    rw [skipDecl, tokens, skip_rest]
  have hdrop (n : Nat) : (l :: (lbody ++ lrest)).drop (lbody.length + 1 + n) = lrest.drop n := by
    rw [Nat.add_right_comm, List.drop_succ_cons, List.drop_append]
    simp
  rw [hskip, hextent, hc, hdrop]
  cases lrest with
  | nil => rfl
  | cons m ms =>
    rcases hrest with hnil | ⟨hhead, hdepth⟩
    · cases hnil
    · rw [hdepth, declExtent, if_pos ⟨Option.some.inj hhead, rfl⟩]
      rfl

/-! ## Declarations -/

section

variable {σ : Span → Span → Prop} {k : Prop} {ω : Lexeme → Prop}
  {γ : Option Nat → Option Nat → Prop} {x x' : List Token}

theorem skipDecl_echo {c c' : Cursor} (hm : Meets σ x x' c c') (hx : x.head? = x'.head?)
    {t t' : Token} (h : c.token? = some t) (h' : c'.token? = some t') {d d' : Decl}
    (hd : d.Alike σ k γ d') :
    (Outcome.ok d c.skipDecl (skipDecl_lt h)).Echoes x (fun _ => True) (Decl.Alike σ k γ)
      (.ok d' c'.skipDecl (skipDecl_lt h')) := by
  rintro _ _ _ ⟨⟩ hle
  obtain ⟨ts, hp, hp'⟩ := skipDecl_past hm hx hle
  exact ⟨ts, _, _, _, rfl, hd, trivial, hp, hp'⟩

theorem decl_echo {layout layout' : Layout} (hl : SameGroups σ ω γ layout layout') {c c' : Cursor}
    (hm : Meets σ x x' c c') (hc : c.Solid ω x) (hx : x.head? = x'.head?) :
    (c.decl layout).Echoes x (fun _ => True) (Decl.Alike σ k γ) (c'.decl layout') := by
  refine .of_lt fun hlt => ?_
  have ht := hm.token? hlt
  have hdoc {k : Keyword} (h : c.token? = some (.keyword k)) :
      γ (layout.docFor? c.start) (layout'.docFor? c'.start) :=
    hm.doc hl hc hlt h (by simp)
  unfold decl
  dsimp only
  split <;> split <;> try (simp_all; done)
  · next h h' =>
    exact .map hm (specDecl_echo hl (fun doc doc' c c' hm _ hx => importSpec_echo hm doc doc')
      hm hc hx h (by simp)) fun _ _ _ _ hp => .imports hp.1 hp.2
  · next h h' =>
    exact .map hm (specDecl_echo hl (fun doc doc' c c' hm hc hx =>
      typeSpec_echo hl doc doc' hm hc (.inl hx)) hm hc hx h (by simp))
        fun _ _ _ _ hp => .types hp.1 hp.2
  · next h h' => exact skipDecl_echo hm hx h h' (.consts ⟨hdoc h, rfl⟩)
  · next h h' => exact skipDecl_echo hm hx h h' (.vars ⟨hdoc h, rfl⟩)
  · next h h' => exact skipDecl_echo hm hx h h' .func
  · exact .fails

end

end Cursor

/-- The keyword of a declaration that is passed over. -/
def Decl.skipped? : Decl → Option Keyword
  | .func _ => some .func
  | .consts _ => some .const
  | .vars _ => some .var
  | .imports _ _ | .types _ _ => none

/-- Where a declaration begins. -/
def Decl.start : Decl → Nat
  | .func span => span.start
  | .imports head _ | .consts head | .types head _ | .vars head => head.keyword.start

namespace Cursor

theorem start_le_limit (c : Cursor) : c.start ≤ Span.limit := by
  unfold start span
  split <;> exact Nat.min_le_right _ _

/-- What is read at a keyword whose declaration is passed over. -/
def passed? (layout : Layout) (c : Cursor) : Keyword → Option Decl
  | .const => some (.consts ⟨layout.docFor? c.start, c.span, none⟩)
  | .var => some (.vars ⟨layout.docFor? c.start, c.span, none⟩)
  | .func => some (.func (c.skipDecl.spanFrom c.start))
  | _ => none

theorem decl_of_passed {layout : Layout} {c : Cursor} {k : Keyword} {d : Decl}
    (h : c.token? = some (.keyword k)) (hd : c.passed? layout k = some d) :
    c.decl layout = .ok d c.skipDecl (skipDecl_lt h) := by
  cases k <;> cases hd
  all_goals
    unfold decl
    split <;> first | rfl | contradiction | cases h.symm.trans ‹_›

/-- A declaration that is passed over begins with its keyword, and there is one like it
    wherever this keyword stands. -/
theorem decl_of_skipped {layout : Layout} {c next : Cursor} {d : Decl} {m : next.left < c.left}
    {k : Keyword} (h : c.decl layout = .ok d next m) (hk : d.skipped? = some k) :
    c.token? = some (.keyword k) ∧ next = c.skipDecl ∧ d.start = c.start ∧
      ∀ (layout' : Layout) (c' : Cursor), c'.token? = some (.keyword k) →
        ∃ d' m', c'.decl layout' = .ok d' c'.skipDecl m' ∧ d'.unplaced = d.unplaced := by
  unfold decl at h
  dsimp only at h
  split at h
  · obtain ⟨_, -, rfl⟩ := ok_of_map h
    cases hk
  · obtain ⟨_, -, rfl⟩ := ok_of_map h
    cases hk
  · next ht =>
    cases h
    cases hk
    exact ⟨ht, rfl, rfl, fun layout' c' ht' => ⟨_, _, decl_of_passed ht' rfl, rfl⟩⟩
  · next ht =>
    cases h
    cases hk
    exact ⟨ht, rfl, rfl, fun layout' c' ht' => ⟨_, _, decl_of_passed ht' rfl, rfl⟩⟩
  · next ht =>
    cases h
    cases hk
    exact ⟨ht, rfl, Nat.min_eq_left c.start_le_limit, fun layout' c' ht' =>
      ⟨_, _, decl_of_passed ht' rfl, rfl⟩⟩
  · cases h

/-! ## Files -/

theorem token?_of_decl {layout : Layout} {c next : Cursor} {d : Decl} {m : next.left < c.left}
    (h : c.decl layout = .ok d next m) : ∃ k, c.token? = some (.keyword k) := by
  unfold decl at h
  dsimp only at h
  split at h
  case h_6 => cases h
  all_goals exact ⟨_, ‹_›⟩

theorem decls_of_decl {layout : Layout} {c next : Cursor} {d : Decl} {m : next.left < c.left}
    (h : c.decl layout = .ok d next m) :
    c.decls layout = (d :: (next.decls layout).1, (next.decls layout).2) := by
  obtain ⟨k, hk⟩ := token?_of_decl h
  rw [decls]
  split
  · simp_all
  · simp_all
  · rw [h]

theorem decls_of_none {layout : Layout} {c : Cursor} (h : c.token? = none) :
    c.decls layout = ([], []) := by
  rw [decls]
  split <;> simp_all

theorem decls_of_semi {layout : Layout} {c : Cursor} (h : c.token? = some (.punct .semi)) :
    c.decls layout = c.advance.decls layout := by
  rw [decls]
  split <;> simp_all

/-- Declarations that are read without a diagnostic. -/
theorem decls_cases {layout : Layout} {c : Cursor} (h : (c.decls layout).2 = []) :
    (c.token? = none ∧ c.decls layout = ([], [])) ∨
      (c.token? = some (.punct .semi) ∧ c.decls layout = c.advance.decls layout) ∨
      ∃ d next m, c.decl layout = .ok d next m := by
  rw [decls] at h ⊢
  split at h
  · next ht => exact .inl ⟨ht, rfl⟩
  · next ht => exact .inr (.inl ⟨ht, rfl⟩)
  · split at h
    · next d next m hd => exact .inr (.inr ⟨d, next, m, hd⟩)
    · cases h

/-- The same tokens give the same declarations. -/
theorem decls_echo {σ : Span → Span → Prop} {k : Prop} {ω : Lexeme → Prop}
    {γ : Option Nat → Option Nat → Prop} {layout layout' : Layout}
    (hl : SameGroups σ ω γ layout layout') (c c' : Cursor) (hm : Meets σ [] [] c c')
    (hc : c.Solid ω []) (hfaults : (c.decls layout).2 = []) :
    (c'.decls layout').2 = [] ∧
      List.Forall₂ (Decl.Alike σ k γ) (c.decls layout).1 (c'.decls layout').1 := by
  have htoken := hm.token?_of_head? rfl
  obtain ⟨ht, hdecls⟩ | ⟨ht, hdecls⟩ | ⟨d, next, m, hd⟩ := decls_cases hfaults
  · rw [hdecls, decls_of_none (htoken.trans ht)]
    exact ⟨rfl, .nil⟩
  · have hlt := advance_lt ht
    rw [hdecls] at hfaults ⊢
    rw [decls_of_semi (htoken.trans ht)]
    exact decls_echo hl _ _ (hm.advance ht (left_pos ht)) (hc.past (.advance ht)) hfaults
  · obtain ⟨ts, d', next', m', hd', hsame, -, hp, hp'⟩ :=
      decl_echo (k := k) hl hm hc rfl d next m hd (Nat.zero_le _)
    rw [decls_of_decl hd] at hfaults ⊢
    rw [decls_of_decl hd']
    have hnext := decls_echo (k := k) hl next next' (hm.past hp hp' (Nat.zero_le _)) (hc.past hp)
      hfaults
    exact ⟨hnext.1, .cons hsame hnext.2⟩
termination_by c.left

theorem decls_unplaced {σ : Span → Span → Prop} {γ : Option Nat → Option Nat → Prop}
    {ds ds' : List Decl} (h : List.Forall₂ (Decl.Alike σ False γ) ds ds') :
    ds'.map Decl.unplaced = ds.map Decl.unplaced :=
  map_eq_of_forall₂ h fun _ _ _ hd => hd.unplaced

/-- At the cursor stands, behind other tokens, a declaration with the keyword `k` that is
    passed over, and behind that the rest. -/
structure Skips (k : Keyword) (front : List Lexeme) (kw : Lexeme) (body rest : List Lexeme)
    (c : Cursor) : Prop where
  split : c.rest = front ++ kw :: (body ++ rest)
  keyword : kw.token = .keyword k
  covered : Covered 0 (body.map Lexeme.token)
  ends : EndsAt 0 (body.map Lexeme.token) (rest.map Lexeme.token)

section

variable {k : Keyword} {front body rest : List Lexeme} {kw : Lexeme} {c next : Cursor}

theorem Skips.tokens (h : Skips k front kw body rest c) : c.tokens = front.map Lexeme.token ++
    kw.token :: (body.map Lexeme.token ++ rest.map Lexeme.token) := by
  rw [Cursor.tokens, h.split]
  simp

theorem Skips.behind {ts : List Token} (h : Skips k front kw body rest next)
    (hp : Past ts c next) :
    ∃ ls, ls.map Lexeme.token = ts ∧ Skips k (ls ++ front) kw body rest c := by
  have hrest : c.rest = c.rest.take ts.length ++ next.rest := by
    rw [hp.skip, skip_rest, List.take_append_drop]
  have htokens := hp.tokens
  refine ⟨c.rest.take ts.length, ?_, ?_, h.keyword, h.covered, h.ends⟩
  · rw [Cursor.tokens, hrest, List.map_append] at htokens
    exact List.append_cancel_right htokens
  · exact hrest.trans (by rw [h.split, List.append_assoc])

theorem Skips.le (h : Skips k front kw body rest c) :
    (kw.token :: (body.map Lexeme.token ++ rest.map Lexeme.token)).length ≤ c.left := by
  have hlength := congrArg List.length h.tokens
  rw [length_tokens, List.length_append] at hlength
  omega

/-- What is behind some tokens, if what begins with the keyword is replaced. -/
theorem Skips.replaced {σ : Span → Span → Prop} {ts x' : List Token} {c' next' : Cursor}
    (h : Skips k front kw body rest next) (hp : Past ts c next) (hp' : Past ts c' next')
    (hm : Meets σ (kw.token :: (body.map Lexeme.token ++ rest.map Lexeme.token)) x' c c') :
    next'.tokens = front.map Lexeme.token ++ x' := by
  obtain ⟨us, hus, hus'⟩ := (hm.past hp hp' h.le).front
  rw [h.tokens] at hus
  rw [hus', ← List.append_cancel_right hus]

/-- With another body the declarations are the same. -/
theorem decls_replaced (layout : Layout) (c : Cursor) (hfaults : (c.decls layout).2 = []) {i : Nat}
    {d : Decl} (hi : (c.decls layout).1[i]? = some d) (hk : d.skipped? = some k) :
    ∃ front kw body rest, Skips k front kw body rest c ∧ kw.span.start = d.start ∧
      ∀ (layout' : Layout) (c' : Cursor) (body' : List Token),
        c'.tokens = front.map Lexeme.token ++ kw.token :: (body' ++ rest.map Lexeme.token) →
        Covered 0 body' → EndsAt 0 body' (rest.map Lexeme.token) →
        (c'.decls layout').2 = [] ∧
          (c'.decls layout').1.map Decl.unplaced = (c.decls layout).1.map Decl.unplaced := by
  obtain ⟨ht, hdecls⟩ | ⟨ht, hdecls⟩ | ⟨d₀, next, m, hd⟩ := decls_cases hfaults
  · rw [hdecls] at hi
    cases hi
  · have hlt := advance_lt ht
    rw [hdecls] at hi hfaults ⊢
    obtain ⟨front, kw, body, rest, hskips, hstart, hsame⟩ :=
      decls_replaced layout c.advance hfaults hi hk
    obtain ⟨ls, hls, hfront⟩ := hskips.behind (.advance ht)
    refine ⟨ls ++ front, kw, body, rest, hfront, hstart, fun layout' c' body' hc' => ?_⟩
    rw [List.map_append, hls] at hc'
    rw [decls_of_semi (by rw [token?_eq, hc']; rfl)]
    refine hsame layout' c'.advance body' ?_
    rw [tokens_advance, hc']
    rfl
  · rw [decls_of_decl hd] at hi hfaults ⊢
    cases i with
    | zero =>
      obtain rfl := Option.some.inj hi
      obtain ⟨ht, rfl, hstart, hsame⟩ := decl_of_skipped hd hk
      obtain ⟨kw, hhead, hkw⟩ := Option.map_eq_some_iff.1 ht
      obtain ⟨ls, hrest⟩ := List.head?_eq_some_iff.1 hhead
      obtain ⟨body, rest, rfl, hcovered, hends⟩ := exists_covered 0 ls
      have hskips : Skips k [] kw body rest c := ⟨hrest, hkw, hcovered, hends⟩
      refine ⟨[], kw, body, rest, hskips, ?_, fun layout' c' body' hc' hbody' hrest' => ?_⟩
      · rw [hstart, start, span, hrest]
      · have hsemi : kw.token ≠ .punct .semi := by simp [hkw]
        have hnest : nest 0 kw.token = 0 := by rw [hkw]; rfl
        obtain ⟨d', m', hd', hsame⟩ := hsame layout' c' (by rw [token?_eq, hc', ← hkw]; rfl)
        have hnext := skipDecl_tokens hskips.tokens hsemi hnest hcovered hends
        have hnext' := skipDecl_tokens hc' hsemi hnest hbody' hrest'
        rw [decls_of_decl hd']
        have hmore := decls_echo (k := False) (.any layout layout') _ _
          (.of_tokens (hnext.trans hnext'.symm)) (solid_any _ _) hfaults
        exact ⟨hmore.1, by rw [List.map_cons, List.map_cons, hsame, decls_unplaced hmore.2]⟩
    | succ i =>
      obtain ⟨ts, -, -, -, -, -, -, hp, -⟩ := decl_echo (k := False) (.any layout layout)
        (.of_tokens rfl) (solid_any _ c) rfl d₀ next m hd (Nat.zero_le _)
      obtain ⟨front, kw, body, rest, hskips, hstart, hsame⟩ :=
        decls_replaced layout next hfaults hi hk
      obtain ⟨ls, hls, hfront⟩ := hskips.behind hp
      refine ⟨ls ++ front, kw, body, rest, hfront, hstart,
        fun layout' c' body' hc' hbody' hrest' => ?_⟩
      have hm := Meets.of_front hfront.tokens hc'
      obtain ⟨ts', d', next', m', hd', hsame₀, -, hq, hq'⟩ :=
        decl_echo (k := False) (.any layout layout') hm (solid_any _ c) rfl d₀ next m hd hskips.le
      have hnext' := hskips.replaced hq hq' hm
      have hmore := hsame layout' next' body' hnext' hbody' hrest'
      rw [decls_of_decl hd']
      exact ⟨hmore.1, by rw [List.map_cons, List.map_cons, hsame₀.unplaced, hmore.2]⟩
termination_by c.left

theorem packageClause_echo {σ : Span → Span → Prop} {x x' : List Token} {c c' : Cursor}
    (hm : Meets σ x x' c c') (hx : x.head? = x'.head?) :
    c.packageClause.Echoes x (fun _ => True) (fun p p' => p'.2.text = p.2.text)
      c'.packageClause := by
  unfold packageClause
  refine .bindAny hm (fun _ hm => expect_echo hm _ _) fun _ keyword d _ keyword' d' _ _ _ hd => ?_
  exact (ident_echo hd _).andThen hd (fun _ _ _ => endDecl_within)
    fun ts name e m name' e' m' hname _ hp hp' he => endDecl_echo hp hp' he hx hname

end

end Cursor

open Cursor Text

variable {text : List Char} {file : SourceFile}

theorem SourceFile.read_of_clause {layout : Layout} {c next : Cursor} {keyword : Span}
    {name : Ident} {m : next.left < c.left} (h : c.packageClause = .ok (keyword, name) next m) :
    SourceFile.read layout c = (⟨keyword, name.text, layout.docFor? c.start, (next.decls layout).1,
      layout.groups⟩, (next.decls layout).2) := by
  unfold SourceFile.read
  dsimp only
  rw [h]

/-- A file that is read without a diagnostic has a package clause. -/
theorem SourceFile.clause_of_read {layout : Layout} {c : Cursor}
    (h : (SourceFile.read layout c).2 = []) :
    ∃ keyword name next m, c.packageClause = .ok (keyword, name) next m := by
  unfold SourceFile.read at h
  dsimp only at h
  split at h
  · next keyword name next m hclause => exact ⟨keyword, name, next, m, hclause⟩
  · cases h

/-- **What is passed over may be anything.**  In the tokens of a text that has a tree
    stands, for each function, constant or variable declaration, its keyword and behind
    it a body up to the semicolon that ends the declaration.  With any other body of
    balanced tokens and covered semicolons, wherever the tokens stand and whatever their
    layout is, the tokens are read as a file of the same package with the same
    declarations, but for places and comments. -/
theorem SourceFile.read_replaced (h : SourceFile.ofText text = .ok file) {i : Nat} {d : Decl}
    {k : Keyword} (hi : file.decls[i]? = some d) (hk : d.skipped? = some k) :
    ∃ front kw body rest,
      (Lexer.ofText text).run.1 = front ++ kw :: (body ++ rest) ∧ kw.token = .keyword k ∧
      kw.span.start = d.start ∧ Covered 0 (body.map Lexeme.token) ∧
      EndsAt 0 (body.map Lexeme.token) (rest.map Lexeme.token) ∧
      ∀ (layout : Layout) (tokens : List Lexeme) (size : Nat) (body' : List Token),
        tokens.map Lexeme.token =
          front.map Lexeme.token ++ kw.token :: (body' ++ rest.map Lexeme.token) →
        Balanced body' → Covered 0 body' →
        ∃ file', SourceFile.read layout ⟨tokens, 0, size⟩ = (file', []) ∧
          file'.package = file.package ∧
          file'.decls.map Decl.unplaced = file.decls.map Decl.unplaced := by
  obtain ⟨-, hread⟩ := SourceFile.ofText_eq_ok_iff.1 h
  obtain ⟨keyword, name, next, m, hclause⟩ :=
    SourceFile.clause_of_read (congrArg Prod.snd hread)
  rw [SourceFile.read_of_clause hclause] at hread
  obtain ⟨rfl, hfaults⟩ := Prod.mk.inj hread
  obtain ⟨front, kw, body, rest, hskips, hstart, hsame⟩ :=
    decls_replaced _ next hfaults hi hk
  obtain ⟨ts, -, -, -, -, -, -, hp, -⟩ :=
    packageClause_echo (Meets.of_tokens rfl) rfl _ next m hclause (Nat.zero_le _)
  obtain ⟨ls, hls, hfront⟩ := hskips.behind hp
  refine ⟨ls ++ front, kw, body, rest, hfront.split, hskips.keyword, hstart, hskips.covered,
    hskips.ends, fun layout tokens size body' htokens hbalanced hcovered => ?_⟩
  have hends : EndsAt 0 body' (rest.map Lexeme.token) :=
    hskips.ends.imp_right fun h => ⟨h.1, foldl_nest_of_depthAfter? hbalanced⟩
  have hm := Meets.of_front hfront.tokens (show (Cursor.mk tokens 0 size).tokens = _ from htokens)
  obtain ⟨us, ⟨keyword', name'⟩, next', m', hclause', hname, -, hq, hq'⟩ :=
    packageClause_echo hm rfl _ next m hclause hskips.le
  obtain ⟨hfaults', hdecls⟩ :=
    hsame layout next' body' (hskips.replaced hq hq' hm) hcovered hends
  exact ⟨_, (SourceFile.read_of_clause hclause').trans (congrArg (Prod.mk _) hfaults'), hname,
    hdecls⟩

/-- The body of a variable, with brackets of different shapes, a semicolon and what
    looks like a type declaration in them, between two types. -/
theorem SourceFile.read_replaced_var :
    let text := "package p\ntype A [2]B\nvar x = 1\ntype B map[A]A\n".toList
    let body' : List Token := [.punct .lparen, .punct .semi, .keyword .type, .ident "C",
      .ident "D", .punct .semi, .punct .rbrace, .ident "y"]
    ∃ file file', SourceFile.ofText text = .ok file ∧ file.decls.length = 3 ∧
      file.decls[1]?.bind Decl.skipped? = some .var ∧
      Balanced body' ∧ Covered 0 body' ∧ ∃ front kw body rest,
        (Lexer.ofText text).run.1 = front ++ kw :: (body ++ rest) ∧
        SourceFile.read (Layout.of [] [] []) ⟨front ++ kw :: (body'.map (⟨0, ·, 0⟩) ++ rest), 0, 0⟩ =
          (file', []) ∧
        file'.decls.map Decl.unplaced = file.decls.map Decl.unplaced := by
  intro text body'
  have hshape : ((SourceFile.ofText text).toOption.map fun file =>
      (file.decls.length, file.decls[1]?.bind Decl.skipped?)) = some (3, some .var) := by
    decide +kernel
  have hbalanced : Balanced body' := rfl
  have hcovered : Covered 0 body' := by decide
  cases hfile : SourceFile.ofText text with
  | error e =>
    rw [hfile] at hshape
    cases hshape
  | ok file =>
    rw [hfile] at hshape
    obtain ⟨hlength, hvar⟩ := Prod.mk.inj (Option.some.inj hshape)
    obtain ⟨d, hd, hk⟩ := Option.bind_eq_some_iff.1 hvar
    obtain ⟨front, kw, body, rest, hrun, -, -, -, -, hsame⟩ := SourceFile.read_replaced hfile hd hk
    obtain ⟨file', hread, -, hdecls⟩ := hsame (Layout.of [] [] [])
      (front ++ kw :: (body'.map (⟨0, ·, 0⟩) ++ rest)) 0 body' (by simp; rfl) hbalanced hcovered
    exact ⟨file, file', rfl, hlength, hvar, hbalanced, hcovered, front, kw, body, rest, hrun, hread,
      hdecls⟩

end GoDecls.Tree
