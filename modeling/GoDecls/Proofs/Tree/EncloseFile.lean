/-
  A file is read with parentheses around a type or a single result in one of its type
  declarations (`Cursor.read_admits`).

  * `TypeSpec.place s`: the declared type, which is in no parentheses if it is a function
    type with type parameters: they would take these from it;
  * `Closes layout layout' γ l e`: the comment groups behind the last token in the
    parentheses and behind the closing one have `γ`.
-/
import GoDecls.Proofs.Tree.EchoFile
import GoDecls.Proofs.Tree.EncloseTypes

namespace GoDecls.Tree

/-- The declared type.  A function type with type parameters loses them in
    parentheses. -/
def TypeSpec.place (s : TypeSpec) : TypeExpr × Bool :=
  (s.type, !(s.typeParams.isSome && s.type.isFunc))

/-- The declared types. -/
def Decl.places : Decl → List (TypeExpr × Bool)
  | .types _ specs => specs.map TypeSpec.place
  | _ => []

/-- The declared type. -/
def TypeSpec.site (s : TypeSpec) : TypeExpr × Site :=
  (s.type, .type !(s.typeParams.isSome && s.type.isFunc))

/-- The types of a constraint, which are in no parentheses themselves: in these the first
    one would begin an array length. -/
def TypeParam.sites (p : TypeParam) : List (TypeExpr × Site) :=
  p.constraint.map fun t => (t.type, .type false)

/-- The types in the constraints. -/
def TypeParams.sites (ps : TypeParams) : List (TypeExpr × Site) := ps.params.flatMap (·.sites)

/-- The declared type and the types in constraints. -/
def TypeSpec.sites (s : TypeSpec) : List (TypeExpr × Site) :=
  s.site :: s.typeParams.toList.flatMap (·.sites)

/-- The declared types and the types in their constraints. -/
def Decl.sites : Decl → List (TypeExpr × Site)
  | .types _ specs => specs.flatMap (·.sites)
  | _ => []

/-- A declared type that may stand in parentheses, or a type below one, may stand in them. -/
theorem wrappableIn_of_places {S : TypeExpr} {ds : List Decl}
    (h : EnclosableIn S (ds.flatMap Decl.places)) : WrappableIn S (ds.flatMap Decl.sites) := by
  obtain ⟨_, hplace, hS⟩ := h
  obtain ⟨d, hd, hplace⟩ := List.mem_flatMap.1 hplace
  cases d with
  | types _ specs =>
    obtain ⟨spec, hspec, rfl⟩ := List.mem_map.1 hplace
    exact ⟨spec.site, List.mem_flatMap.2 ⟨_, hd, List.mem_flatMap.2 ⟨spec, hspec,
      List.mem_cons_self⟩⟩, hS.wrappable rfl⟩
  | _ => cases hplace

theorem TypeSpec.types_eq (s : TypeSpec) : s.types = s.sites.map (·.1) := by
  rw [types, sites, List.map_cons, List.map_flatMap]
  refine congrArg (s.type :: ·) (congrArg s.typeParams.toList.flatMap (funext fun ps => ?_))
  rw [TypeParams.sites, List.map_flatMap]
  refine congrArg ps.params.flatMap (funext fun p => ?_)
  rw [TypeParam.types, TypeParam.sites, List.map_map]
  rfl

/-- A single result of a signature in the declarations may stand in parentheses. -/
theorem wrappableIn_of_parts {R T : TypeExpr} {ds : List Decl} (hT : T ∈ ds.flatMap Decl.parts)
    (h : SoleResult R T) : WrappableIn R (ds.flatMap Decl.sites) := by
  obtain ⟨d, hd, hT⟩ := List.mem_flatMap.1 hT
  obtain ⟨spec, hspec, hT⟩ := List.mem_flatMap.1 hT
  rw [spec.types_eq] at hT
  obtain ⟨q, hq, rfl⟩ := List.mem_map.1 hT
  cases d with
  | types _ specs =>
    exact ⟨q, List.mem_flatMap.2 ⟨_, hd, List.mem_flatMap.2 ⟨spec, hspec, hq⟩⟩, h.wrappable q.2⟩
  | _ => cases hspec

/-- The comment groups behind what ends with the two tokens, which have extent, have
    `γ`. -/
structure Closes (layout layout' : Layout) (γ : Option Nat → Option Nat → Prop)
    (l e : Lexeme) : Prop where
  extent : l.span.isEmpty = false
  extent' : e.span.isEmpty = false
  line : γ (layout.lineCommentAfter? l.span.stop) (layout'.lineCommentAfter? e.span.stop)

namespace Cursor

open Outcome

/-! ## Behind a token -/

section

variable {c d : Cursor} {ts : List Token} {ls rs : List Lexeme} {l : Lexeme}

/-- The cursor at the last token of those passed. -/
theorem Past.atLast (h : Past ts c d) (hc : c.rest = ls ++ l :: d.rest) :
    ∃ b : Cursor, b.rest = l :: d.rest ∧ b.advance = d := by
  have hlength := congrArg List.length hc
  rw [List.length_append, List.length_cons] at hlength
  have hleft : c.rest.length = ts.length + d.rest.length := h.left
  obtain rfl : d = c.skip (ls.length + 1) := by
    rw [h.skip]
    congr 1
    omega
  refine ⟨c.skip ls.length, ?_, (Past.skip_add c ls.length 1).symm⟩
  rw [skip_rest, hc, List.drop_left]

/-- The last token of those passed. -/
theorem Past.token_atLast {t : Token} (h : Past (ts ++ [t]) c d) (hc : c.rest = ls ++ l :: d.rest) :
    l.token = t := by
  have htokens := h.tokens
  rw [Cursor.tokens, hc, ← List.concat_append, List.map_append, List.concat_eq_append,
    List.map_append] at htokens
  exact List.head_eq_of_cons_eq
    (List.append_inj_right' (List.append_cancel_right htokens) rfl)

theorem last_advance (hc : c.rest = l :: rs) (hl : l.span.isEmpty = false) :
    c.advance.last = l.span.stop := by
  rw [advance, hc]
  simp [hl]

end

/-! ## Type parameters -/

section

variable {c c' d : Cursor}

/-- Type parameters are told from an array length by three tokens. -/
theorem atTypeParams_iff : c.atTypeParams = true ↔
    ∃ s t ts, c.tokens = .punct .lbrack :: .ident s :: t :: ts ∧ continuesTypeParams t = true := by
  unfold atTypeParams
  rw [← tokens]
  split
  · next h => simp [h]
  · next h => simpa using fun s t ts htokens => absurd htokens (h s t ts)

/-- An opening parenthesis is not among them. -/
theorem Ahead.atTypeParams (h : Ahead c c') (hc : c'.atTypeParams = true) :
    c.atTypeParams = true := by
  obtain ⟨us, x, x', htokens, htokens'⟩ := h.front
  obtain ⟨s, t, ts, hts, ht⟩ := atTypeParams_iff.1 hc
  rw [htokens'] at hts
  refine atTypeParams_iff.2 ⟨s, t, ?_⟩
  rcases us with _ | ⟨u, _ | ⟨v, _ | ⟨w, us⟩⟩⟩
  · cases hts
  · cases hts
  · cases hts
    cases ht
  · cases hts
    exact ⟨_, htokens, ht⟩

theorem Past.atTypeParams {d' : Cursor} {ts : List Token} (h : Past ts c d) (h' : Past ts c' d')
    (hts : 3 ≤ ts.length) (hc : c.atTypeParams = true) : c'.atTypeParams = true := by
  obtain ⟨s, t, us, htokens, ht⟩ := atTypeParams_iff.1 hc
  rw [h.tokens] at htokens
  refine atTypeParams_iff.2 ⟨s, t, ?_⟩
  rcases ts with _ | ⟨u, _ | ⟨v, _ | ⟨w, ts⟩⟩⟩ <;> simp at hts
  cases htokens
  exact ⟨_, h'.tokens, ht⟩

/-- A list of type parameters has a token in its brackets at least. -/
theorem typeParams_left {ps : TypeParams} {m : d.left < c.left} (hc : c.atTypeParams = true)
    (h : c.typeParams = .ok ps d m) : d.left + 3 ≤ c.left := by
  obtain ⟨_, e, _, _, hexpect, hread⟩ := ok_of_bind h
  obtain ⟨ht, rfl⟩ := ok_of_expect hexpect
  obtain ⟨params, hparams, -⟩ := ok_of_map hread
  have hpos := left_pos ht
  have hbracket : c.advance.token? ≠ some (.punct .rbrack) := by
    intro hbracket
    obtain ⟨s, t, ts, htokens, -⟩ := atTypeParams_iff.1 hc
    rw [token?_eq, tokens_advance, htokens] at hbracket
    cases hbracket
  rw [typeParamList, dif_neg hbracket] at hparams
  have := left_of_bind hparams
  rw [left_advance] at this
  omega

/-- They are the bracket, a name and what goes on with the list. -/
theorem atTypeParams_iff_tokens : c.atTypeParams = true ↔ c.token? = some (.punct .lbrack) ∧
    ∃ s t, c.advance.token? = some (.ident s) ∧ c.advance.second? = some t ∧
      continuesTypeParams t = true := by
  rw [atTypeParams_iff, token?_eq, token?_eq, second?_eq, tokens_advance]
  rcases c.tokens with _ | ⟨u, _ | ⟨v, _ | ⟨w, us⟩⟩⟩ <;> simp [and_assoc]

end

/-! ## Declared types -/

section

variable {σ : Span → Span → Prop} {ω : Lexeme → Prop} {κ : Lexeme → Lexeme → Prop}
  {γ : Option Nat → Option Nat → Prop} {layout layout' : Layout} {S : TypeExpr}
  (hl : SameGroups σ ω γ layout layout') (hκ : ∀ l e, κ l e → Closes layout layout' γ l e)

include hl hκ

/-- The comment groups behind what ends with the closing parenthesis or behind it. -/
theorem Around.line {us ms mid ws' : List Lexeme} {c c' d d' : Cursor} {ts ts' : List Token}
    {t : Token} (h : Around σ ω κ us ms (mid ++ d.rest) c' ws')
    (hc : c.rest = us ++ (ms ++ (mid ++ d.rest))) (hms : ms ≠ []) (hp : Past (ts ++ [t]) c d)
    (ht : t ≠ .punct .semi) (hp' : Past ts' c' d') (hd' : d'.rest = ws'.drop mid.length) :
    γ (layout.lineCommentAfter? d.last) (layout'.lineCommentAfter? d'.last) := by
  obtain ⟨us', ms', o, e, hc', -, -, -, -, hlast⟩ := h.split
  rcases mid.eq_nil_or_concat with rfl | ⟨mid, l, rfl⟩
  · obtain ⟨front, l, rfl⟩ := (List.eq_nil_or_concat ms).resolve_left hms
    rw [List.concat_eq_append] at hc hlast
    have hclose := hκ l e (hlast l (by simp))
    have hat : c.rest = us ++ front ++ l :: d.rest := by simp [hc]
    have hat' : c'.rest = us' ++ o :: ms' ++ e :: d'.rest := by simp [hc', hd']
    obtain ⟨b, hb, rfl⟩ := hp.atLast hat
    obtain ⟨b', hb', rfl⟩ := hp'.atLast hat'
    rw [last_advance hb hclose.extent, last_advance hb' hclose.extent']
    exact hclose.line
  · rw [List.concat_eq_append] at hc h hd'
    have hfront : c.rest = us ++ (ms ++ mid) ++ l :: d.rest := by simp [hc]
    have hbehind := h.behind.drop mid.length
    rw [List.append_assoc, List.drop_left] at hbehind
    have hσ := hbehind.stretch 0 1 Nat.one_ne_zero (by simp)
    obtain ⟨l', rs, hrs⟩ : ∃ l' rs, ws'.drop mid.length = l' :: rs := by
      obtain ⟨l', rs, hrs, -⟩ := List.map_eq_cons_iff.1 hbehind.tokens
      exact ⟨l', rs, hrs⟩
    rw [hrs] at hσ
    have hrest : d'.rest = rs := by
      rw [hd', List.length_append, List.length_singleton, ← List.drop_drop, hrs]
      rfl
    have hback : ws' = ws'.take mid.length ++ l' :: d'.rest := by
      rw [hrest, ← hrs, List.take_append_drop]
    obtain ⟨b, hb, rfl⟩ := hp.atLast hfront
    have hfront' : c'.rest = us' ++ o :: (ms' ++ e :: ws'.take mid.length) ++ l' :: d'.rest := by
      rw [hc']
      conv_lhs => rw [hback]
      simp
    obtain ⟨b', hb', rfl⟩ := hp'.atLast hfront'
    refine hl.line (by rw [hb]; rfl) (by rw [hb']; rfl) hσ (h.solid l (by simp) ?_)
    rwa [hp.token_atLast hfront]

theorem commentedType_admits {c d : Cursor} {p : TypeExpr × Option Nat} {m : d.left < c.left}
    (h : c.commentedType layout = .ok p d m) {own : Bool} (hS : Wrappable S (p.1, .type own)) :
    Admits σ ω κ S.span c d fun c' rs => FrontOf own c c' ∧
      (c'.commentedType layout').Gives (fun p' => p.1.Alike σ True p'.1 ∧
        (own = false → p.1.isFunc = true → p'.1.isFunc = true) ∧ γ p.2 p'.2) rs := by
  obtain ⟨T, hT, rfl⟩ := ok_of_map h
  obtain ⟨us, ms, mid, hc, hs, hstarts, hends, hall⟩ := type_admits c hT hS
  refine ⟨us, ms, mid, hc, hs, hstarts, hends, fun c' ws' haround => ?_⟩
  obtain ⟨hfront, T', d', m', hT', hsame, hd'⟩ := hall c' ws' haround
  refine ⟨hfront, (T', layout'.lineCommentAfter? d'.last), d', m', ?_, ⟨hsame, ?_, ?_⟩, hd'⟩
  · rw [commentedType, hT']
    rfl
  · rintro rfl hfunc
    obtain hfront | ⟨hown, -⟩ := hfront
    · rw [(made_of_type hT').2, hfront.token]
      exact (made_of_type hT).2.1 hfunc
    · cases hown
  · obtain ⟨ts, t, hp, ht⟩ := type_ends c T d m hT
    obtain ⟨ts', hp'⟩ := type_moves _ _ _ hT'
    refine haround.line hl hκ hc ?_ hp ?_ hp' hd'
    · rintro rfl
      cases hstarts
    · rintro rfl
      cases ht

theorem typeSpecTail_admits {c d : Cursor} {doc : Option Nat} {name : Ident}
    {params : Option TypeParams} {spec : TypeSpec} {m : d.left < c.left}
    (h : c.typeSpecTail layout doc name params = .ok spec d m) (hS : Wrappable S spec.site) :
    Admits σ ω κ S.span c d fun c' rs => ∀ doc' (name' : Ident) params',
      name'.text = name.text → Option.Rel (TypeParams.Alike σ True) params params' →
      (c'.typeSpecTail layout' doc' name' params').Gives (TypeSpec.Alike σ True γ spec) rs := by
  rw [typeSpecTail_eq] at h
  split at h
  · next ht =>
    obtain ⟨p, hread, rfl⟩ := ok_of_map h
    obtain ⟨_, hp⟩ := ok_of_lift hread
    refine (commentedType_admits hl hκ hp hS).token ht
      fun c' rs ht' _ _ hgives doc' name' params' hname hparams => ?_
    rw [typeSpecTail_eq, if_pos ht']
    exact (hgives.2.lift _).map fun p' _ hp => ⟨hname, hparams, rfl, hp.1,
      fun hsome hfunc => hp.2.1 (by rw [hsome, hfunc]; rfl) hfunc, hp.2.2⟩
  · next ht =>
    obtain ⟨p, hp, rfl⟩ := ok_of_map h
    refine (commentedType_admits hl hκ hp hS).imp
      fun c' rs hahead hgives doc' name' params' hname hparams => ?_
    rw [typeSpecTail_eq, if_neg (hahead.token?_ne (by simp) ht)]
    exact hgives.2.map fun p' _ hp => ⟨hname, hparams, rfl, hp.1,
      fun hsome hfunc => hp.2.1 (by rw [hsome, hfunc]; rfl) hfunc, hp.2.2⟩

omit hl hκ in
theorem typeParam_admits (c : Cursor) {d : Cursor} {p : TypeParam} {m : d.left < c.left}
    (h : c.typeParam = .ok p d m) (hS : WrappableIn S p.sites) :
    Admits σ ω κ S.span c d fun c' rs =>
      SameFront c c' ∧ c'.typeParam.Gives (TypeParam.Alike σ True p) rs := by
  obtain ⟨names, e, _, _, hread, h⟩ := ok_of_bind h
  obtain ⟨terms, hterms, rfl⟩ := ok_of_map h
  obtain ⟨us, hpast⟩ := names_moves _ _ _ hread
  refine (union_admits e hterms hS).behind hpast fun c' rs _ _ _ hm hgives => ?_
  obtain ⟨hfront | ⟨hown, -⟩, hgives⟩ := hgives
  · have hhead := head?_tokens rfl hfront.token
    have hleft : e.tokens.length < c.left := by rwa [length_tokens]
    obtain ⟨names', m', hread', hsame⟩ := (names_echo _ _ hm (.inl hhead) _).upTo hread hpast
    refine ⟨.of_meets hm hhead hleft, ?_⟩
    rw [typeParam, hread']
    exact (hgives.map fun _ _ h => ⟨hsame, h⟩).after m'
  · cases hown

omit hl hκ in
theorem typeParamList_admits (c : Cursor) {d : Cursor} {ps : List TypeParam} {m : d.left < c.left}
    (h : c.typeParamList = .ok ps d m) (hS : WrappableIn S (ps.flatMap (·.sites))) :
    Admits σ ω κ S.span c d fun c' rs =>
      SameFront c c' ∧ c'.typeParamList.Gives (List.Forall₂ (TypeParam.Alike σ True) ps) rs :=
  typeParamList_loop.admits_front typeParamList_loop (fun _ _ hm _ hx => typeParam_echo hm hx)
    (typeParam_echo (σ := fun _ _ => True) (k := True) (.of_tokens rfl) rfl).moves nofun
    SameFront.of_meets c h (wrappableIn_flatMap.1 hS) fun _ h hS => typeParam_admits _ h hS

omit hl hκ in
theorem typeParams_admits {c d : Cursor} {ps : TypeParams} {m : d.left < c.left}
    (hc : c.atTypeParams = true) (h : c.typeParams = .ok ps d m) (hS : WrappableIn S ps.sites) :
    Admits σ ω κ S.span c d fun c' rs =>
      c'.atTypeParams = true ∧ c'.typeParams.Gives (TypeParams.Alike σ True ps) rs := by
  obtain ⟨_, e, _, _, hexpect, hread⟩ := ok_of_bind h
  obtain ⟨hopen, rfl⟩ := ok_of_expect hexpect
  obtain ⟨params, hparams, rfl⟩ := ok_of_map hread
  refine (typeParamList_admits _ hparams hS).token hopen fun c' rs ht' _ _ hgives => ⟨?_, ?_⟩
  · obtain ⟨-, s, t, hs, ht, hgoes⟩ := atTypeParams_iff_tokens.1 hc
    exact atTypeParams_iff_tokens.2
      ⟨ht', s, t, hgives.1.token.trans hs, (hgives.1.second s hs).trans ht, hgoes⟩
  · rw [typeParams]
    exact .expect ht' (hgives.2.map fun _ _ h => h)

omit hl hκ in
theorem typeParams_of_typeSpecTail {c d : Cursor} {doc : Option Nat} {name : Ident}
    {params : Option TypeParams} {spec : TypeSpec} {m : d.left < c.left}
    (h : c.typeSpecTail layout doc name params = .ok spec d m) : spec.typeParams = params := by
  rw [typeSpecTail_eq] at h
  split at h
  · obtain ⟨_, -, rfl⟩ := ok_of_map h
    rfl
  · obtain ⟨_, -, rfl⟩ := ok_of_map h
    rfl

theorem typeSpec_admits {c d : Cursor} {doc : Option Nat} {spec : TypeSpec} {m : d.left < c.left}
    (h : c.typeSpec layout doc = .ok spec d m) (hS : WrappableIn S spec.sites) :
    Admits σ ω κ S.span c d fun c' rs => c'.token? = c.token? ∧
      ∀ doc', (c'.typeSpec layout' doc').Gives (TypeSpec.Alike σ True γ spec) rs := by
  obtain ⟨us, hpast⟩ := (typeSpec_echo (k := True) (.any layout layout) doc doc (.of_tokens rfl)
    (solid_any _ c) (.inl rfl)).moves _ _ _ h
  unfold typeSpec at h
  obtain ⟨name, e, _, _, hname, h⟩ := ok_of_bind h
  obtain ⟨ht, -, rfl⟩ := ok_of_ident hname
  split at h
  · next hparams =>
    obtain ⟨ps, e, _, _, hps, htail⟩ := ok_of_bind h
    obtain ⟨ts, hts⟩ :=
      (typeParams_echo (σ := fun _ _ => True) (k := True) (.of_tokens rfl)).moves ps e _ hps
    have hlength : 3 ≤ ts.length := by
      have := typeParams_left hparams hps
      have := hts.left
      omega
    have hbehind : Admits σ ω κ S.span c.advance d fun b rs => b.atTypeParams = true ∧
        ∀ doc' (name' : Ident), name'.text = name.text → (b.typeParams.bind fun ps e _ =>
          e.typeSpecTail layout' doc' name' (some ps)).Gives (TypeSpec.Alike σ True γ spec) rs := by
      rcases wrappableIn_cons.1 hS with hS | hS
      · refine (typeSpecTail_admits hl hκ htail hS).behind hts fun b rs _ _ hp hm hgives => ?_
        obtain ⟨ps', m', hps', hsame⟩ := (typeParams_echo (k := True) hm).upTo hps hts
        refine ⟨hts.atTypeParams hp hlength hparams, fun doc' name' hname => ?_⟩
        rw [hps']
        exact (hgives doc' name' _ hname (.some hsame)).after m'
      · rw [typeParams_of_typeSpecTail htail] at hS
        obtain ⟨vs, hvs⟩ := ((Past.advance ht).trans hts).between hpast (by omega)
        refine (typeParams_admits hparams hps (by simpa using hS)).beforeSolid hvs
          fun b rs _ hmeets hsolid hgives => ⟨hgives.1, fun doc' name' hname => ?_⟩
        refine hgives.2.bind fun ps' e' _ hsame he' => ?_
        rw [← he']
        exact (typeSpecTail_echo (k := True) hl doc doc' (hmeets e' he') hsolid (.inl rfl) hname
          (.some hsame)).gives htail hvs
    refine hbehind.token ht fun c' rs ht' _ _ hgives => ⟨ht'.trans ht.symm, fun doc' => ?_⟩
    rw [typeSpec]
    refine .ident ht' ?_
    rw [if_pos hgives.1]
    exact hgives.2 doc' _ rfl
  · next hparams =>
    have hsite : Wrappable S spec.site := by
      refine (wrappableIn_cons.1 hS).resolve_right fun hS => ?_
      rw [typeParams_of_typeSpecTail h] at hS
      exact not_wrappableIn_nil hS
    refine (typeSpecTail_admits hl hκ h hsite).token ht fun c' rs ht' _ hahead hgives =>
      ⟨ht'.trans ht.symm, fun doc' => ?_⟩
    rw [typeSpec]
    refine .ident ht' ?_
    rw [if_neg (mt hahead.atTypeParams hparams)]
    exact hgives doc' _ _ rfl .none

end

/-! ## Declarations -/

section

variable {α : Type} {σ : Span → Span → Prop} {ω : Lexeme → Prop} {κ : Lexeme → Lexeme → Prop}
  {r : α → α → Prop} {P : α → Prop} {place : Span}

theorem specs_admits {spec spec' : (c : Cursor) → Outcome α c} {r₀ : α → α → Prop}
    (hecho : ∀ {x x'} c c', Meets σ x x' c c' → c.Solid ω x → x.head? = x'.head? →
      (spec c).Echoes x (fun _ => True) r (spec' c'))
    (hself : ∀ {x x'} c c', Meets (fun _ _ => True) x x' c c' → x.head? = x'.head? →
      (spec c).Echoes x (fun _ => True) r₀ (spec c'))
    (hadmits : ∀ {c d s m}, spec c = .ok s d m → P s → Admits σ ω κ place c d fun c' rs =>
      c'.token? = c.token? ∧ (spec' c').Gives (r s) rs)
    (c : Cursor) {d : Cursor} {ss : List α × Span} {m : d.left < c.left}
    (h : specs spec c = .ok ss d m) (hP : ∃ s ∈ ss.1, P s) :
    Admits σ ω κ place c d fun c' rs =>
      (specs spec' c').Gives (fun ss' => List.Forall₂ r ss.1 ss'.1) rs :=
  (specs_loop spec).admits (specs_loop spec') hecho (hself _ _ (.of_tokens rfl) rfl).moves c h hP
    fun _ hs hPs => (hadmits hs hPs).imp fun _ _ _ hgives => hgives.2

/-- A declaration ends with a semicolon, or there is nothing more. -/
theorem ok_of_endDecl {c d e : Cursor} {a b : α} {m : e.left < c.left} {m' : d.left < c.left}
    (h : endDecl a e m = .ok b d m') : b = a ∧ ∃ ts, Past ts e d ∧
      ∀ {c' e' : Cursor} {m : e'.left < c'.left} {Q : α → Prop} {a' : α}, e'.token? = e.token? →
        Q a' → (endDecl a' e' m : Outcome α c').Gives Q (e'.rest.drop ts.length) := by
  unfold endDecl at h
  split at h
  · next ht =>
    cases h
    refine ⟨rfl, [], .refl _, fun {c' e' m Q a'} ht' ha' => ?_⟩
    rw [ht] at ht'
    unfold endDecl
    split <;> simp_all
    exact .ok ha' rfl
  · next ht =>
    cases h
    refine ⟨rfl, _, .advance ht, fun {c' e' m Q a'} ht' ha' => ?_⟩
    rw [ht] at ht'
    unfold endDecl
    split <;> simp_all
    exact .ok ha' (advance_rest _)
  · cases h

section

variable {γ : Option Nat → Option Nat → Prop} {layout layout' : Layout}
  {spec spec' : Option Nat → (c : Cursor) → Outcome α c} {r₀ : α → α → Prop}

theorem specDecl_admits (hl : SameGroups σ ω γ layout layout')
    (hecho : ∀ {x x'} doc doc' c c', Meets σ x x' c c' → c.Solid ω x → x.head? = x'.head? →
      (spec doc c).Echoes x (fun _ => True) r (spec' doc' c'))
    (hself : ∀ {x x'} doc doc' c c', Meets (fun _ _ => True) x x' c c' → x.head? = x'.head? →
      (spec doc c).Echoes x (fun _ => True) r₀ (spec doc' c'))
    (hadmits : ∀ {doc c d s m}, spec doc c = .ok s d m → P s →
      Admits σ ω κ place c d fun c' rs => c'.token? = c.token? ∧
        ∀ doc', (spec' doc' c').Gives (r s) rs)
    {c d : Cursor} {p : DeclHead × List α} {m : d.left < c.left}
    (h : c.specDecl layout spec = .ok p d m) {t : Token} (ht : c.token? = some t)
    (hsemi : t ≠ .punct .semi) (hP : ∃ s ∈ p.2, P s) :
    Admits σ ω κ place c d fun c' rs => c'.token? = some t ∧
      (c'.specDecl layout' spec').Gives
        (fun p' => p.1.Alike γ p'.1 ∧ List.Forall₂ r p.2 p'.2) rs := by
  have hdoc {c' : Cursor} {x' : List Token} (hm : Meets σ c.advance.tokens x' c c')
      (hsolid : c.Solid ω c.advance.tokens) :
      γ (layout.docFor? c.start) (layout'.docFor? c'.start) := by
    refine hm.doc hl hsolid ?_ ht hsemi
    rw [length_tokens]
    exact advance_lt ht
  unfold specDecl at h
  dsimp only at h
  split at h
  · next hparen =>
    obtain ⟨more, e, _, hmore, hend⟩ := ok_of_andThen h
    obtain ⟨_, hmore⟩ := ok_of_lift hmore
    obtain ⟨_, hmore⟩ := ok_of_lift hmore
    obtain ⟨rfl, us, hus, hgives_end⟩ := ok_of_endDecl hend
    have hspecs := (specs_admits
      (fun e e' => hecho (layout.docFor? e.start) (layout'.docFor? e'.start) e e')
      (fun e e' => hself (layout.docFor? e.start) (layout.docFor? e'.start) e e')
      (fun hs hPs => (hadmits hs hPs).imp fun c' rs _ h => ⟨h.1, h.2 _⟩) _ hmore hP).token hparen
        fun b rs hb _ _ hgives => (⟨hb, hgives⟩ : b.token? = some (.punct .lparen) ∧
          (specs (fun e => spec' (layout'.docFor? e.start) e) b.advance).Gives
            (fun ss' => List.Forall₂ r more.1 ss'.1) rs)
    refine (hspecs.behindSolid (.advance ht) fun c' rs _ _ hp hm hsolid hgives =>
      (⟨hp.token?, hdoc hm hsolid, hgives⟩ : c'.token? = some t ∧
        γ (layout.docFor? c.start) (layout'.docFor? c'.start) ∧
        c'.advance.token? = some (.punct .lparen) ∧
          (specs (fun e => spec' (layout'.docFor? e.start) e) c'.advance.advance).Gives
            (fun ss' => List.Forall₂ r more.1 ss'.1) rs)).before hus
      fun c' rs _ hmeets hgives => ?_
    obtain ⟨ht', hdoc, hparen', hgives⟩ := hgives
    refine ⟨ht', ?_⟩
    unfold specDecl
    dsimp only
    rw [if_pos hparen']
    refine ((hgives.lift _).lift _).andThen fun more' e' _ hsame he' => ?_
    rw [← he']
    exact hgives_end ((hmeets e' he').token?_of_head? rfl) ⟨⟨hdoc, rfl⟩, hsame⟩
  · next hparen =>
    obtain ⟨s, e, _, hs, hend⟩ := ok_of_andThen h
    obtain ⟨_, hs⟩ := ok_of_lift hs
    obtain ⟨rfl, us, hus, hgives_end⟩ := ok_of_endDecl hend
    obtain ⟨_, hs₁, hPs⟩ := hP
    obtain rfl := List.mem_singleton.1 hs₁
    refine ((hadmits hs hPs).behindSolid (.advance ht) fun c' rs _ _ hp hm hsolid hgives =>
      (⟨hp.token?, hdoc hm hsolid, hgives⟩ : c'.token? = some t ∧
        γ (layout.docFor? c.start) (layout'.docFor? c'.start) ∧
        c'.advance.token? = c.advance.token? ∧
          ∀ doc', (spec' doc' c'.advance).Gives (r _) rs)).before hus
      fun c' rs _ hmeets hgives => ?_
    obtain ⟨ht', hdoc, hnext, hgives⟩ := hgives
    refine ⟨ht', ?_⟩
    unfold specDecl
    dsimp only
    rw [if_neg (hnext ▸ hparen)]
    refine ((hgives none).lift _).andThen fun s' e' _ hsame he' => ?_
    rw [← he']
    exact hgives_end ((hmeets e' he').token?_of_head? rfl) ⟨⟨hdoc, rfl⟩, .cons hsame .nil⟩

end

end

/-! ## Files -/

theorem decl_of_type {layout : Layout} {c : Cursor} (h : c.token? = some (.keyword .type)) :
    c.decl layout =
      (c.specDecl layout (typeSpec layout)).map fun p _ => .types p.1 p.2 := by
  unfold decl
  split <;> first | rfl | simp_all

section

variable {σ : Span → Span → Prop} {ω : Lexeme → Prop} {κ : Lexeme → Lexeme → Prop}
  {γ : Option Nat → Option Nat → Prop} {layout layout' : Layout} {S : TypeExpr}
  (hl : SameGroups σ ω γ layout layout') (hκ : ∀ l e, κ l e → Closes layout layout' γ l e)

include hl hκ

theorem decl_admits {c next : Cursor} {d : Decl} {m : next.left < c.left}
    (h : c.decl layout = .ok d next m) (hS : WrappableIn S d.sites) :
    Admits σ ω κ S.span c next fun c' rs => c'.token? = c.token? ∧
      (c'.decl layout').Gives (d.Alike σ True γ) rs := by
  unfold decl at h
  dsimp only at h
  split at h
  · obtain ⟨_, -, rfl⟩ := ok_of_map h
    exact absurd hS not_wrappableIn_nil
  · next ht =>
    obtain ⟨p, hspecs, rfl⟩ := ok_of_map h
    obtain ⟨q, hq, hS⟩ := hS
    obtain ⟨s, hs, hq⟩ := List.mem_flatMap.1 hq
    refine (specDecl_admits (P := fun s => WrappableIn S s.sites) hl
      (fun doc doc' c c' hm hc hx => typeSpec_echo (k := True) hl doc doc' hm hc (.inl hx))
      (fun doc doc' c c' hm hx =>
        typeSpec_echo (k := True) (.any layout layout) doc doc' hm (solid_any _ _)
          (.inl hx))
      (fun hs hS => typeSpec_admits hl hκ hs hS) hspecs ht (by simp)
        ⟨s, hs, q, hq, hS⟩).imp
      fun c' rs _ hgives => ⟨hgives.1.trans ht.symm, ?_⟩
    rw [decl_of_type hgives.1]
    exact hgives.2.map fun _ _ hp => .types hp.1 hp.2
  · cases h
    exact absurd hS not_wrappableIn_nil
  · cases h
    exact absurd hS not_wrappableIn_nil
  · cases h
    exact absurd hS not_wrappableIn_nil
  · cases h

/-- Declarations are read with parentheses around a type in one of them. -/
theorem decls_admits (c : Cursor) (hfaults : (c.decls layout).2 = [])
    (hS : WrappableIn S ((c.decls layout).1.flatMap Decl.sites)) :
    Admits σ ω κ S.span c (c.skip c.left) fun c' _ => c'.token? = c.token? ∧
      (c'.decls layout').2 = [] ∧
      List.Forall₂ (Decl.Alike σ True γ) (c.decls layout).1 (c'.decls layout').1 := by
  obtain ⟨ht, hdecls⟩ | ⟨ht, hdecls⟩ | ⟨d, next, m, hd⟩ := decls_cases hfaults
  · rw [hdecls] at hS
    exact absurd hS not_wrappableIn_nil
  · have hlt := advance_lt ht
    rw [hdecls] at hfaults hS ⊢
    have hskip : c.skip c.left = c.advance.skip c.advance.left := by
      rw [left_advance, ← Nat.sub_add_cancel (left_pos ht)]
      rfl
    rw [hskip]
    refine (decls_admits c.advance hfaults hS).token ht fun c' rs ht' _ _ hsame => ?_
    rw [decls_of_semi ht']
    exact ⟨ht'.trans ht.symm, hsame.2⟩
  · rw [decls_of_decl hd] at hfaults hS ⊢
    obtain ⟨ts, -, -, -, -, -, -, hp, -⟩ := decl_echo (k := False) (.any layout layout)
      (.of_tokens rfl) (solid_any _ c) rfl d next m hd (Nat.zero_le _)
    have hskip : c.skip c.left = next.skip next.left := by
      rw [hp.left, Past.skip_add, ← hp.skip]
    rw [hskip]
    rcases wrappableIn_append.1 hS with hS | hS
    · refine (decl_admits hl hκ hd hS).beforeSolid (.of_skip (Nat.le_refl _))
        fun c' rs _ hmeets hsolid hgives => ?_
      obtain ⟨ht', d', next', m', hd', hsame, hnext'⟩ := hgives
      have hmore := decls_echo (k := True) hl next next' (hmeets next' hnext') hsolid hfaults
      rw [decls_of_decl hd']
      exact ⟨ht', hmore.1, .cons hsame hmore.2⟩
    · refine (decls_admits next hfaults hS).behindSolid hp
        fun c' rs _ _ _ hm hsolid hmore => ?_
      obtain ⟨ht', hmore⟩ := hmore
      have hleft : next.tokens.length < c.left := by rwa [length_tokens]
      obtain ⟨d', m', hd', hsame⟩ :=
        (decl_echo (k := True) hl hm hsolid (head?_tokens rfl ht')).upTo hd hp
      rw [decls_of_decl hd']
      exact ⟨hm.token? hleft, hmore.1, .cons hsame hmore.2⟩
termination_by c.left

/-- A file is read with parentheses around a type or a single result in one of its
    declarations. -/
theorem read_admits {c : Cursor} {file : SourceFile} (h : SourceFile.read layout c = (file, []))
    (hS : WrappableIn S (file.decls.flatMap Decl.sites)) :
    Admits σ ω κ S.span c (c.skip c.left) fun c' _ => ∃ file',
      SourceFile.read layout' c' = (file', []) ∧ file'.package = file.package ∧
      List.Forall₂ (Decl.Alike σ True γ) file.decls file'.decls := by
  obtain ⟨keyword, name, next, m, hclause⟩ := SourceFile.clause_of_read (congrArg Prod.snd h)
  rw [SourceFile.read_of_clause hclause] at h
  obtain ⟨rfl, hfaults⟩ := Prod.mk.inj h
  obtain ⟨ts, -, -, -, -, -, -, hp, -⟩ := packageClause_echo (σ := fun _ _ => True)
    (.of_tokens rfl) rfl _ next m hclause (Nat.zero_le _)
  have hskip : c.skip c.left = next.skip next.left := by
    rw [hp.left, Past.skip_add, ← hp.skip]
  rw [hskip]
  refine (decls_admits hl hκ next hfaults hS).behind hp fun c' rs _ _ _ hm hmore => ?_
  obtain ⟨ht', hfaults', hdecls⟩ := hmore
  obtain ⟨⟨keyword', name'⟩, m', hclause', hname⟩ :=
    (packageClause_echo hm (head?_tokens rfl ht')).upTo hclause hp
  exact ⟨_, (SourceFile.read_of_clause hclause').trans (congrArg (Prod.mk _) hfaults'), hname,
    hdecls⟩

end

end Cursor

end GoDecls.Tree
