/-
  Putting parentheses around the tokens of a type.

  * `Enclosable S (T, own)`: `S` is below `T` where a type may stand in parentheses, or,
    if `own`, it may be `T` itself;
  * `Wrappable S (T, site)`: the same, or `S` is the single result of a function there,
    which the parentheses make a list;
  * `Around σ ω κ us ms ws c' ws'`: at the cursor `c'` stand the tokens of `us`, those of `ms`
    in parentheses, and `ws'`, which are the tokens of `ws`;
  * `Admits σ ω κ s c d Q`: the tokens at `s` stand between the cursors `c` and `d`; and
    wherever the tokens at `c` stand with these in parentheses, the cursor and what is
    left behind the tokens before `d` have `Q`.  `Admits.behind` and `Admits.before` read
    on from it, to the front and to the back.
-/
import GoDecls.Proofs.Tree.TypeEnds

namespace GoDecls.Tree

/-! ## Where parentheses may stand -/

/-- The fields of a list, each with parentheses around its type or not. -/
def FieldList.places (l : FieldList) : List (TypeExpr × Bool) :=
  l.fields.map fun f => (f.type, true)

/-- A single result is no list of results: parentheses around it would make it one. -/
def Results.places : Results → List (TypeExpr × Bool)
  | .none => []
  | .single type => [(type, false)]
  | .list fields => fields.places

/-- The types of a signature. -/
def Signature.places (s : Signature) : List (TypeExpr × Bool) := s.params.places ++ s.results.places

/-- The types of a member of an interface. -/
def InterfaceElem.places : InterfaceElem → List (TypeExpr × Bool)
  | .method _ sig => sig.places
  | .union terms => terms.map fun t => (t.type, true)

/-- The type of a field, which is in no parentheses if the field is embedded. -/
def Field.place (f : Field) : TypeExpr × Bool := (f.type, !f.embedded)

/-- The types right below a type, and whether each may stand in parentheses. -/
def TypeExpr.places : TypeExpr → List (TypeExpr × Bool)
  | .named _ _ _ args => args.map (·, true)
  | .pointer _ _ elem | .array _ _ elem | .slice _ elem | .chan _ _ elem => [(elem, true)]
  | .map _ key value => [(key, true), (value, true)]
  | .struct _ fields => fields.map Field.place
  | .interface _ elems => elems.flatMap (·.places)
  | .func _ sig => sig.places
  | .paren _ inner => [(inner, true)]

/-- The type may stand in parentheses where it is: at the given place, or below it. -/
inductive Enclosable (S : TypeExpr) : TypeExpr × Bool → Prop where
  | here : Enclosable S (S, true)
  | under {p q : TypeExpr × Bool} (h : q ∈ p.1.places) (hq : Enclosable S q) : Enclosable S p

/-- The type may stand in parentheses at one of the places. -/
def EnclosableIn (S : TypeExpr) (ps : List (TypeExpr × Bool)) : Prop := ∃ p ∈ ps, Enclosable S p

/-! ## Where a list of results may stand -/

/-- What stands at a place: a type, which may stand in parentheses if `own`, or the single
    result of a function, which is a list of results in them. -/
inductive Site where
  | type (own : Bool)
  | result

/-- Whether what stands at the place may stand in parentheses, and be the same. -/
def Site.own : Site → Bool
  | .type own => own
  | .result => false

/-- The types of a list. -/
def FieldList.sites (l : FieldList) : List (TypeExpr × Site) :=
  l.fields.map fun f => (f.type, .type true)

/-- The types of the results. -/
def Results.sites : Results → List (TypeExpr × Site)
  | .none => []
  | .single type => [(type, .result)]
  | .list fields => fields.sites

/-- The types of a signature. -/
def Signature.sites (s : Signature) : List (TypeExpr × Site) := s.params.sites ++ s.results.sites

/-- The types of a member of an interface. -/
def InterfaceElem.sites : InterfaceElem → List (TypeExpr × Site)
  | .method _ sig => sig.sites
  | .union terms => terms.map fun t => (t.type, .type true)

/-- The type of a field. -/
def Field.site (f : Field) : TypeExpr × Site := (f.type, .type !f.embedded)

/-- The types right below a type, and what each is there. -/
def TypeExpr.sites : TypeExpr → List (TypeExpr × Site)
  | .named _ _ _ args => args.map (·, .type true)
  | .pointer _ _ elem | .array _ _ elem | .slice _ elem | .chan _ _ elem => [(elem, .type true)]
  | .map _ key value => [(key, .type true), (value, .type true)]
  | .struct _ fields => fields.map Field.site
  | .interface _ elems => elems.flatMap (·.sites)
  | .func _ sig => sig.sites
  | .paren _ inner => [(inner, .type true)]

/-- The type may stand in parentheses where it is, at the given place or below it: as the
    same type, or as a list of one result. -/
inductive Wrappable (S : TypeExpr) : TypeExpr × Site → Prop where
  | type : Wrappable S (S, .type true)
  | result : Wrappable S (S, .result)
  | under {p q : TypeExpr × Site} (h : q ∈ p.1.sites) (hq : Wrappable S q) : Wrappable S p

/-- The type may stand in parentheses at one of the places. -/
def WrappableIn (S : TypeExpr) (ps : List (TypeExpr × Site)) : Prop := ∃ p ∈ ps, Wrappable S p

section

variable {S : TypeExpr} {p : TypeExpr × Site} {ps qs : List (TypeExpr × Site)}

theorem not_wrappableIn_nil : ¬ WrappableIn S [] := fun ⟨_, h, _⟩ => List.not_mem_nil h

theorem wrappableIn_append :
    WrappableIn S (ps ++ qs) ↔ WrappableIn S ps ∨ WrappableIn S qs := by
  simp only [WrappableIn, List.mem_append, or_and_right, exists_or]

theorem wrappableIn_cons : WrappableIn S (p :: ps) ↔ Wrappable S p ∨ WrappableIn S ps := by
  simp only [WrappableIn, List.mem_cons, or_and_right, exists_or, exists_eq_left]

theorem wrappableIn_singleton : WrappableIn S [p] ↔ Wrappable S p := by
  simp only [WrappableIn, List.mem_singleton, exists_eq_left]

theorem wrappableIn_map {α : Type} {f : α → TypeExpr × Site} {l : List α} :
    WrappableIn S (l.map f) ↔ ∃ a ∈ l, Wrappable S (f a) := by
  simp only [WrappableIn, List.mem_map, exists_exists_and_eq_and]

theorem wrappableIn_flatMap {α : Type} {f : α → List (TypeExpr × Site)} {l : List α} :
    WrappableIn S (l.flatMap f) ↔ ∃ a ∈ l, WrappableIn S (f a) := by
  simp only [WrappableIn, List.mem_flatMap]
  constructor
  · rintro ⟨p, ⟨a, ha, hp⟩, h⟩
    exact ⟨a, ha, p, hp, h⟩
  · rintro ⟨a, ha, p, hp, h⟩
    exact ⟨p, ⟨a, ha, hp⟩, h⟩

end

/-! ### Both kinds of places -/

theorem FieldList.places_eq (l : FieldList) :
    l.places = l.sites.map fun q => (q.1, q.2.own) := by
  rw [places, sites, List.map_map]
  rfl

theorem Results.places_eq (r : Results) : r.places = r.sites.map fun q => (q.1, q.2.own) := by
  cases r with
  | list fields => exact fields.places_eq
  | _ => rfl

theorem Signature.places_eq (s : Signature) :
    s.places = s.sites.map fun q => (q.1, q.2.own) := by
  rw [places, sites, List.map_append, s.params.places_eq, s.results.places_eq]

theorem InterfaceElem.places_eq (e : InterfaceElem) :
    e.places = e.sites.map fun q => (q.1, q.2.own) := by
  cases e with
  | method _ sig => exact sig.places_eq
  | union terms =>
    rw [places, sites, List.map_map]
    rfl

theorem TypeExpr.places_eq (T : TypeExpr) : T.places = T.sites.map fun q => (q.1, q.2.own) := by
  cases T with
  | named _ _ _ _ | struct _ _ =>
    rw [places, sites, List.map_map]
    rfl
  | interface _ elems =>
    rw [places, sites, List.map_flatMap]
    exact congrArg elems.flatMap (funext InterfaceElem.places_eq)
  | func _ sig => exact sig.places_eq
  | _ => rfl

/-- A type that may stand in parentheses as a type may stand in them. -/
theorem Enclosable.wrappable {S : TypeExpr} {p : TypeExpr × Bool} (h : Enclosable S p) :
    ∀ {site : Site}, site.own = p.2 → Wrappable S (p.1, site) := by
  induction h with
  | here =>
    intro site hown
    cases site with
    | type own =>
      obtain rfl : own = true := hown
      exact .type
    | result => cases hown
  | under hq _ ih =>
    intro site _
    rw [TypeExpr.places_eq] at hq
    obtain ⟨r, hr, rfl⟩ := List.mem_map.1 hq
    exact .under hr (ih rfl)

/-! ### Single results -/

theorem FieldList.types_eq (l : FieldList) : l.types = l.sites.map (·.1) := by
  rw [types, sites, List.map_map]
  rfl

theorem Results.types_eq_sites (r : Results) : r.types = r.sites.map (·.1) := by
  cases r with
  | list fields => exact fields.types_eq
  | _ => rfl

theorem Signature.types_eq (s : Signature) : s.types = s.sites.map (·.1) := by
  rw [types, sites, List.map_append, s.params.types_eq, s.results.types_eq_sites]

theorem InterfaceElem.types_eq (e : InterfaceElem) : e.types = e.sites.map (·.1) := by
  cases e with
  | method _ sig => exact sig.types_eq
  | union terms =>
    rw [types, sites, List.map_map]
    rfl

theorem TypeExpr.parts_eq (T : TypeExpr) : T.parts = T.sites.map (·.1) := by
  cases T with
  | named _ _ _ _ =>
    rw [parts, sites, List.map_map]
    exact (List.map_id _).symm
  | struct _ _ =>
    rw [parts, sites, List.map_map]
    rfl
  | interface _ elems =>
    rw [parts, sites, List.map_flatMap]
    exact congrArg elems.flatMap (funext InterfaceElem.types_eq)
  | func _ sig => exact sig.types_eq
  | _ => rfl

/-- The result that is written without parentheses. -/
def Results.sole : Results → List TypeExpr
  | .single type => [type]
  | _ => []

/-- The single result of a method. -/
def InterfaceElem.soleResults : InterfaceElem → List TypeExpr
  | .method _ sig => sig.results.sole
  | .union _ => []

/-- The single result of a function type, or those of the methods of an interface. -/
def TypeExpr.soleResults : TypeExpr → List TypeExpr
  | .func _ sig => sig.results.sole
  | .interface _ elems => elems.flatMap (·.soleResults)
  | _ => []

/-- The first type is a single result in the second one, of a function type or a method at
    any depth. -/
inductive SoleResult (R : TypeExpr) : TypeExpr → Prop where
  | here {T : TypeExpr} (h : R ∈ T.soleResults) : SoleResult R T
  | under {S T : TypeExpr} (h : S ∈ T.parts) (hS : SoleResult R S) : SoleResult R T

theorem Signature.mem_sites_of_sole {sig : Signature} {R : TypeExpr} (h : R ∈ sig.results.sole) :
    (R, Site.result) ∈ sig.sites := by
  refine List.mem_append_right _ ?_
  generalize sig.results = r at h
  cases r with
  | single _ =>
    rw [List.mem_singleton.1 h]
    exact List.mem_cons_self
  | _ => cases h

theorem TypeExpr.mem_sites_of_soleResults {R T : TypeExpr} (h : R ∈ T.soleResults) :
    (R, Site.result) ∈ T.sites := by
  cases T with
  | func _ _ => exact Signature.mem_sites_of_sole h
  | interface _ elems =>
    obtain ⟨e, he, hR⟩ := List.mem_flatMap.1 h
    refine List.mem_flatMap.2 ⟨e, he, ?_⟩
    cases e with
    | method _ _ => exact Signature.mem_sites_of_sole hR
    | union _ => cases hR
  | _ => cases h

/-- A single result may stand in parentheses, as a list of one. -/
theorem SoleResult.wrappable {R T : TypeExpr} (h : SoleResult R T) :
    ∀ site, Wrappable R (T, site) := by
  induction h with
  | here h => exact fun _ => .under (TypeExpr.mem_sites_of_soleResults h) .result
  | under h _ ih =>
    intro site
    rw [TypeExpr.parts_eq] at h
    obtain ⟨q, hq, rfl⟩ := List.mem_map.1 h
    exact .under hq (ih q.2)

/-- What holds everywhere in a type holds everywhere in a single result in it. -/
theorem SoleResult.everywhere {P : TypeExpr → Prop} {R T : TypeExpr} (h : SoleResult R T)
    (hT : T.Everywhere P) : R.Everywhere P := by
  induction h with
  | @here T h =>
    obtain ⟨-, below⟩ := hT
    refine below R ?_
    rw [TypeExpr.parts_eq]
    exact List.mem_map_of_mem (TypeExpr.mem_sites_of_soleResults h)
  | under h _ ih =>
    obtain ⟨-, below⟩ := hT
    exact ih (below _ h)

/-! ## Entries of lists -/

namespace Param

variable {σ : Span → Span → Prop} {S : TypeExpr} {p p' : Param} {ps ps' : List Param}
  {fs : List Field} {named : Bool}

/-- The types of an entry.  A name by itself is one if the entries are not named. -/
def sites (named : Bool) : Param → List (TypeExpr × Site)
  | .bare name => if named then [] else [(.named name.span none name [], .type true)]
  | .typed _ _ _ type => [(type, .type true)]

/-- The second entry is the first one, with parentheses around types perhaps.  A name
    that is a type is no name by itself in them. -/
inductive Follows (σ : Span → Span → Prop) (named : Bool) : Param → Param → Prop where
  | alike {p p' : Param} (h : p.Alike σ True p') : Follows σ named p p'
  | enclosed {name : Ident} {s : Span} {T : TypeExpr} (hn : named = false)
      (h : (TypeExpr.named name.span none name []).Alike σ True T) :
      Follows σ named (.bare name) (.typed s none none T)

/-- A name by itself is a type only as a whole. -/
theorem eq_of_wrappableIn_bare {name : Ident} (h : WrappableIn S ((bare name).sites named)) :
    named = false ∧ S = .named name.span none name [] := by
  cases named with
  | true => exact absurd h not_wrappableIn_nil
  | false =>
    refine ⟨rfl, ?_⟩
    cases wrappableIn_singleton.1 h with
    | type => rfl
    | under hq _ => cases hq

theorem mem_sites_of_toNamed (named : Bool) : ∀ {ps : List Param} {pending : List Ident}
    {fs : List Field}, toNamed pending ps = .ok fs → ∀ f ∈ fs,
    (f.type, .type true) ∈ ps.flatMap (sites named)
  | [], pending, fs, h, f, hf => by
    rw [toNamed] at h
    split at h
    · cases h
      cases hf
    · cases h
  | .bare name :: ps, pending, fs, h, f, hf => by
    rw [List.flatMap_cons]
    have hmore : toNamed (pending ++ [name]) ps = .ok fs := h
    exact List.mem_append_right _ (mem_sites_of_toNamed named hmore f hf)
  | .typed _ _ _ _ :: ps, pending, fs, h, f, hf => by
    rw [toNamed] at h
    cases hmore : toNamed [] ps with
    | error _ =>
      rw [hmore] at h
      cases h
    | ok more =>
      rw [hmore] at h
      cases h
      rcases List.mem_cons.1 hf with rfl | hf
      · exact List.mem_cons_self
      · exact List.mem_cons_of_mem _ (mem_sites_of_toNamed named hmore f hf)

theorem mem_sites_of_isNamed (hp : p.isNamed = false) :
    (p.toAnonymous.type, .type true) ∈ p.sites false := by
  cases p <;> exact List.mem_cons_self

/-- The types of the fields of a list are those of its entries. -/
theorem wrappableIn_of_toFields (h : toFields ps = .ok fs)
    (hS : WrappableIn S (fs.map fun f => (f.type, .type true))) :
    WrappableIn S (ps.flatMap (sites (ps.any isNamed))) := by
  obtain ⟨_, hq, hS⟩ := hS
  obtain ⟨f, hf, rfl⟩ := List.mem_map.1 hq
  refine ⟨_, ?_, hS⟩
  unfold toFields at h
  split at h
  · exact mem_sites_of_toNamed _ h f hf
  · next hn =>
    cases h
    obtain ⟨p, hp, rfl⟩ := List.mem_map.1 hf
    rw [Bool.not_eq_true] at hn
    rw [hn]
    have hp_named : p.isNamed = false := by simpa using List.any_eq_false.1 hn p hp
    exact List.mem_flatMap.2 ⟨p, hp, mem_sites_of_isNamed hp_named⟩

theorem Follows.isNamed (h : p.Follows σ named p') : p'.isNamed = p.isNamed := by
  cases h with
  | alike h => exact h.isNamed
  | enclosed _ _ => rfl

theorem Follows.toAnonymous (h : p.Follows σ named p') :
    p.toAnonymous.Alike σ True p'.toAnonymous := by
  cases h with
  | alike h => exact h.toAnonymous
  | enclosed _ h => exact anonymous_alike rfl h

/-- The entry is a type that is alike, by itself. -/
def IsSole (σ : Span → Span → Prop) (T : TypeExpr) (p : Param) : Prop :=
  p.isNamed = false ∧ ∃ s T', p.toAnonymous = anonymous s none T' ∧ T.Alike σ True T'

theorem IsSole.toFields {T : TypeExpr} (h : p.IsSole σ T) :
    ∃ s T', Param.toFields [p] = .ok [anonymous s none T'] ∧ T.Alike σ True T' := by
  obtain ⟨hn, s, T', hp, hT'⟩ := h
  refine ⟨s, T', ?_, hT'⟩
  rw [Param.toFields, if_neg (by simp [hn]), List.map_singleton, hp]

/-- Entries that follow others have fields that are alike. -/
theorem toFields_follows (h : List.Forall₂ (Follows σ (ps.any isNamed)) ps ps')
    (hfs : toFields ps = .ok fs) :
    ∃ fs', toFields ps' = .ok fs' ∧ List.Forall₂ (Field.Alike σ True) fs fs' := by
  cases hn : ps.any isNamed with
  | true =>
    rw [hn] at h
    refine toFields_alike (h.imp fun p p' hp => ?_) hfs
    cases hp with
    | alike hp => exact hp
    | enclosed hn _ => cases hn
  | false =>
    have hn' : ps'.any isNamed = false := by
      rw [← hn]
      exact any_eq_of_forall₂ h fun _ _ => Follows.isNamed
    unfold toFields at hfs ⊢
    rw [if_neg (by simp [hn])] at hfs
    cases hfs
    rw [if_neg (by simp [hn'])]
    refine ⟨_, rfl, ?_⟩
    rw [List.forall₂_map_left_iff, List.forall₂_map_right_iff]
    exact h.imp fun _ _ => Follows.toAnonymous

end Param

/-! ## Looking ahead over parentheses -/

section

variable {ls ls' : List Lexeme} {u : Token} {us ts ts' ws : List Token}

theorem Balanced.depthAfter? (h : Balanced ts) (d : Nat) : depthAfter? d ts = some d := by
  have := depthAfter?_add h d
  rwa [Nat.zero_add] at this

theorem bracketThenType_of_open (h : ls.map Lexeme.token = u :: ts) (hu : u.opens = true) {d : Nat}
    (hts : Tree.depthAfter? 0 ts = some d) : bracketThenType ls = false := by
  obtain ⟨l, ls, rfl, rfl, rfl⟩ := List.map_eq_cons_iff.1 h
  have hnone := afterClose?_append hts []
  rw [List.append_nil] at hnone
  rw [bracketThenType, afterClose?_of_opens hu, hnone]
  rfl

/-- Behind brackets a type follows or not, whatever balanced tokens stand in them; and
    what begins a type behind them may be another. -/
theorem bracketThenType_replaced (h : ls.map Lexeme.token = u :: (us ++ (ts ++ ws)))
    (h' : ls'.map Lexeme.token = u :: (us ++ (ts' ++ ws))) (hu : u.opens = true) (hts : Balanced ts)
    (hts' : Balanced ts') (hstarts : ts.head?.any Token.startsType = true)
    (hstarts' : ts'.head?.any Token.startsType = true) :
    bracketThenType ls' = bracketThenType ls := by
  cases hus : depthAfter? 0 us with
  | none =>
    obtain ⟨front, v, back, rfl, hv, hfront⟩ := exists_closing hus
    rw [bracketThenType_of_closing front (back ++ (ts' ++ ws)) (by rw [h']; simp) hu hfront hv,
      bracketThenType_of_closing front (back ++ (ts ++ ws)) (by rw [h]; simp) hu hfront hv]
    cases back with
    | nil =>
      obtain ⟨t, ht, ht_starts⟩ := (Option.any_eq_true _ _).1 hstarts
      obtain ⟨t', ht', ht_starts'⟩ := (Option.any_eq_true _ _).1 hstarts'
      simp [ht, ht', ht_starts, ht_starts']
    | cons b back => rfl
  | some d =>
    have hdepth {ms : List Token} (hms : Balanced ms) (ws : List Token) :
        depthAfter? 0 (us ++ (ms ++ ws)) = depthAfter? d ws := by
      rw [depthAfter?_append, hus, Option.bind_some, depthAfter?_append, hms.depthAfter?,
        Option.bind_some]
    cases hws : depthAfter? d ws with
    | none =>
      obtain ⟨front, v, back, rfl, hv, hfront⟩ := exists_closing hws
      rw [bracketThenType_of_closing (us ++ (ts' ++ front)) back (by rw [h']; simp) hu
          ((hdepth hts' front).trans hfront) hv,
        bracketThenType_of_closing (us ++ (ts ++ front)) back (by rw [h]; simp) hu
          ((hdepth hts front).trans hfront) hv]
    | some e =>
      rw [bracketThenType_of_open h hu ((hdepth hts ws).trans hws),
        bracketThenType_of_open h' hu ((hdepth hts' ws).trans hws)]

end

/-! ## Parentheses among tokens -/

namespace Cursor

/-- At the cursor stand the tokens of `us`, balanced ones of `ms` in parentheses, and
    `ws'`, which are the tokens of `ws`.  Those outside the parentheses have `ω`, but for
    semicolons, and the last one inside has `κ` to the closing one. -/
structure Around (σ : Span → Span → Prop) (ω : Lexeme → Prop) (κ : Lexeme → Lexeme → Prop)
    (us ms ws : List Lexeme) (c' : Cursor) (ws' : List Lexeme) : Prop where
  split : ∃ us' ms' o e, c'.rest = us' ++ o :: (ms' ++ e :: ws') ∧ Twins σ us us' ∧
    o.token = .punct .lparen ∧ Twins σ ms ms' ∧ e.token = .punct .rparen ∧
    ∀ l ∈ ms.getLast?, κ l e
  behind : Twins σ ws ws'
  balanced : Balanced (ms.map Lexeme.token)
  solid : ∀ l ∈ us ++ ws, l.token ≠ .punct .semi → ω l

/-- What looking ahead finds at a cursor with parentheses: the same up to the opening
    one. -/
structure Ahead (c c' : Cursor) : Prop where
  front : ∃ us x x', c.tokens = us ++ x ∧ c'.tokens = us ++ .punct .lparen :: x'
  bracket : ∀ s, c'.token? = some (.ident s) → c'.second? = some (.punct .lbrack) →
    bracketThenType c'.rest.tail = bracketThenType c.rest.tail

/-- The stretch is that of what is read between the cursors, or of the one token there. -/
def Covers (s : Span) (c d : Cursor) : Prop :=
  s = d.spanFrom c.start ∨ d = c.advance ∧ s = c.span

/-- The tokens of a type at `s` stand between `c` and `d`.  Wherever those at `c` stand
    with parentheses around these, `Q` holds of the cursor and of what is left behind the
    tokens before `d`. -/
def Admits (σ : Span → Span → Prop) (ω : Lexeme → Prop) (κ : Lexeme → Lexeme → Prop) (s : Span)
    (c d : Cursor) (Q : Cursor → List Lexeme → Prop) : Prop :=
  ∃ us ms mid : List Lexeme, c.rest = us ++ (ms ++ (mid ++ d.rest)) ∧
    Covers s (c.skip us.length) (c.skip (us.length + ms.length)) ∧
    ms.head?.any (·.token.startsType) = true ∧ ms.getLast?.any (·.token.endsStatement) = true ∧
    ∀ c' ws', Around σ ω κ us ms (mid ++ d.rest) c' ws' → Q c' (ws'.drop mid.length)

section

variable {σ : Span → Span → Prop} {ω : Lexeme → Prop} {κ : Lexeme → Lexeme → Prop}
  {us ms ws ws' : List Lexeme} {c c' d e : Cursor} {Q Q' : Cursor → List Lexeme → Prop} {s : Span} {ts : List Token}

theorem Around.tokens (h : Around σ ω κ us ms ws c' ws') : c'.tokens = us.map Lexeme.token ++
    ((.punct .lparen :: (ms.map Lexeme.token ++ [.punct .rparen])) ++ ws.map Lexeme.token) := by
  obtain ⟨us', ms', o, e, hc', hus, ho, hms, he, hlast⟩ := h.split
  rw [Cursor.tokens, hc', ← hus.tokens, ← hms.tokens, ← h.behind.tokens, ← ho, ← he]
  simp

theorem Around.ahead (h : Around σ ω κ us ms ws c' ws') (hc : c.rest = us ++ (ms ++ ws))
    (hms : ms.head?.any (·.token.startsType) = true) : Ahead c c' := by
  have hc_tokens : c.tokens =
      us.map Lexeme.token ++ (ms.map Lexeme.token ++ ws.map Lexeme.token) := by
    rw [Cursor.tokens, hc, List.map_append, List.map_append]
  have hc'_tokens := h.tokens
  have hstarts : (ms.map Lexeme.token).head?.any Token.startsType = true := by
    rw [List.head?_map, Option.any_map]
    exact hms
  constructor
  · exact ⟨_, _, _, hc_tokens, hc'_tokens⟩
  · intro t ht hb
    rw [token?_eq, hc'_tokens] at ht
    rw [second?_eq, hc'_tokens] at hb
    rcases us with _ | ⟨u, _ | ⟨v, us⟩⟩
    · cases ht
    · cases hb
    · have hv : v.token = .punct .lbrack := Option.some.inj hb
      have htail {b : Cursor} {ts : List Token} (hb : b.tokens = u.token :: v.token :: ts) :
          b.rest.tail.map Lexeme.token = v.token :: ts := by
        rw [List.map_tail, ← Cursor.tokens, hb]
        rfl
      exact bracketThenType_replaced (htail hc_tokens) (htail hc'_tokens) (by rw [hv]; rfl)
        h.balanced (Balanced.enclosed rfl rfl rfl h.balanced) hstarts rfl

theorem Admits.imp (h : Admits σ ω κ s c d Q) (hQ : ∀ c' rs, Ahead c c' → Q c' rs → Q' c' rs) :
    Admits σ ω κ s c d Q' := by
  obtain ⟨us, ms, mid, hc, hs, hstarts, hends, hall⟩ := h
  exact ⟨us, ms, mid, hc, hs, hstarts, hends, fun c' ws' haround =>
    hQ c' _ (haround.ahead hc hstarts) (hall c' ws' haround)⟩

/-- Behind tokens that stand before the parentheses. -/
theorem Around.skip {front : List Lexeme} (h : Around σ ω κ (front ++ us) ms ws c' ws') :
    Around σ ω κ us ms ws (c'.skip front.length) ws' ∧ ∃ front', Twins σ front front' ∧
      c'.rest = front' ++ (c'.skip front.length).rest := by
  obtain ⟨us', ms', o, e, hc', hus, ho, hms, he, hlast⟩ := h.split
  have hlength : front.length ≤ us'.length := by
    rw [hus.length_eq, List.length_append]
    omega
  have hfront := hus.take front.length
  have hback := hus.drop front.length
  rw [List.take_left] at hfront
  rw [List.drop_left] at hback
  have hskip : (c'.skip front.length).rest = us'.drop front.length ++ o :: (ms' ++ e :: ws') := by
    rw [skip_rest, hc', List.drop_append_of_le_length hlength]
  refine ⟨⟨⟨_, ms', o, e, hskip, hback, ho, hms, he, hlast⟩, h.behind, h.balanced, ?_⟩, _, hfront,
    ?_⟩
  · refine fun l hl => h.solid l ?_
    rw [List.append_assoc]
    exact List.mem_append_right _ hl
  · rw [hskip, ← List.append_assoc, List.take_append_drop, hc']

/-- Other tokens stand before, outside the parentheses. -/
theorem Admits.behindSolid (h : Admits σ ω κ s d e Q) (hp : Past ts c d)
    (hQ : ∀ c' rs, Ahead c c' → Ahead d (c'.skip ts.length) → Past ts c' (c'.skip ts.length) →
      Meets σ d.tokens (c'.skip ts.length).tokens c c' → c.Solid ω d.tokens →
      Q (c'.skip ts.length) rs → Q' c' rs) :
    Admits σ ω κ s c e Q' := by
  obtain ⟨us, ms, mid, hd, hs, hstarts, hends, hall⟩ := h
  obtain ⟨front, hc, hlength⟩ : ∃ front, c.rest = front ++ d.rest ∧ front.length = ts.length := by
    refine ⟨c.rest.take ts.length, by rw [hp.rest, List.take_append_drop], ?_⟩
    have hleft : c.rest.length = ts.length + d.left := hp.left
    rw [List.length_take]
    omega
  have hskip (n : Nat) : c.skip (front.length + n) = d.skip n := by
    rw [Past.skip_add, hlength, ← hp.skip]
  have hc_all : c.rest = (front ++ us) ++ (ms ++ (mid ++ e.rest)) := by
    rw [hc, hd, List.append_assoc]
  refine ⟨front ++ us, ms, mid, hc_all, ?_, hstarts, hends, fun c' ws' haround => ?_⟩
  · rwa [List.length_append, Nat.add_assoc, hskip, hskip]
  · obtain ⟨hback, front', htwins, hc'⟩ := haround.skip
    rw [hlength] at hback hc'
    have hfront : front'.map Lexeme.token = ts := by
      have htokens := hp.tokens
      rw [Cursor.tokens, hc, List.map_append] at htokens
      rw [htwins.tokens, List.append_cancel_right htokens]
    have hpast : Past ts c' (c'.skip ts.length) := by
      refine ⟨rfl, ?_⟩
      rw [Cursor.tokens, Cursor.tokens, ← hfront, ← List.map_append, hfront, ← hc']
    have hsolid : c.Solid ω d.tokens := by
      intro vs xs hvs hxs l hl
      have hlengths := congrArg List.length hxs
      rw [List.length_map, length_tokens] at hlengths
      obtain ⟨rfl, -⟩ := List.append_inj' (hc.symm.trans hvs) hlengths.symm
      exact haround.solid l (by simp [hl])
    exact hQ c' _ (haround.ahead hc_all hstarts) (hback.ahead hd hstarts) hpast
      ⟨front, front', d.rest, _, hc, hc', htwins, rfl, rfl⟩ hsolid (hall _ ws' hback)

theorem Admits.behind (h : Admits σ ω κ s d e Q) (hp : Past ts c d)
    (hQ : ∀ c' rs, Ahead c c' → Ahead d (c'.skip ts.length) → Past ts c' (c'.skip ts.length) →
      Meets σ d.tokens (c'.skip ts.length).tokens c c' → Q (c'.skip ts.length) rs → Q' c' rs) :
    Admits σ ω κ s c e Q' :=
  h.behindSolid hp fun c' rs hahead hnext hp hm _ => hQ c' rs hahead hnext hp hm

/-- Other tokens stand behind, outside the parentheses. -/
theorem Admits.beforeSolid (h : Admits σ ω κ s c d Q) (hp : Past ts d e)
    (hQ : ∀ c' rs, Ahead c c' → (∀ d' : Cursor, d'.rest = rs → Meets σ [] [] d d') →
      d.Solid ω [] → Q c' rs → Q' c' (rs.drop ts.length)) : Admits σ ω κ s c e Q' := by
  obtain ⟨us, ms, mid, hc, hs, hstarts, hends, hall⟩ := h
  have hleft : d.rest.length = ts.length + e.left := hp.left
  have hd : d.rest = d.rest.take ts.length ++ e.rest := by rw [hp.rest, List.take_append_drop]
  refine ⟨us, ms, mid ++ d.rest.take ts.length, by rw [List.append_assoc, ← hd, hc], hs, hstarts,
    hends, fun c' ws' haround => ?_⟩
  rw [List.append_assoc, ← hd] at haround
  have hmeets (d' : Cursor) (hd' : d'.rest = ws'.drop mid.length) : Meets σ [] [] d d' := by
    have htwins := haround.behind.drop mid.length
    rw [List.drop_left, ← hd'] at htwins
    exact ⟨d.rest, d'.rest, [], [], (List.append_nil _).symm, (List.append_nil _).symm, htwins, rfl,
      rfl⟩
  have hsolid : d.Solid ω [] := fun vs xs hvs _ l hl => haround.solid l (by simp [hvs, hl])
  have hrest := hQ c' _ (haround.ahead hc hstarts) hmeets hsolid (hall c' ws' haround)
  rwa [List.drop_drop, ← List.length_take_of_le (by omega : ts.length ≤ d.rest.length),
    ← List.length_append] at hrest

theorem Admits.before (h : Admits σ ω κ s c d Q) (hp : Past ts d e)
    (hQ : ∀ c' rs, Ahead c c' → (∀ d' : Cursor, d'.rest = rs → Meets σ [] [] d d') → Q c' rs →
      Q' c' (rs.drop ts.length)) : Admits σ ω κ s c e Q' :=
  h.beforeSolid hp fun c' rs hahead hm _ => hQ c' rs hahead hm

/-- Another token stands before. -/
theorem Admits.token (h : Admits σ ω κ s c.advance e Q) {t : Token} (ht : c.token? = some t)
    (hQ : ∀ c' rs, c'.token? = some t → Ahead c c' → Ahead c.advance c'.advance →
      Q c'.advance rs → Q' c' rs) : Admits σ ω κ s c e Q' :=
  h.behind (.advance ht) fun c' rs hahead hnext hp _ hrs => hQ c' rs hp.token? hahead hnext hrs

/-- The first token is the opening parenthesis, or the same; and so the second one then. -/
theorem Ahead.two (h : Ahead c c') : c'.token? = some (.punct .lparen) ∨ c'.token? = c.token? ∧
    (c'.second? = some (.punct .lparen) ∨ c'.second? = c.second?) := by
  obtain ⟨us, x, x', hc, hc'⟩ := h.front
  rw [token?_eq, token?_eq, second?_eq, second?_eq, hc, hc']
  rcases us with _ | ⟨u, _ | ⟨v, us⟩⟩
  · exact .inl rfl
  · exact .inr ⟨rfl, .inl rfl⟩
  · exact .inr ⟨rfl, .inr rfl⟩

/-- What is no opening parenthesis is either the same at both cursors, or not there. -/
theorem Ahead.ends (h : Ahead c c') {P : Token → Prop} (hP : ¬ P (.punct .lparen)) :
    Ends P c.tokens c'.tokens := by
  rw [Ends, ← token?_eq, ← token?_eq]
  rcases h.two with htoken | ⟨htoken, -⟩
  · rw [htoken]
    exact .inr fun t ht hPt => hP (Option.some.inj ht ▸ hPt)
  · exact .inl htoken.symm

theorem Ahead.token?_some (h : Ahead c c') {t : Token} (ht : c.token? = some t) :
    ∃ t', c'.token? = some t' ∧ (t' = t ∨ t' = .punct .lparen) := by
  rcases h.two with htoken | ⟨htoken, -⟩
  · exact ⟨_, htoken, .inr rfl⟩
  · exact ⟨t, htoken.trans ht, .inl rfl⟩

theorem Ahead.token?_ne (h : Ahead c c') {t : Token} (ht : t ≠ .punct .lparen)
    (hc : c.token? ≠ some t) : c'.token? ≠ some t := by
  rcases h.two with htoken | ⟨htoken, -⟩
  · rw [htoken]
    exact fun h => ht (Option.some.inj h).symm
  · rwa [htoken]

end

/-! ## What is read before and behind -/

theorem Past.next {c d : Cursor} {t u : Token} {ts : List Token} (h : Past (t :: u :: ts) c d) :
    c.advance.token? = some u := by
  rw [token?_eq, tokens_advance, h.tokens]
  rfl

theorem head?_tokens {c c' : Cursor} {t : Option Token} (h : c.token? = t) (h' : c'.token? = t) :
    c.tokens.head? = c'.tokens.head? := by
  rw [← token?_eq, ← token?_eq, h, h']

theorem Past.between {c d e : Cursor} {ts us : List Token} (h : Past ts c d) (h' : Past us c e)
    (hle : e.left ≤ d.left) : ∃ vs, Past vs d e := by
  have hd := h.left
  have he := h'.left
  obtain ⟨vs, rfl⟩ : ts <+: us := by
    refine List.prefix_of_prefix_length_le ⟨d.tokens, h.tokens.symm⟩ ⟨e.tokens, h'.tokens.symm⟩ ?_
    omega
  refine ⟨vs, ?_, ?_⟩
  · rw [h.skip, h'.skip, List.length_append, Past.skip_add]
  · have := h'.tokens
    rw [h.tokens, List.append_assoc] at this
    exact List.append_cancel_left this

end Cursor

namespace Outcome

open Cursor

variable {σ : Span → Span → Prop} {α β : Type} {c c' d : Cursor} {P : List Token → Prop}
  {r : α → α → Prop} {o : Outcome α c} {o' : Outcome α c'} {a : α} {m : d.left < c.left}
  {ts : List Token}

/-- What is read before `d` is read before the cursor with as many tokens before it. -/
theorem Echoes.upTo (h : o.Echoes d.tokens P r o') (ho : o = .ok a d m) (hp : Past ts c d) :
    ∃ a' m', o' = .ok a' (c'.skip ts.length) m' ∧ r a a' := by
  obtain ⟨us, a', d', m', ho', ha, -, hq, hq'⟩ := h a d m ho (Nat.le_of_eq (length_tokens d))
  have hlength : us.length = ts.length := by
    have := hp.left
    have := hq.left
    omega
  obtain rfl : d' = c'.skip ts.length := hlength ▸ hq'.skip
  exact ⟨a', m', ho', ha⟩

/-- What is read to the back leaves as many tokens less. -/
theorem Echoes.gives (h : o.Echoes [] P r o') (ho : o = .ok a d m) (hp : Past ts c d) :
    o'.Gives (r a) (c'.rest.drop ts.length) := by
  obtain ⟨us, a', d', m', rfl, ha, -, hq, hq'⟩ := h a d m ho (Nat.zero_le _)
  have hlength : us.length = ts.length := by
    have := hp.left
    have := hq.left
    omega
  exact .ok ha (hlength ▸ hq'.rest)

theorem expect_of_token? {t : Token} (ht : c.token? = some t) (what : String) :
    c.expect t what = .ok c.span c.advance (advance_lt ht) := by
  rw [Cursor.expect, dif_pos ht]

theorem Gives.expect {β : Type} {Q : β → Prop} {rs : List Lexeme} {t : Token} {what : String}
    {k : Span → (d : Cursor) → d.left < c.left → Outcome β d} (ht : c.token? = some t)
    (hk : (k c.span c.advance (advance_lt ht)).Gives Q rs) :
    ((c.expect t what).bind k).Gives Q rs := by
  rw [expect_of_token? ht]
  exact hk.after (advance_lt ht)

theorem ident_of_token? {s : String} (ht : c.token? = some (.ident s)) (what : String) :
    c.ident what = .ok ⟨s, c.span⟩ c.advance (advance_lt ht) := by
  unfold Cursor.ident
  split
  · next hs =>
    cases ht.symm.trans hs
    rfl
  · next hn => exact absurd ht (hn s)

theorem Gives.ident {β : Type} {Q : β → Prop} {rs : List Lexeme} {s what : String}
    {k : Ident → (d : Cursor) → d.left < c.left → Outcome β d} (ht : c.token? = some (.ident s))
    (hk : (k ⟨s, c.span⟩ c.advance (advance_lt ht)).Gives Q rs) :
    ((c.ident what).bind k).Gives Q rs := by
  rw [ident_of_token? ht]
  exact hk.after (advance_lt ht)

end Outcome

end GoDecls.Tree
