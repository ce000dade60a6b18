/-
  Types in canonical form: those whose tokens say what they are.

  The form asks little.  The element of a channel of both directions is no
  receive-only channel, as `chan <-chan T` is a channel to send on; a single
  result is not in parentheses, which would be those of a list; and an array
  length that is kept as text is none of the kinds that are told apart.  The
  rest says of which fields a struct and a list of parameters consist.

  * `TypeExpr.render_eq_head`: the first token of a type, with which a type can
    begin;
  * `TypeExpr.Canonical.balanced`: the brackets of a type are balanced.
-/
import GoDecls.Proofs.Tree.Balance

namespace GoDecls.Tree

/-! ## Canonical form -/

/-- The type is `<-chan T`. -/
def TypeExpr.isReceiveOnly : TypeExpr → Bool
  | .chan _ .recv _ => true
  | _ => false

/-- The type is `(T)`. -/
def TypeExpr.isParen : TypeExpr → Bool
  | .paren _ _ => true
  | _ => false

/-- A field may be embedded under the type: it is a name or a pointer. -/
def TypeExpr.isEmbeddable : TypeExpr → Bool
  | .named _ _ _ _ | .pointer _ _ _ => true
  | _ => false

/-- The tokens of an array length are of the kind that the tree says; those of
    one that is kept as text are balanced, and of no other kind. -/
def ArrayLength.Canonical (m : Manner) : ArrayLength → Prop
  | .ellipsis _ | .expr _ (.ident _) | .expr _ (.selector _ _) => True
  | .expr span (.literal kind) => ∃ t, m.source span = [t] ∧ literalKind? t = some kind
  | .expr span .other =>
    Balanced (m.source span) ∧ m.source span ≠ [] ∧ m.source span ≠ [.punct .ellipsis] ∧
      (∀ name, m.source span ≠ [.ident name]) ∧
      (∀ pkg name, m.source span ≠ [.ident pkg, .punct .dot, .ident name]) ∧
      ∀ t, (literalKind? t).isSome → m.source span ≠ [t]

/-- A field of a struct has names, or is embedded; its tag is a string. -/
structure Field.InStruct (m : Manner) (f : Field) : Prop where
  ellipsis_eq : f.ellipsis = none
  embedded_eq : f.embedded = f.names.isEmpty
  embeddable : f.names = [] → f.type.isEmbeddable = true
  tag_string : ∀ span ∈ f.tag, ∃ t, m.source span = [t] ∧ t.isString = true

/-- A parameter or result has no tag and is not embedded. -/
structure Field.InParams (f : Field) : Prop where
  tag_eq : f.tag = none
  embedded_eq : f.embedded = false

/-- The entries of a list all have names, or none has. -/
structure FieldList.Canonical (l : FieldList) : Prop where
  inParams : ∀ f ∈ l.fields, f.InParams
  alike : (∀ f ∈ l.fields, f.names = []) ∨ ∀ f ∈ l.fields, f.names ≠ []

/-- A single result is not in parentheses. -/
def Results.Canonical : Results → Prop
  | .none => True
  | .single type => type.isParen = false
  | .list fields => fields.Canonical

/-- The lists of a signature are canonical. -/
structure Signature.Canonical (s : Signature) : Prop where
  params : s.params.Canonical
  results : s.results.Canonical

/-- A union has terms, and the signature of a method is canonical. -/
def InterfaceElem.Canonical : InterfaceElem → Prop
  | .method _ sig => sig.Canonical
  | .union terms => terms ≠ []

/-- The type itself is as the form asks, whatever the types below it are. -/
def TypeExpr.CanonicalHere (m : Manner) : TypeExpr → Prop
  | .array _ length _ => length.Canonical m
  | .chan _ dir elem => dir = .both → elem.isReceiveOnly = false
  | .struct _ fields => ∀ f ∈ fields, f.InStruct m
  | .interface _ elems => ∀ e ∈ elems, e.Canonical
  | .func _ sig => sig.Canonical
  | _ => True

/-- The type and all types below it are as the form asks. -/
inductive TypeExpr.Canonical (m : Manner) : TypeExpr → Prop where
  | intro {T : TypeExpr} (here : T.CanonicalHere m) (below : ∀ S ∈ T.parts, S.Canonical m) :
    T.Canonical m

/-! ## The first token -/

/-- The first token of a type. -/
def TypeExpr.head : TypeExpr → Token
  | .named _ pkg name _ => (pkg.getD name).token
  | .pointer _ _ _ => .punct .star
  | .array _ _ _ | .slice _ _ => .punct .lbrack
  | .map _ _ _ => .keyword .map
  | .chan _ .recv _ => .punct .arrow
  | .chan _ _ _ => .keyword .chan
  | .struct _ _ => .keyword .struct
  | .interface _ _ => .keyword .interface
  | .func _ _ => .keyword .func
  | .paren _ _ => .punct .lparen

theorem TypeExpr.render_eq_head (m : Manner) (T : TypeExpr) : ∃ ts, T.render m = T.head :: ts := by
  cases T with
  | named _ pkg _ _ => cases pkg <;> exact ⟨_, rfl⟩
  | chan _ dir _ => cases dir <;> exact ⟨_, rfl⟩
  | _ => exact ⟨_, rfl⟩

/-- A type can begin with the first token of a type. -/
theorem TypeExpr.head_startsType (T : TypeExpr) : T.head.startsType = true := by
  cases T with
  | chan _ dir _ => cases dir <;> rfl
  | _ => rfl

theorem TypeExpr.head_ne {t : Token} (ht : t.startsType = false) (T : TypeExpr) : T.head ≠ t := by
  rintro rfl
  rw [T.head_startsType] at ht
  cases ht

theorem TypeExpr.head_ne_arrow {T : TypeExpr} (h : T.isReceiveOnly = false) :
    T.head ≠ .punct .arrow := by
  cases T with
  | chan _ dir _ =>
    cases dir with
    | recv => cases h
    | _ => simp [head]
  | _ => exact nofun

theorem TypeExpr.head_ne_lparen {T : TypeExpr} (h : T.isParen = false) :
    T.head ≠ .punct .lparen := by
  cases T with
  | chan _ dir _ => cases dir <;> simp [head]
  | paren _ _ => cases h
  | _ => exact nofun

/-! ## Balance -/

theorem balanced_renderMark (p : Punct) (ho : p.opens = false) (hc : p.closes = false) :
    ∀ s, Balanced (renderMark p s)
  | none => .nil
  | some _ => Balanced.nil.cons ho hc

theorem balanced_renderNames (names : List Ident) : Balanced (renderNames names) := by
  refine Balanced.listed rfl rfl fun x hx => ?_
  obtain ⟨i, -, rfl⟩ := List.mem_map.1 hx
  exact Balanced.nil.cons rfl rfl

theorem Token.not_opens_of_isString {t : Token} (h : t.isString = true) :
    t.opens = false ∧ t.closes = false := by
  cases t <;> first | exact ⟨rfl, rfl⟩ | cases h

theorem literalKind?_not_opens {t : Token} {kind : LiteralKind} (h : literalKind? t = some kind) :
    t.opens = false ∧ t.closes = false := by
  cases t <;> first | exact ⟨rfl, rfl⟩ | cases h

theorem ArrayLength.Canonical.balanced {m : Manner} {l : ArrayLength} (h : l.Canonical m) :
    Balanced (l.render m) := by
  cases l with
  | ellipsis _ => exact Balanced.nil.cons rfl rfl
  | expr span e =>
    cases e with
    | ident _ => exact Balanced.nil.cons rfl rfl
    | selector _ _ => exact ((Balanced.nil.cons rfl rfl).cons rfl rfl).cons rfl rfl
    | literal kind =>
      obtain ⟨t, ht, hk⟩ := h
      obtain ⟨ho, hc⟩ := literalKind?_not_opens hk
      rw [render, ht]
      exact Balanced.nil.cons ho hc
    | other => exact h.1

/-- A field is balanced if its type is, and its tag is a string if it has one. -/
theorem Field.balanced_render {m : Manner} {f : Field} (hf : Balanced (f.type.render m))
    (ht : ∀ span ∈ f.tag, ∃ t, m.source span = [t] ∧ t.isString = true) :
    Balanced (f.render m) := by
  obtain ⟨_, names, ellipsis, type, tag, _⟩ := f
  have htag : Balanced (renderTag m tag) := by
    cases tag with
    | none => exact .nil
    | some span =>
      obtain ⟨t, hs, hstr⟩ := ht span rfl
      obtain ⟨ho, hc⟩ := Token.not_opens_of_isString hstr
      rw [renderTag, hs]
      exact Balanced.nil.cons ho hc
  rw [render]
  exact (balanced_renderNames names).append
    ((balanced_renderMark _ rfl rfl ellipsis).append (hf.append htag))

theorem FieldList.balanced_render {m : Manner} {l : FieldList} (hl : l.Canonical)
    (h : ∀ S ∈ l.types, Balanced (S.render m)) : Balanced (l.render m) := by
  obtain ⟨_, fields, _⟩ := l
  rw [render, renderFields_eq_map]
  refine (Balanced.listed rfl rfl fun x hx => ?_).enclosed rfl rfl rfl
  obtain ⟨f, hf, rfl⟩ := List.mem_map.1 hx
  refine f.balanced_render (h _ (List.mem_map_of_mem hf)) fun span hs => ?_
  rw [(hl.inParams f hf).tag_eq] at hs
  cases hs

theorem Signature.balanced_render {m : Manner} {s : Signature} (hs : s.Canonical)
    (h : ∀ S ∈ s.types, Balanced (S.render m)) : Balanced (s.render m) := by
  obtain ⟨_, params, results⟩ := s
  simp only [types, List.mem_append] at h
  rw [render]
  refine (params.balanced_render hs.params fun S hS => h S (.inl hS)).append ?_
  cases results with
  | none => exact .nil
  | single type => exact h type (.inr (List.mem_singleton_self type))
  | list fields => exact fields.balanced_render hs.results fun S hS => h S (.inr hS)

theorem Term.balanced_render {m : Manner} {t : Term} (h : Balanced (t.type.render m)) :
    Balanced (t.render m) := by
  obtain ⟨tilde, type⟩ := t
  rw [render]
  exact (balanced_renderMark _ rfl rfl tilde).append h

theorem InterfaceElem.balanced_render {m : Manner} {e : InterfaceElem} (he : e.Canonical)
    (h : ∀ S ∈ e.types, Balanced (S.render m)) : Balanced (e.render m) := by
  cases e with
  | method name sig => exact (sig.balanced_render he h).cons rfl rfl
  | union terms =>
    rw [render, renderTerms_eq_map]
    refine Balanced.listed rfl rfl fun x hx => ?_
    obtain ⟨t, ht, rfl⟩ := List.mem_map.1 hx
    exact t.balanced_render (h _ (List.mem_map_of_mem ht))

theorem balanced_renderArgs {m : Manner} {xs : List (List Token)} (h : ∀ x ∈ xs, Balanced x) :
    Balanced (renderArgs m xs) := by
  cases xs with
  | nil => exact .nil
  | cons x xs => exact (Balanced.listed rfl rfl h).enclosed rfl rfl rfl

/-- **The brackets of a type are balanced.** -/
theorem TypeExpr.Canonical.balanced {m : Manner} {T : TypeExpr} (hT : T.Canonical m) :
    Balanced (T.render m) := by
  induction hT with
  | @intro T here _ ih =>
    cases T with
    | named _ pkg name args =>
      rw [render, renderTypes_eq_map]
      have hargs : Balanced (renderArgs m (args.map (·.render m))) :=
        balanced_renderArgs fun x hx => by
          obtain ⟨S, hS, rfl⟩ := List.mem_map.1 hx
          exact ih S hS
      have hname : Balanced (name.token :: renderArgs m (args.map (·.render m))) :=
        hargs.cons rfl rfl
      cases pkg with
      | none => exact hname
      | some pkg => exact (hname.cons rfl rfl).cons rfl rfl
    | pointer _ _ elem => exact (ih elem (List.mem_singleton_self elem)).cons rfl rfl
    | array _ length elem =>
      have helem := ih elem (List.mem_singleton_self elem)
      have := ((ArrayLength.Canonical.balanced here).enclosed (t := .punct .lbrack)
        (u := .punct .rbrack) rfl rfl rfl).append helem
      simpa [render] using this
    | slice _ elem =>
      have helem := ih elem (List.mem_singleton_self elem)
      exact (Balanced.nil.enclosed rfl rfl rfl).append helem
    | map _ key value =>
      have hkey := ih key List.mem_cons_self
      have hvalue := ih value (by simp [parts])
      have := (hkey.enclosed (t := .punct .lbrack) (u := .punct .rbrack) rfl rfl rfl).append hvalue
      simpa [render] using this.cons (t := .keyword .map) rfl rfl
    | chan _ dir elem =>
      have helem := ih elem (List.mem_singleton_self elem)
      have hdir : Balanced dir.render := by cases dir <;> rfl
      exact hdir.append helem
    | struct _ fields =>
      rw [render, renderFields_eq_map]
      refine ((Balanced.listed rfl rfl fun x hx => ?_).enclosed rfl rfl rfl).cons rfl rfl
      obtain ⟨f, hf, rfl⟩ := List.mem_map.1 hx
      exact f.balanced_render (ih _ (List.mem_map_of_mem hf)) (here f hf).tag_string
    | interface _ elems =>
      rw [render, renderElems_eq_map]
      refine ((Balanced.listed rfl rfl fun x hx => ?_).enclosed rfl rfl rfl).cons rfl rfl
      obtain ⟨e, he, rfl⟩ := List.mem_map.1 hx
      exact e.balanced_render (here e he) fun S hS => ih S (List.mem_flatMap.2 ⟨e, he, hS⟩)
    | func _ sig => exact (sig.balanced_render here ih).cons rfl rfl
    | paren _ inner => exact (ih inner (List.mem_singleton_self inner)).enclosed rfl rfl rfl

end GoDecls.Tree
