/-
  The readers of types, by what stands at the cursor.

  * `mapValue`, `parenClose`, `tagged`: what is read behind a part, which is read alike at
    two cursors with the same tokens;
  * `ListLoop.admits`: a list is read with the parentheses in it when the item they are in
    is;
  * `FrontOf own c c'`: what a type begins with at `c` stands at `c'` too, or a
    parenthesis does that is around it; what looking ahead decides is then the same.
-/
import GoDecls.Proofs.Tree.Enclose
import GoDecls.Proofs.Tree.ReadInterface

namespace GoDecls.Tree

open Outcome

namespace Cursor

/-! ## Parentheses around the whole -/

variable {σ : Span → Span → Prop} {S : TypeExpr} {c c' d : Cursor}

/-- The token at the cursors is the same, and the one behind it if it is a name. -/
structure SameFront (c c' : Cursor) : Prop where
  token : c'.token? = c.token?
  second : ∀ s, c.token? = some (.ident s) → c'.second? = c.second?

theorem SameFront.of_ne_ident {t : Token} (ht : c.token? = some t) (ht' : c'.token? = some t)
    (hne : ∀ s, t ≠ .ident s) : SameFront c c' :=
  ⟨ht'.trans ht.symm, fun s hs => absurd (Option.some.inj (ht.symm.trans hs)) (hne s)⟩

/-- What a type begins with is the same at both cursors, or it stands in parentheses. -/
def FrontOf (own : Bool) (c c' : Cursor) : Prop :=
  SameFront c c' ∨ own = true ∧ c'.token? = some (.punct .lparen)

section

variable {ω : Lexeme → Prop} {κ : Lexeme → Lexeme → Prop} {e : Cursor} {s : Span} {own : Bool}
  {t u : Token} {Q Q' : Cursor → List Lexeme → Prop} (ht : c.token? = some t)
  (hname : ∀ s, t ≠ .ident s)

include ht hname

/-- What begins with a token that is no name begins with it at both cursors. -/
theorem front_token (h : Admits σ ω κ s c.advance e Q)
    (hQ : ∀ c' rs, c'.token? = some t → Ahead c.advance c'.advance → Q c'.advance rs → Q' c' rs) :
    Admits σ ω κ s c e fun c' rs => FrontOf own c c' ∧ Q' c' rs :=
  h.token ht fun c' rs ht' _ hahead hrs =>
    ⟨.inl (.of_ne_ident ht ht' hname), hQ c' rs ht' hahead hrs⟩

theorem front_tokens (hu : c.advance.token? = some u) (h : Admits σ ω κ s c.advance.advance e Q)
    (hQ : ∀ c' rs, c'.token? = some t → c'.advance.token? = some u → Q c'.advance.advance rs →
      Q' c' rs) : Admits σ ω κ s c e fun c' rs => FrontOf own c c' ∧ Q' c' rs :=
  h.behind ((Past.advance ht).trans (.advance hu)) fun c' rs _ _ hp _ hrs =>
    ⟨.inl (.of_ne_ident ht hp.token? hname), hQ c' rs hp.token? hp.next hrs⟩

end

/-! ## What is read behind parentheses -/

/-- The value type of a map, behind its key. -/
def mapValue (start : Nat) (key : TypeExpr) (c : Cursor) : Outcome TypeExpr c :=
  (c.expect (.punct .rbrack) "']'").bind fun _ d _ =>
    d.type.map fun value e => .map (e.spanFrom start) key value

theorem mapValue_of_type {d : Cursor} {value : TypeExpr} {m : d.left < c.advance.left}
    (hclose : c.token? = some (.punct .rbrack)) (h : c.advance.type = .ok value d m) (start : Nat)
    (key : TypeExpr) : c.mapValue start key =
      .ok (.map (d.spanFrom start) key value) d (Nat.lt_of_lt_of_le m c.advance_le) := by
  rw [mapValue, expect_of_token? hclose]
  show (c.advance.type.map _).after (advance_lt hclose) = _
  rw [h]
  rfl

theorem mapValue_echo (hm : Meets σ [] [] c c') (start start' : Nat) {key key' : TypeExpr}
    (hkey : key.Alike σ True key') :
    (c.mapValue start key).Echoes [] (fun _ => True) (TypeExpr.Alike σ True)
      (c'.mapValue start' key') := by
  unfold mapValue
  refine .bindAny hm (fun _ hm => expect_echo hm _ _) fun _ _ d _ _ d' _ _ _ hd => ?_
  exact (Echoes.map hd (type_echo d d' hd (.inl rfl)) fun _ _ _ _ hvalue => .map hkey hvalue).imp
    fun _ _ => trivial

/-- The closing parenthesis behind a type. -/
def parenClose (start : Nat) (inner : TypeExpr) (c : Cursor) : Outcome TypeExpr c :=
  (c.expect (.punct .rparen) "')'").map fun _ d => .paren (d.spanFrom start) inner

theorem parenClose_of_token? (hclose : c.token? = some (.punct .rparen)) (start : Nat)
    (inner : TypeExpr) : c.parenClose start inner =
      .ok (.paren (c.advance.spanFrom start) inner) c.advance (advance_lt hclose) := by
  rw [parenClose, expect_of_token? hclose]
  rfl

theorem parenClose_echo (hm : Meets σ [] [] c c') (start start' : Nat) {inner inner' : TypeExpr}
    (hinner : inner.Alike σ True inner') :
    (c.parenClose start inner).Echoes [] (fun _ => True) (TypeExpr.Alike σ True)
      (c'.parenClose start' inner') :=
  (Echoes.map hm (expect_echo hm _ _) fun _ _ _ _ _ => .paren hinner).imp fun _ _ => trivial

theorem token?_of_arrayElem {start : Nat} {length : ArrayLength} {T : TypeExpr}
    {m : d.left < c.left} (h : c.arrayElem start length = .ok T d m) :
    c.token? = some (.punct .rbrack) := by
  rw [arrayElem] at h
  obtain ⟨_, _, _, _, hexpect, -⟩ := ok_of_bind h
  exact (ok_of_expect hexpect).1

/-- Behind a tag there is no more than before it. -/
theorem tag?_lt {d : Cursor} (m : d.left < c.left) : d.tag?.2.left < c.left :=
  Nat.lt_of_le_of_lt d.tag?_le m

/-- The tag of a field behind its type. -/
def tagged (start : Nat) (names : List Ident) (embedded : Bool) (c : Cursor) : Outcome Field c :=
  c.type.andThen fun type d m =>
    .ok ⟨d.tag?.2.spanFrom start, names, none, type, d.tag?.1, embedded⟩ d.tag?.2
      (tag?_lt m)

theorem field_of_embedded (h : c.embedsField? = some true) :
    c.field = c.tagged c.start [] true := by
  rw [field]
  split <;> simp_all
  rfl

theorem field_of_names (h : c.embedsField? = some false) : c.field =
    (c.names "field name").bind fun names d _ => d.tagged c.start names false := by
  rw [field]
  split <;> simp_all
  rfl

theorem tagged_admits {ω : Lexeme → Prop} {κ : Lexeme → Lexeme → Prop} {type : TypeExpr}
    {own : Bool} {s : Span} (names : List Ident) (embedded : Bool) (start : Nat)
    (h : Admits σ ω κ s c e fun c' rs => FrontOf own c c' ∧ c'.type.Gives (type.Alike σ True) rs) :
    Admits σ ω κ s c e.tag?.2 fun c' rs => FrontOf own c c' ∧
      ∀ start' names', SameNames names names' → (c'.tagged start' names' embedded).Gives
        (Field.Alike σ True
          ⟨e.tag?.2.spanFrom start, names, none, type, e.tag?.1, embedded⟩) rs := by
  obtain ⟨ts, -, hpast, -, -⟩ :=
    tag?_echo (.of_tokens (rfl : e.tokens = e.tokens)) rfl (Nat.zero_le _)
  refine h.before hpast fun c' rs _ hmeets hgives => ⟨hgives.1, fun start' names' hnames => ?_⟩
  refine hgives.2.andThen fun type' e' _ hsame he' => ?_
  obtain ⟨us, -, hp, hp', htag⟩ := tag?_echo (hmeets e' he') rfl (Nat.zero_le _)
  have hlength : us.length = ts.length := by
    have := hp.left
    have := hpast.left
    omega
  exact .ok (.intro hnames rfl hsame htag rfl) (by rw [hp'.rest, hlength, he'])

theorem token?_of_fieldList {l : FieldList} {m : d.left < c.left} (h : c.fieldList = .ok l d m) :
    c.token? = some (.punct .lparen) := by
  rw [fieldList] at h
  obtain ⟨_, _, _, _, hexpect, -⟩ := ok_of_bind h
  exact (ok_of_expect hexpect).1

/-! ## Lists -/

section

variable {α β : Type} {S : ListShape α β} {ω : Lexeme → Prop} {κ : Lexeme → Lexeme → Prop} {s : Span}
  {item item' : (c : Cursor) → Outcome α c} {loop loop' : (c : Cursor) → Outcome β c}
  {r : α → α → Prop} {F : Cursor → Cursor → Prop} {c d e : Cursor} {a : α} {b : β}
  (hloop : ListLoop S item loop) (hloop' : ListLoop S item' loop')
  (hecho : ∀ {x x'} c c', Meets σ x x' c c' → c.Solid ω x → x.head? = x'.head? →
    (item c).Echoes x (fun _ => True) r (item' c'))

include hloop' hecho

/-- The parentheses are behind the first item and its separator. -/
theorem ListLoop.admits_behind {t : Token} (ht : c.token? = some t) (hclose : t ≠ .punct S.close)
    (hsemi : S.sep = .semi → t ≠ .punct S.sep) {m : e.left < c.left} {us : List Token}
    (ha : item c = .ok a e m) (hus : Past us c e) (hsep : e.token? = some (.punct S.sep))
    (hfront : ∀ {x x' c c'}, Meets σ x x' c c' → x.head? = x'.head? → x.length < c.left → F c c')
    (hmore : Admits σ ω κ s e.advance d fun c' rs =>
      (loop' c').Gives (fun b' => List.Forall₂ r (S.items b) (S.items b')) rs) :
    Admits σ ω κ s c d fun c' rs => F c c' ∧
      (loop' c').Gives (fun b' => List.Forall₂ r (S.items (S.cons a b)) (S.items b')) rs := by
  refine (hmore.token hsep fun b' rs hb _ _ hgives => (⟨hb, hgives⟩ : b'.token? =
    some (.punct S.sep) ∧ (loop' b'.advance).Gives
      (fun b' => List.Forall₂ r (S.items b) (S.items b')) rs)).behindSolid hus
    fun c' rs _ _ _ hm hsolid hgives => ?_
  obtain ⟨hb, hgives⟩ := hgives
  have hhead := head?_tokens hsep hb
  have hleft : e.tokens.length < c.left := by rwa [length_tokens]
  obtain ⟨a', m', ha', hsame⟩ := (hecho c c' hm hsolid hhead).upTo ha hus
  refine ⟨hfront hm hhead hleft, ?_⟩
  rw [hloop'.at_item ((hm.token? hleft).trans ht) hclose hsemi, ha']
  refine Gives.after (?_ : (behind S loop' a' _).Gives _ rs) m'
  rw [behind_of_sep hb]
  refine (hgives.lift _).map fun b' _ h => ?_
  rw [S.items_cons, S.items_cons]
  exact .cons hsame h

include hloop

/-- The parentheses are in the first item. -/
theorem ListLoop.admits_first {t : Token} (ht : c.token? = some t) (hclose : t ≠ .punct S.close)
    (hsemi : S.sep = .semi → t ≠ .punct S.sep) {m : d.left < e.left} {vs : List Token}
    (hmore : e.behind S loop a = .ok b d m) (hvs : Past vs e d)
    (ha : Admits σ ω κ s c e fun c' rs => F c c' ∧ (item' c').Gives (r a) rs) :
    Admits σ ω κ s c d fun c' rs =>
      F c c' ∧ (loop' c').Gives (fun b' => List.Forall₂ r (S.items b) (S.items b')) rs := by
  refine ha.beforeSolid hvs fun c' rs hahead hmeets hsolid hgives => ⟨hgives.1, ?_⟩
  have hitem : loop' c' = (item' c').bind fun a' e' _ => e'.behind S loop' a' := by
    obtain ⟨t', ht', rfl | rfl⟩ := hahead.token?_some ht
    · exact hloop'.at_item ht' hclose hsemi
    · exact hloop'.at_item ht' S.lparen_ne_close fun _ => S.lparen_ne_sep
  rw [hitem]
  refine hgives.2.bind fun a' e' _ hsame he' => ?_
  rw [← he']
  refine (behind_echo .any (hmeets e' he') (fun f f' _ hp hf => ?_) hsame).gives hmore hvs
  exact hloop.echo hloop' .any f f' hf (hsolid.past hp) fun g g' _ => hecho g g'

/-- A list is read with the parentheses in it, if the item that has them is. -/
theorem ListLoop.admits_front {H : α → Prop} (hmoves : ∀ {c}, (item c).Moves)
    (hsemi : S.sep = .semi → ∀ c c', F c c')
    (hfront : ∀ {x x' c c'}, Meets σ x x' c c' → x.head? = x'.head? → x.length < c.left → F c c')
    (c : Cursor) {d : Cursor} {b : β} {m : d.left < c.left} (h : loop c = .ok b d m)
    (hb : ∃ a ∈ S.items b, H a)
    (hadmits : ∀ {e d' a m}, e.left ≤ c.left → item e = .ok a d' m → H a →
      Admits σ ω κ s e d' fun c' rs => F e c' ∧ (item' c').Gives (r a) rs) :
    Admits σ ω κ s c d fun c' rs =>
      F c c' ∧ (loop' c').Gives (fun b' => List.Forall₂ r (S.items b) (S.items b')) rs := by
  have hrest {e d b m} (hlt : e.left < c.left) (h : loop e = .ok b d m) (hb : ∃ a ∈ S.items b, H a) :=
    ListLoop.admits_front hmoves hsemi hfront e h hb fun hle =>
      hadmits (Nat.le_trans hle (Nat.le_of_lt hlt))
  obtain ⟨-, rfl, -⟩ | ⟨hsep, ht, m', hread⟩ | ⟨⟨t, ht, hclose, hne⟩, a, e, m₁, m₂, ha, hmore⟩ :=
    hloop.ok_cases h
  · simp [S.items_nil] at hb
  · refine (hrest (advance_lt ht) hread hb).token ht fun c' rs ht' _ _ hgives =>
      ⟨hsemi hsep c c', ?_⟩
    rw [hloop'.at_semi hsep ht']
    exact hgives.2.lift _
  · obtain ⟨us, hus⟩ := hmoves a e _ ha
    obtain ⟨ts, hts⟩ := (hloop.ends hmoves c).moves _ _ _ h
    obtain ⟨vs, hvs⟩ := hus.between hts (Nat.le_of_lt m₂)
    have hfirst (haH : H a) := hloop.admits_first hloop' hecho ht hclose hne hmore hvs
      (hadmits (Nat.le_refl _) ha haH)
    obtain ⟨-, rfl, -⟩ | ⟨hsep, b', m', hread, rfl⟩ := ok_of_behind hmore
    · rw [S.items_cons, S.items_nil] at hb
      exact hfirst (by simpa using hb)
    · rw [S.items_cons] at hb
      obtain ⟨a₁, ha₁, haH⟩ := hb
      rcases List.mem_cons.1 ha₁ with rfl | ha₁
      · exact hfirst haH
      · exact hloop'.admits_behind hecho ht hclose hne ha hus hsep hfront
          ((hrest (Nat.lt_trans (advance_lt hsep) m₁) hread ⟨a₁, ha₁, haH⟩).imp
            fun _ _ _ hgives => hgives.2)
termination_by c.left

theorem ListLoop.admits {H : α → Prop} (hmoves : ∀ {c}, (item c).Moves) (c : Cursor) {d : Cursor}
    {b : β} {m : d.left < c.left} (h : loop c = .ok b d m) (hb : ∃ a ∈ S.items b, H a)
    (hadmits : ∀ {e d' a m}, e.left ≤ c.left → item e = .ok a d' m → H a →
      Admits σ ω κ s e d' fun c' rs => (item' c').Gives (r a) rs) :
    Admits σ ω κ s c d fun c' rs =>
      (loop' c').Gives (fun b' => List.Forall₂ r (S.items b) (S.items b')) rs :=
  (hloop.admits_front (F := fun _ _ => True) hloop' hecho hmoves (fun _ _ _ => trivial)
    (fun _ _ _ => trivial) c h hb fun hle ha haH => (hadmits hle ha haH).imp
      fun _ _ _ hgives => ⟨trivial, hgives⟩).imp fun _ _ _ hgives => hgives.2

end

/-! ## What looking ahead finds -/

theorem SameFront.of_meets {x x' : List Token} (hm : Meets σ x x' c c') (hx : x.head? = x'.head?)
    (hlt : x.length < c.left) : SameFront c c' := ⟨hm.token? hlt, fun _ _ => hm.second? hx hlt⟩

theorem Ahead.embedsField?_eq (h : Ahead c c') (hf : SameFront c c') :
    c'.embedsField? = c.embedsField? := by
  obtain ⟨htoken, hsecond⟩ := hf
  have hbracket := h.bracket
  unfold embedsField?
  rw [htoken] at hbracket ⊢
  cases ht : c.token? with
  | none => rfl
  | some t =>
    cases t with
    | ident s =>
      have hsecond := hsecond s ht
      rw [hsecond] at hbracket ⊢
      split <;> simp_all
    | punct p => cases p <;> rfl
    | _ => rfl

theorem Ahead.embedsField?_names (h : Ahead c c') (ht : c'.token? = c.token?)
    (hc : c.embedsField? = some false) : c'.embedsField? = some false := by
  rcases h.two with hopen | ⟨-, hopen | hsecond⟩
  · rw [ht] at hopen
    unfold embedsField? at hc
    rw [hopen] at hc
    cases hc
  · unfold embedsField? at hc ⊢
    rw [ht, hopen]
    split at hc <;> simp_all
  · rw [h.embedsField?_eq ⟨ht, fun _ _ => hsecond⟩, hc]

theorem atMethod_of_lparen {s : String} (ht : c.token? = some (.ident s))
    (h : c.advance.token? = some (.punct .lparen)) : c.atMethod = true := by
  rw [atMethod, ht, second?_eq_advance, h]

theorem FrontOf.not_atMethod (h : FrontOf true c c') (hc : ¬ c.atMethod = true) :
    ¬ c'.atMethod = true := by
  unfold atMethod at hc ⊢
  rcases h with ⟨htoken, hsecond⟩ | ⟨-, hopen⟩
  · rw [htoken]
    cases ht : c.token? with
    | none => simp
    | some t =>
      cases t with
      | ident s => rwa [hsecond s ht, ← ht]
      | _ => simp
  · rw [hopen]
    simp

theorem Ahead.not_atBareParam (h : Ahead c c') (hc : ¬ c.atBareParam = true) :
    ¬ c'.atBareParam = true := by
  unfold atBareParam at hc ⊢
  rcases h.two with hopen | ⟨htoken, hopen | hsecond⟩
  · rw [hopen]
    simp
  · rw [hopen]
    split <;> simp_all
  · rwa [htoken, hsecond]

theorem Ahead.atNamedParam (h : Ahead c c') (ht : c'.token? = c.token?)
    (hc : c.atNamedParam = true) : c'.atNamedParam = true := by
  have hbracket := h.bracket
  unfold Cursor.atNamedParam at hc ⊢
  rcases h.two with hopen | ⟨-, hopen | hsecond⟩
  · rw [← ht, hopen] at hc
    cases hc
  · rw [ht, hopen]
    split at hc <;> simp_all [Token.startsType]
  · rw [ht, hsecond] at hbracket ⊢
    split at hc <;> simp_all

theorem Ahead.not_atNamedParam (h : Ahead c c') (hf : FrontOf true c c')
    (hc : ¬ c.atNamedParam = true) : ¬ c'.atNamedParam = true := by
  have hbracket := h.bracket
  unfold Cursor.atNamedParam at hc ⊢
  rcases hf with ⟨htoken, hsecond⟩ | ⟨-, hopen⟩
  · rw [htoken] at hbracket ⊢
    cases ht : c.token? with
    | none => simp
    | some t =>
      cases t with
      | ident s =>
        have hsecond := hsecond s ht
        rw [hsecond] at hbracket ⊢
        split <;> simp_all
      | _ => simp
  · rw [hopen]
    simp

/-- A name without a package. -/
theorem qualified_of_ident {s : String} (ht : c.token? = some (.ident s))
    (hdot : c.advance.token? ≠ some (.punct .dot)) :
    c.qualified = .ok (none, ⟨s, c.span⟩) c.advance (advance_lt ht) := by
  rw [qualified, ident_of_token? ht]
  exact if_neg hdot

theorem exists_ident_of_atBareParam (h : c.atBareParam = true) :
    ∃ s, c.token? = some (.ident s) := by
  unfold atBareParam at h
  split at h
  · exact ⟨_, ‹_›⟩
  · exact ⟨_, ‹_›⟩
  · cases h

/-- A name by itself in a list is read as a type too. -/
theorem type_of_bare {name : Ident} {what : String} {m : d.left < c.left}
    (h : c.atBareParam = true) (hname : c.ident what = .ok name d m) :
    c.type = .ok (.named (d.spanFrom c.start) none name []) d m := by
  obtain ⟨ht, -, rfl⟩ := ok_of_ident hname
  have hnext {p : Punct} (hp : p ≠ .comma ∧ p ≠ .rparen) : c.advance.token? ≠ some (.punct p) := by
    intro hnext
    unfold atBareParam at h
    rw [ht, second?_eq_advance, hnext] at h
    split at h <;> simp_all
  have hqualified := qualified_of_ident ht (hnext (by simp))
  rw [ident_of_token? ht] at hname
  rw [(Outcome.ok.inj hname).1] at hqualified
  rw [type_of_ident ht, namedType, hqualified]
  change (if _ then _ else _) = _
  rw [if_neg (hnext (by simp))]

/-- Type arguments leave no bracket open, before the one that closes them. -/
theorem typeArgs_closes (c : Cursor) {d : Cursor} {args : List TypeExpr} {m : d.left < c.left}
    (h : c.typeArgs = .ok args d m) : ∃ us, Past (us ++ [.punct .rbrack]) c d ∧ Shut 0 us := by
  refine typeArgs_loop.induct
    (Q := fun e _ d => ∃ us, Past (us ++ [.punct .rbrack]) e d ∧ Shut 0 us) c h
    (fun ht => ⟨[], .advance ht, .nil⟩) (fun ht hmore => ?_) fun {e _ _ _ _ _} _ harg hmore => ?_
  · obtain ⟨us, hp, hus⟩ := hmore
    exact ⟨.punct .comma :: us, (Past.advance ht).trans hp, .cons_plain rfl rfl hus⟩
  · obtain ⟨ts, hts, hshut⟩ := (type_echo (k := False) e e (.of_tokens rfl) (.inl rfl)).reads harg
    obtain ⟨us, hp, hus⟩ := hmore
    exact ⟨ts ++ us, by rw [List.append_assoc]; exact hts.trans hp, hshut.append hus⟩

/-- A type before a closing parenthesis is read as one in a list of parameters: the brackets
    of its arguments close behind it, where no type begins. -/
theorem not_atNamedParam_of_type {ts : List Token} {T : TypeExpr} {m : d.left < c.left}
    (h : c.type = .ok T d m) (hp : Past ts c d) (hts : Balanced ts)
    (hd : d.token? = some (.punct .rparen)) : ¬ c.atNamedParam = true := by
  intro hnamed
  unfold Cursor.atNamedParam at hnamed
  cases ht : c.token? with
  | none => simp [ht] at hnamed
  | some t =>
    cases t with
    | ident s =>
      rw [ht, second?_eq_advance] at hnamed
      by_cases hdot : c.advance.token? = some (.punct .dot)
      · simp [hdot, Token.startsType] at hnamed
      rw [type_of_ident ht, namedType, qualified_of_ident ht hdot] at h
      change (if _ then _ else _) = _ at h
      split at h
      · next hopen =>
        obtain ⟨args, hread, -⟩ := ok_of_map h
        obtain ⟨_, hread⟩ := ok_of_lift hread
        obtain ⟨_, hargs⟩ := ok_of_lift hread
        obtain ⟨us, hus, hshut⟩ := typeArgs_closes _ hargs
        have hwhole := (Past.advance ht).trans ((Past.advance hopen).trans hus)
        have hts_eq : ts = .ident s :: .punct .lbrack :: (us ++ [.punct .rbrack]) :=
          List.append_cancel_right (hp.tokens.symm.trans hwhole.tokens)
        rw [hts_eq, Balanced.cons_iff rfl rfl] at hts
        have hrest : c.rest.tail.map Lexeme.token =
            .punct .lbrack :: (us ++ .punct .rbrack :: d.tokens) := by
          rw [← advance_rest, ← Cursor.tokens, ((Past.advance hopen).trans hus).tokens]
          simp
        have hfalse : bracketThenType c.rest.tail = false := by
          rw [bracketThenType_of_closing us d.tokens hrest rfl (hts.of_enclosed rfl rfl hshut) rfl,
            ← token?_eq, hd]
          rfl
        simp [hopen, hfalse] at hnamed
      · next hopen =>
        cases h
        simp [hd, Token.startsType] at hnamed
    | _ => simp [ht] at hnamed

/-- A name is the same at another place. -/
theorem named_alike_of_span {σ : Span → Span → Prop} {k : Prop} {s s' : Span} {pkg : Option Ident}
    {name : Ident} {args : List TypeExpr} : ∀ {T : TypeExpr},
    (TypeExpr.named s pkg name args).Alike σ k T → (TypeExpr.named s' pkg name args).Alike σ k T
  | _, .named hpkg hname hargs => .named hpkg hname hargs
  | _, .enclosed hk h => .enclosed hk (named_alike_of_span h)

theorem alike_named_of_span {σ : Span → Span → Prop} {k : Prop} {s s' : Span} {pkg : Option Ident}
    {name : Ident} {args : List TypeExpr} {T : TypeExpr}
    (h : T.Alike σ k (.named s pkg name args)) : T.Alike σ k (.named s' pkg name args) := by
  cases h with
  | named hpkg hname hargs => exact .named hpkg hname hargs

end Cursor

end GoDecls.Tree
