/-
  A type is read with parentheses around it or around a type in it (`type_admits`).  Around
  a single result they make a list of it, which has one entry (`type_listed`).

  There is one lemma for each reader of the grammar of types.  They call each other as
  the readers do, on the same cursors, and so they end for the same reason.  What a
  reader takes before the parentheses and behind them it takes as it did without them
  (`type_echo`); what it finds by looking ahead is the same, or is an opening
  parenthesis, which begins a type.
-/
import GoDecls.Proofs.Tree.EncloseReaders

namespace GoDecls.Tree.Cursor

open Outcome

/-! ## Parentheses around the whole -/

section

variable {σ : Span → Span → Prop} {ω : Lexeme → Prop} {κ : Lexeme → Lexeme → Prop} {c d : Cursor}
  {T : TypeExpr} {m : d.left < c.left} {s : Span} {c' : Cursor} {rs : List Lexeme}

/-- In parentheses stands the type: it is read between them, from balanced tokens. -/
structure Inside (σ : Span → Span → Prop) (T : TypeExpr) (c' : Cursor) (rs : List Lexeme) : Prop where
  opening : c'.token? = some (.punct .lparen)
  type : ∃ T' e, ∃ m' : e.left < c'.advance.left, c'.advance.type = .ok T' e m' ∧
    T.Alike σ True T' ∧ Spells e.rest [.punct .rparen] rs ∧
    ∃ ts, Past ts c'.advance e ∧ Balanced ts

theorem type_inside (h : c.type = .ok T d m) (hs : Covers s c d) :
    Admits σ ω κ s c d (Inside σ T) := by
  obtain ⟨ts, hp⟩ := type_moves _ _ _ h
  obtain ⟨t, ht, hstarts⟩ := token?_of_type h
  obtain ⟨l, hl, rfl⟩ := Option.map_eq_some_iff.1 ht
  have hleft := hp.left
  obtain ⟨n, hn⟩ := Nat.exists_eq_add_one_of_ne_zero (n := ts.length) (by omega)
  have hlength : (c.rest.take ts.length).length = ts.length := by
    rw [List.length_take, Nat.min_eq_left]
    exact Nat.le.intro hleft.symm
  have hc : c.rest = c.rest.take ts.length ++ d.rest := by rw [hp.rest, List.take_append_drop]
  refine ⟨[], c.rest.take ts.length, [], hc, ?_, ?_, ?_, fun c' ws' haround => ?_⟩
  · rw [List.length_nil, hlength, Nat.zero_add, ← hp.skip]
    exact hs
  · obtain ⟨ls, hls⟩ := List.head?_eq_some_iff.1 hl
    rw [hn, hls]
    exact hstarts
  · obtain ⟨us, u, hq, hends⟩ := type_ends c T d m h
    have htokens : (c.rest.take ts.length).map Lexeme.token = us ++ [u] := by
      refine List.append_cancel_right (?_ : _ ++ d.tokens = _ ++ d.tokens)
      rw [← hq.tokens, Cursor.tokens, Cursor.tokens, ← List.map_append, ← hc]
    obtain ⟨ls, l', hls, -, hl'⟩ := List.map_eq_append_iff.1 htokens
    obtain ⟨e, rfl, rfl⟩ := List.map_eq_singleton_iff.1 hl'
    rw [hls, List.getLast?_append]
    exact hends
  · obtain ⟨us', ms', o, e, hc', hus, ho, hms, he, -⟩ := haround.split
    obtain rfl : us' = [] := List.length_eq_zero_iff.1 hus.length_eq
    have hopen : c'.token? = some (.punct .lparen) := by
      rw [token?, hc', ← ho]
      rfl
    have hinner : c'.advance.rest = ms' ++ e :: ws' := by
      rw [advance_rest, hc']
      rfl
    have hm : Meets σ d.tokens (.punct .rparen :: ws'.map Lexeme.token) c c'.advance :=
      ⟨_, ms', d.rest, e :: ws', hc, hinner, hms, rfl, by rw [List.map_cons, he]⟩
    have hends : Ends GoesOn d.tokens (.punct .rparen :: ws'.map Lexeme.token) := by
      refine .inr fun t ht hgoes => ?_
      cases ht
      rcases hgoes with h | h <;> cases h
    obtain ⟨T', m', hT', hsame⟩ := (type_echo (k := True) c c'.advance hm hends).upTo h hp
    have hms_length : ms'.length = ts.length := hms.length_eq.trans hlength
    have hclose : Spells (c'.advance.skip ts.length).rest [.punct .rparen] ws' := by
      refine ⟨[e], ?_, by rw [List.map_singleton, he]⟩
      rw [skip_rest, hinner, ← hms_length, List.drop_left]
      rfl
    have hbetween : Past (ms'.map Lexeme.token) c'.advance (c'.advance.skip ts.length) := by
      refine ⟨by rw [List.length_map, hms_length], ?_⟩
      rw [Cursor.tokens, Cursor.tokens, skip_rest, hinner, ← hms_length, List.drop_left,
        List.map_append]
    exact ⟨hopen, T', _, m', hT', hsame, hclose, _, hbetween, hms.tokens ▸ haround.balanced⟩

/-- A type may stand in parentheses. -/
theorem type_enclosed (h : c.type = .ok T d m) (hs : Covers s c d) :
    Admits σ ω κ s c d fun c' rs =>
      c'.token? = some (.punct .lparen) ∧ c'.type.Gives (T.Alike σ True) rs := by
  refine (type_inside h hs).imp fun c' rs _ hinside => ?_
  obtain ⟨hopen, T', e, m', hT', hsame, hclose, -⟩ := hinside
  refine ⟨hopen, ?_⟩
  rw [type_of_lparen hopen, hT']
  refine Gives.lift (Gives.after ?_ m') _
  exact (expect_gives _ hclose).map fun _ _ _ => .enclosed trivial hsame

/-- What stands in the parentheses is an entry by itself: the type, which may be a name. -/
theorem Inside.param (h : Inside σ T c' rs) : ∃ ms, Spells ms [.punct .rparen] rs ∧
    c'.advance.param.Gives (Param.IsSole σ T) ms := by
  obtain ⟨-, T', e, m', hT', hsame, hclose, ts, hp, hts⟩ := h
  refine ⟨e.rest, hclose, ?_⟩
  obtain ⟨t, ht, hstarts⟩ := token?_of_type hT'
  have hellipsis : c'.advance.token? ≠ some (.punct .ellipsis) := by
    rw [ht]
    rintro ⟨⟩
    cases hstarts
  rw [Cursor.param]
  split
  · next hbare =>
    obtain ⟨i, hi⟩ := exists_ident_of_atBareParam hbare
    rw [type_of_bare hbare (ident_of_token? hi "parameter name")] at hT'
    cases hT'
    rw [ident_of_token? hi]
    exact .ok ⟨rfl, _, _, rfl, alike_named_of_span hsame⟩ rfl
  · rw [if_neg (not_atNamedParam_of_type hT' hp hts (token?_of_spells hclose)), paramType,
      dif_neg hellipsis, hT']
    exact .ok ⟨rfl, _, _, rfl, hsame⟩ rfl

/-- A type in parentheses is a list of one result. -/
theorem type_listed (h : c.type = .ok T d m) (hs : Covers s c d) :
    Admits σ ω κ s c d fun c' rs => c'.token? = some (.punct .lparen) ∧
      c'.fieldList.Gives (fun l => (Results.single T).Alike σ True (.list l)) rs := by
  refine (type_inside h hs).imp fun c' rs _ hinside => ⟨hinside.opening, ?_⟩
  obtain ⟨ms, hclose, hparam⟩ := hinside.param
  have hne : c'.advance.token? ≠ some (.punct .rparen) := by
    obtain ⟨_, _, _, hT', -⟩ := hinside.type
    obtain ⟨t, ht, hstarts⟩ := token?_of_type hT'
    rw [ht]
    rintro ⟨⟩
    cases hstarts
  have hparams : c'.advance.params.Gives (fun ps => ∃ p, ps.1 = [p] ∧ Param.IsSole σ T p) rs := by
    rw [params, dif_neg hne]
    refine hparam.bind fun p e _ hp he => ?_
    have hclose' : Spells e.rest [.punct .rparen] rs := he ▸ hclose
    rw [if_neg (token?_ne_of_spells hclose' (by simp))]
    exact (expect_gives _ hclose').map fun _ _ _ => ⟨p, rfl, hp⟩
  rw [fieldList]
  refine .expect hinside.opening (hparams.andThen fun ps e _ hps he => ?_)
  obtain ⟨p, hps, hp⟩ := hps
  obtain ⟨s, T', hfields, hsame⟩ := hp.toFields
  rw [hps, hfields]
  exact .ok (.listed trivial hsame) he

end

/-! ## Results -/

section

variable {σ : Span → Span → Prop} {ω : Lexeme → Prop} {κ : Lexeme → Lexeme → Prop}
  {c d e : Cursor} {params : FieldList} {results : Results} {s span : Span} {rs : List Lexeme}

/-- At the cursor such results are read behind parameters, and `rs` is left behind them. -/
inductive ResultsAt (σ : Span → Span → Prop) (results : Results) (c : Cursor) (rs : List Lexeme) :
    Prop where
  | list (ht : c.token? = some (.punct .lparen))
      (h : c.fieldList.Gives (fun l => results.Alike σ True (.list l)) rs)
  | single (ht : c.token? ≠ some (.punct .lparen)) (hstarts : c.token?.any Token.startsType = true)
      (h : c.type.Gives (fun T => results.Alike σ True (.single T)) rs)
  | none (ht : c.token? ≠ some (.punct .lparen)) (hstarts : ¬c.token?.any Token.startsType = true)
      (h : results.Alike σ True .none) (hrs : c.rest = rs)

theorem ResultsAt.signature (h : ResultsAt σ results e rs) {params' : FieldList}
    {m : e.left < c.left} (hparams : c.fieldList = .ok params' e m)
    (hsame : params.Alike σ True params') (start : Nat) :
    (c.signature start).Gives ((⟨span, params, results⟩ : Signature).Alike σ True) rs := by
  rw [Cursor.signature, hparams]
  change Gives (if _ then _ else _) _ _
  cases h with
  | list ht h =>
    rw [if_pos ht]
    exact (h.after m).map fun _ _ h => .intro hsame h
  | single ht hstarts h =>
    rw [if_neg ht, if_pos hstarts]
    exact (h.after m).map fun _ _ h => .intro hsame h
  | none ht hstarts h hrs =>
    rw [if_neg ht, if_neg hstarts]
    exact .ok (.intro hsame h) hrs

/-- The parentheses stand in the results, behind the parameters. -/
theorem signature_behind {m : e.left < c.left} (hparams : c.fieldList = .ok params e m)
    (h : Admits σ ω κ s e d (ResultsAt σ results)) :
    Admits σ ω κ s c d fun c' rs => c'.token? = some (.punct .lparen) ∧ ∀ start,
      (c'.signature start).Gives ((⟨span, params, results⟩ : Signature).Alike σ True) rs := by
  obtain ⟨ps, hps⟩ := fieldList_moves _ _ _ hparams
  refine h.behind hps fun c' rs _ _ _ hm hresults => ?_
  have hleft : e.tokens.length < c.left := by rwa [length_tokens]
  obtain ⟨params', m', hparams', hsame⟩ := (fieldList_echo (k := True) _ _ hm).upTo hparams hps
  exact ⟨(hm.token? hleft).trans (token?_of_fieldList hparams),
    hresults.signature hparams' hsame⟩

/-- The parentheses stand in the parameters, and the results behind them are read again. -/
theorem signature_before {us : List Token}
    (h : Admits σ ω κ s c e fun c' rs =>
      c'.token? = some (.punct .lparen) ∧ c'.fieldList.Gives (params.Alike σ True) rs)
    (hus : Past us e d)
    (hresults : ∀ e', Meets σ [] [] e e' → ResultsAt σ results e' (e'.rest.drop us.length)) :
    Admits σ ω κ s c d fun c' rs => c'.token? = some (.punct .lparen) ∧ ∀ start,
      (c'.signature start).Gives ((⟨span, params, results⟩ : Signature).Alike σ True) rs := by
  refine h.before hus fun c' rs _ hmeets hgives => ⟨hgives.1, fun start => ?_⟩
  obtain ⟨params', e', m', hparams', hsame, rfl⟩ := hgives.2
  exact (hresults e' (hmeets e' rfl)).signature hparams' hsame start

end

/-! ## Maps and parentheses -/

section

variable {σ : Span → Span → Prop} {ω : Lexeme → Prop} {κ : Lexeme → Lexeme → Prop}
  {c d e : Cursor} {key value inner T : TypeExpr} {s span : Span} {own : Bool}

/-- The parentheses stand in a type, and what is read behind it is read alike. -/
theorem typeThen_admits {next : Nat → TypeExpr → (e : Cursor) → Outcome TypeExpr e}
    (hecho : ∀ {e e'}, Meets σ [] [] e e' → ∀ start start' {T T'}, TypeExpr.Alike σ True T T' →
      (next start T e).Echoes [] (fun _ => True) (TypeExpr.Alike σ True) (next start' T' e'))
    {vs : List Token} {start : Nat} {m : d.left < e.left}
    (h : Admits σ ω κ s c e fun b rs => b.type.Gives (key.Alike σ True) rs)
    (hnext : next start key e = .ok T d m) (hvs : Past vs e d) :
    Admits σ ω κ s c d fun b rs => ∀ start',
      (b.type.bind fun T e _ => next start' T e).Gives (T.Alike σ True) rs := by
  refine h.before hvs fun b rs _ hmeets hgives start' => ?_
  refine hgives.bind fun key' e' _ hsame he' => ?_
  rw [← he']
  exact (hecho (hmeets e' he') _ _ hsame).gives hnext hvs

/-- The parentheses stand in the values of a map, behind the key. -/
theorem mapValue_admits {m : e.left < c.left} (hkey : c.type = .ok key e m)
    (hclose : e.token? = some (.punct .rbrack))
    (h : Admits σ ω κ s e.advance d fun b rs => b.type.Gives (value.Alike σ True) rs) :
    Admits σ ω κ s c d fun b rs => ∀ start, (b.type.bind fun key e _ =>
      e.mapValue start key).Gives ((TypeExpr.map span key value).Alike σ True) rs := by
  obtain ⟨ks, hks⟩ := type_moves _ _ _ hkey
  have hbehind := h.token hclose fun b rs hb _ _ hgives =>
    (⟨hb, hgives⟩ : b.token? = some (.punct .rbrack) ∧ b.advance.type.Gives (value.Alike σ True) rs)
  refine hbehind.behind hks fun b rs _ _ _ hm hgives start => ?_
  obtain ⟨hb, hgives⟩ := hgives
  obtain ⟨key', m', hkey', hsame⟩ :=
    (type_echo (k := True) _ b hm (.inl (head?_tokens hclose hb))).upTo hkey hks
  rw [hkey']
  exact Gives.after (.expect hb (hgives.map fun _ _ h => .map hsame h)) m'

theorem mapType_admits {m : e.left < c.advance.advance.left} {m' : d.left < e.advance.left}
    (ht : c.token? = some (.keyword .map)) (hopen : c.advance.token? = some (.punct .lbrack))
    (hkey : c.advance.advance.type = .ok key e m) (hclose : e.token? = some (.punct .rbrack))
    (hvalue : e.advance.type = .ok value d m')
    (h : (Admits σ ω κ s c.advance.advance e fun b rs => b.type.Gives (key.Alike σ True) rs) ∨
      Admits σ ω κ s e.advance d fun b rs => b.type.Gives (value.Alike σ True) rs) :
    Admits σ ω κ s c d fun c' rs => FrontOf own c c' ∧
      c'.type.Gives ((TypeExpr.map (d.spanFrom c.start) key value).Alike σ True) rs := by
  have hpair : Admits σ ω κ s c.advance.advance d fun b rs => ∀ start,
      (b.type.bind fun key e _ => e.mapValue start key).Gives
        ((TypeExpr.map (d.spanFrom c.start) key value).Alike σ True) rs := by
    rcases h with hkeys | hvalues
    · obtain ⟨vs, hvs⟩ := type_moves _ _ _ hvalue
      exact typeThen_admits mapValue_echo hkeys (mapValue_of_type hclose hvalue _ _)
        ((Past.advance hclose).trans hvs)
    · exact mapValue_admits hkey hclose hvalues
  refine front_tokens ht nofun hopen hpair fun c' rs ht' hopen' hgives => ?_
  rw [type_of_map ht']
  exact Gives.lift (.expect hopen' (hgives c'.start)) _

theorem parenType_admits (ht : c.token? = some (.punct .lparen))
    (hclose : e.token? = some (.punct .rparen))
    (h : Admits σ ω κ s c.advance e fun b rs => b.type.Gives (inner.Alike σ True) rs) :
    Admits σ ω κ s c e.advance fun c' rs => FrontOf own c c' ∧
      c'.type.Gives ((TypeExpr.paren (e.advance.spanFrom c.start) inner).Alike σ True) rs := by
  have hclosed := typeThen_admits parenClose_echo h (parenClose_of_token? hclose c.start inner)
    (.advance hclose)
  refine front_token ht nofun hclosed fun c' rs ht' _ hgives => ?_
  rw [type_of_lparen ht']
  exact (hgives c'.start).lift _

end

/-! ## Marked types -/

/-- What encloses in every type that is read encloses behind the mark. -/
theorem marked_admits {α : Type} {σ : Span → Span → Prop} {ω : Lexeme → Prop}
    {κ : Lexeme → Lexeme → Prop} {c d : Cursor} {place : Span} {mark : Token}
    {f : Option Span → TypeExpr → α} {p : α} {r : α → α → Prop} {own : Bool} {m : d.left < c.left}
    (h : c.marked mark f = .ok p d m) (hname : ∀ s, mark ≠ .ident s)
    (hlparen : mark ≠ .punct .lparen)
    (hf : ∀ s s' T T', s'.isSome = s.isSome → TypeExpr.Alike σ True T T' → r (f s T) (f s' T'))
    (htype : ∀ s T e m', p = f s T → e.left ≤ c.left → e.type = .ok T d m' →
      Admits σ ω κ place e d fun e' rs => FrontOf own e e' ∧ e'.type.Gives (T.Alike σ True) rs) :
    Admits σ ω κ place c d fun c' rs => FrontOf own c c' ∧ (c'.marked mark f).Gives (r p) rs := by
  unfold marked at h
  split at h
  · next ht =>
    obtain ⟨T, hread, rfl⟩ := ok_of_map h
    obtain ⟨_, hT⟩ := ok_of_lift hread
    refine front_token ht hname (htype _ _ _ _ rfl c.advance_le hT) fun c' rs ht' _ hgives => ?_
    rw [marked, if_pos ht']
    exact (hgives.2.lift _).map fun _ _ => hf _ _ _ _ rfl
  · next ht =>
    obtain ⟨T, hT, rfl⟩ := ok_of_map h
    refine (htype _ _ _ _ rfl (Nat.le_refl _) hT).imp fun c' rs hahead hgives => ⟨hgives.1, ?_⟩
    rw [marked, if_neg (hahead.token?_ne hlparen ht)]
    exact hgives.2.map fun _ _ => hf _ _ _ _ rfl

/-! ## Types -/

variable {σ : Span → Span → Prop} {ω : Lexeme → Prop} {κ : Lexeme → Lexeme → Prop} {S : TypeExpr}

mutual

theorem type_admits (c : Cursor) {d : Cursor} {T : TypeExpr} {m : d.left < c.left}
    (h : c.type = .ok T d m) {own : Bool} (hS : Wrappable S (T, .type own)) :
    Admits σ ω κ S.span c d fun c' rs =>
      FrontOf own c c' ∧ c'.type.Gives (T.Alike σ True) rs := by
  cases hS with
  | type =>
    exact (type_enclosed h (.inl (made_of_type h).1)).imp fun c' rs _ hgives =>
      ⟨.inr ⟨rfl, hgives.1⟩, hgives.2⟩
  | @under _ q hq hS =>
    cases typeRead h with
    | named ht hread =>
      refine (namedType_admits c hread ⟨q, hq, hS⟩).imp fun c' rs _ hgives => ?_
      obtain ⟨ht', hsecond, hgives⟩ := hgives
      refine ⟨.inl ⟨ht', fun _ _ => hsecond⟩, ?_⟩
      rw [type_of_ident (ht'.trans ht)]
      exact hgives
    | array ht harray =>
      have hlt := advance_lt ht
      refine front_token ht nofun (arrayType_admits c.advance harray ⟨q, hq, hS⟩)
        fun c' rs ht' _ hgives => ?_
      rw [type_of_lbrack ht']
      exact (hgives c'.start).lift _
    | struct ht hopen hfields =>
      have hlt := advance_lt ht
      have hle := c.advance.advance_le
      refine front_tokens ht nofun hopen (structFields_admits _ hfields ⟨q, hq, hS⟩)
        fun c' rs ht' hopen' hgives => ?_
      rw [type_of_struct ht']
      exact (Gives.lift (.expect hopen' hgives) _).map fun _ _ h => .struct h
    | interface ht hopen helems =>
      have hlt := advance_lt ht
      have hle := c.advance.advance_le
      refine front_tokens ht nofun hopen (interfaceElems_admits _ helems ⟨q, hq, hS⟩)
        fun c' rs ht' hopen' hgives => ?_
      rw [type_of_interface ht']
      exact (Gives.lift (.expect hopen' hgives) _).map fun _ _ h => .interface h
    | pointer ht helem =>
      have hlt := advance_lt ht
      obtain rfl := List.mem_singleton.1 hq
      refine front_token ht nofun (type_admits c.advance helem hS) fun c' rs ht' _ hgives => ?_
      rw [type_of_star ht']
      exact (hgives.2.lift _).map fun _ _ h => .pointer h
    | @map key value e _ m m' ht hopen hkey hclose hvalue =>
      have hlt := advance_lt ht
      have hle := c.advance.advance_le
      have hle_value := e.advance_le
      refine mapType_admits ht hopen hkey hclose hvalue ?_
      rcases List.mem_pair.1 hq with rfl | rfl
      · exact .inl ((type_admits _ hkey hS).imp fun _ _ _ h => h.2)
      · exact .inr ((type_admits _ hvalue hS).imp fun _ _ _ h => h.2)
    | chan ht harrow helem =>
      have hlt := advance_lt ht
      obtain rfl := List.mem_singleton.1 hq
      refine front_token ht nofun (type_admits c.advance helem hS)
        fun c' rs ht' hahead hgives => ?_
      rw [type_of_chan ht', if_neg (hahead.token?_ne (by simp) harrow)]
      exact (hgives.2.lift _).map fun _ _ h => .chan h
    | sendChan ht harrow helem =>
      have hlt := advance_lt ht
      have hle := c.advance.advance_le
      obtain rfl := List.mem_singleton.1 hq
      refine front_tokens ht nofun harrow (type_admits _ helem hS) fun c' rs ht' harrow' hgives => ?_
      rw [type_of_chan ht', if_pos harrow']
      exact (hgives.2.lift _).map fun _ _ h => .chan h
    | recvChan ht hchan helem =>
      have hlt := advance_lt ht
      have hle := c.advance.advance_le
      obtain rfl := List.mem_singleton.1 hq
      refine front_tokens ht nofun hchan (type_admits _ helem hS) fun c' rs ht' hchan' hgives => ?_
      rw [type_of_arrow ht']
      exact Gives.lift (.expect hchan' (hgives.2.map fun _ _ h => .chan h)) _
    | func ht hsig =>
      have hlt := advance_lt ht
      refine front_token ht nofun (signature_admits c.advance hsig ⟨q, hq, hS⟩)
        fun c' rs ht' _ hgives => ?_
      rw [type_of_func ht']
      exact ((hgives.2 c'.start).lift _).map fun _ _ h => .func h
    | paren ht hinner hclose =>
      have hlt := advance_lt ht
      obtain rfl := List.mem_singleton.1 hq
      exact parenType_admits ht hclose ((type_admits _ hinner hS).imp fun _ _ _ h => h.2)
termination_by 6 * c.left + 1
decreasing_by all_goals omega

theorem namedType_admits (c : Cursor) {d : Cursor} {T : TypeExpr} {m : d.left < c.left}
    (h : c.namedType = .ok T d m) (hS : WrappableIn S T.sites) :
    Admits σ ω κ S.span c d fun c' rs =>
      c'.token? = c.token? ∧ c'.second? = c.second? ∧ c'.namedType.Gives (T.Alike σ True) rs := by
  rw [namedType] at h
  obtain ⟨name, e, hlt, hname, h⟩ := ok_of_andThen h
  split at h
  · next hopen =>
    obtain ⟨args, hread, rfl⟩ := ok_of_map h
    obtain ⟨_, hread⟩ := ok_of_lift hread
    obtain ⟨_, hargs⟩ := ok_of_lift hread
    obtain ⟨us, hpast⟩ := qualified_moves _ _ _ hname
    have hargs_admits := (typeArgs_admits e.advance hargs hS).token hopen fun b rs hb _ _ hgives =>
      (⟨hb, hgives⟩ : b.token? = some (.punct .lbrack) ∧
        b.advance.typeArgs.Gives (List.Forall₂ (TypeExpr.Alike σ True) args) rs)
    refine hargs_admits.behind hpast fun c' rs _ _ _ hm hgives => ?_
    obtain ⟨hb, hgives⟩ := hgives
    have hhead := head?_tokens hopen hb
    have hleft : e.tokens.length < c.left := by rwa [length_tokens]
    obtain ⟨name', m', hname', hpkg, hsame⟩ := (qualified_echo hm (.inl hhead)).upTo hname hpast
    refine ⟨hm.token? hleft, hm.second? hhead hleft, ?_⟩
    rw [namedType, hname']
    change Gives (if _ then _ else _) _ _
    rw [if_pos hb]
    exact ((hgives.lift _).after _).map fun _ _ h => .named hpkg hsame h
  · cases h
    obtain ⟨_, hq, -⟩ := hS
    cases hq
termination_by 6 * c.left + 0
decreasing_by rw [left_advance]; omega

theorem typeArgs_admits (c : Cursor) {d : Cursor} {args : List TypeExpr} {m : d.left < c.left}
    (h : c.typeArgs = .ok args d m) (hS : WrappableIn S (args.map (·, .type true))) :
    Admits σ ω κ S.span c d fun c' rs =>
      c'.typeArgs.Gives (List.Forall₂ (TypeExpr.Alike σ True) args) rs :=
  typeArgs_loop.admits typeArgs_loop
    (fun c c' hm _ hx => (type_echo c c' hm (.inl hx)).imp fun _ _ => trivial) type_moves c h
    (wrappableIn_map.1 hS) fun _ h hS => (type_admits _ h hS).imp fun _ _ _ h => h.2
termination_by 6 * c.left + 2
decreasing_by omega

theorem arrayType_admits (c : Cursor) {d : Cursor} {start : Nat} {T : TypeExpr}
    {m : d.left < c.left} (h : c.arrayType start = .ok T d m) (hS : WrappableIn S T.sites) :
    Admits σ ω κ S.span c d fun c' rs =>
      ∀ start', (c'.arrayType start').Gives (T.Alike σ True) rs := by
  rw [arrayType] at h
  split at h
  · next ht =>
    obtain ⟨elem, hread, rfl⟩ := ok_of_map h
    obtain ⟨_, helem⟩ := ok_of_lift hread
    refine (type_admits c.advance helem (wrappableIn_singleton.1 hS)).token ht
      fun c' rs ht' _ _ hgives start' => ?_
    rw [arrayType, dif_pos ht']
    exact (hgives.2.lift _).map fun _ _ h => .slice h
  · next hclose =>
    split at h
    · next hellipsis =>
      obtain ⟨_, harray⟩ := ok_of_lift h
      refine (arrayElem_admits c.advance harray hS).token hellipsis.1
        fun c' rs ht' _ _ hgives start' => ?_
      have hne : c'.token? ≠ some (.punct .rbrack) := by
        rw [ht']
        simp
      rw [arrayType, dif_neg hne, dif_pos ⟨ht', (second?_eq_advance c').trans hgives.1⟩]
      exact (hgives.2 start' _ .ellipsis).lift _
    · next hellipsis =>
      obtain ⟨length, e, hlt, _, hlength, harray⟩ := ok_of_bind h
      obtain ⟨us, hpast⟩ := arrayLength_moves _ _ _ hlength
      refine (arrayElem_admits e harray hS).behind hpast fun c' rs _ _ _ hm hgives start' => ?_
      have hhead := head?_tokens (token?_of_arrayElem harray) hgives.1
      have hleft : e.tokens.length < c.left := by rwa [length_tokens]
      obtain ⟨length', m', hlength', hsame⟩ := (arrayLength_echo hm hhead).upTo hlength hpast
      rw [arrayType, dif_neg (hm.token? hleft ▸ hclose),
        dif_neg (hm.token? hleft ▸ hm.second? hhead hleft ▸ hellipsis), hlength']
      exact (hgives.2 start' length' hsame).after m'
termination_by 6 * c.left + 1
decreasing_by all_goals first | omega | (rw [left_advance]; omega)

theorem arrayElem_admits (c : Cursor) {d : Cursor} {start : Nat} {length : ArrayLength}
    {T : TypeExpr} {m : d.left < c.left} (h : c.arrayElem start length = .ok T d m)
    (hS : WrappableIn S T.sites) :
    Admits σ ω κ S.span c d fun c' rs => c'.token? = some (.punct .rbrack) ∧
      ∀ start' length', length.Alike σ length' →
        (c'.arrayElem start' length').Gives (T.Alike σ True) rs := by
  rw [arrayElem] at h
  obtain ⟨_, e, _, _, hexpect, hread⟩ := ok_of_bind h
  obtain ⟨hclose, rfl⟩ := ok_of_expect hexpect
  obtain ⟨elem, helem, rfl⟩ := ok_of_map hread
  refine (type_admits _ helem (wrappableIn_singleton.1 hS)).token hclose
    fun c' rs ht' _ _ hgives => ⟨ht', fun start' length' hlength => ?_⟩
  rw [arrayElem]
  exact .expect ht' (hgives.2.map fun _ _ h => .array hlength h)
termination_by 6 * c.left + 0
decreasing_by omega

theorem structFields_admits (c : Cursor) {d : Cursor} {fields : List Field} {m : d.left < c.left}
    (h : c.structFields = .ok fields d m) (hS : WrappableIn S (fields.map Field.site)) :
    Admits σ ω κ S.span c d fun c' rs =>
      c'.structFields.Gives (List.Forall₂ (Field.Alike σ True) fields) rs :=
  structFields_loop.admits structFields_loop
    (fun c c' hm _ hx => (field_echo c c' hm hx).imp fun _ _ => trivial) field_moves c h
    (wrappableIn_map.1 hS) fun _ h hS => field_admits _ h hS
termination_by 6 * c.left + 3
decreasing_by omega

theorem field_admits (c : Cursor) {d : Cursor} {field : Field} {m : d.left < c.left}
    (h : c.field = .ok field d m) (hS : Wrappable S field.site) :
    Admits σ ω κ S.span c d fun c' rs => c'.field.Gives (Field.Alike σ True field) rs := by
  rw [Cursor.field] at h
  split at h
  · cases h
  · next hembeds =>
    obtain ⟨type, e, _, htype, h⟩ := ok_of_andThen h
    cases h
    refine (tagged_admits [] true c.start (type_admits c htype hS)).imp
      fun c' rs hahead hgives => ?_
    obtain ⟨hfront | ⟨hown, -⟩, hgives⟩ := hgives
    · rw [field_of_embedded ((hahead.embedsField?_eq hfront).trans hembeds)]
      exact hgives _ _ rfl
    · cases hown
  · next hnames =>
    obtain ⟨names, e, _, _, hread, h⟩ := ok_of_bind h
    obtain ⟨type, f, _, htype, h⟩ := ok_of_andThen h
    cases h
    obtain ⟨us, hpast⟩ := names_moves _ _ _ hread
    refine (tagged_admits names false c.start (type_admits e htype hS)).behind hpast
      fun c' rs hahead hnext _ hm hgives => ?_
    have hleft : e.tokens.length < c.left := by rwa [length_tokens]
    obtain ⟨names', m', hread', hsame⟩ :=
      (names_echo _ _ hm (hnext.ends (by simp)) _).upTo hread hpast
    rw [field_of_names (hahead.embedsField?_names (hm.token? hleft) hnames), hread']
    exact (hgives.2 _ _ hsame).after m'
termination_by 6 * c.left + 2
decreasing_by all_goals omega

theorem interfaceElems_admits (c : Cursor) {d : Cursor} {elems : List InterfaceElem}
    {m : d.left < c.left} (h : c.interfaceElems = .ok elems d m)
    (hS : WrappableIn S (elems.flatMap (·.sites))) :
    Admits σ ω κ S.span c d fun c' rs =>
      c'.interfaceElems.Gives (List.Forall₂ (InterfaceElem.Alike σ True) elems) rs :=
  interfaceElems_loop.admits interfaceElems_loop
    (fun c c' hm _ hx => (interfaceElem_echo c c' hm hx).imp fun _ _ => trivial) interfaceElem_moves c h
    (wrappableIn_flatMap.1 hS) fun _ h hS => interfaceElem_admits _ h hS
termination_by 6 * c.left + 5
decreasing_by omega

theorem interfaceElem_admits (c : Cursor) {d : Cursor} {elem : InterfaceElem} {m : d.left < c.left}
    (h : c.interfaceElem = .ok elem d m) (hS : WrappableIn S elem.sites) :
    Admits σ ω κ S.span c d fun c' rs =>
      c'.interfaceElem.Gives (InterfaceElem.Alike σ True elem) rs := by
  rw [interfaceElem] at h
  split at h
  · obtain ⟨name, e, _, _, hname, hread⟩ := ok_of_bind h
    obtain ⟨sig, hsig, rfl⟩ := ok_of_map hread
    obtain ⟨ht, -, rfl⟩ := ok_of_ident hname
    refine (signature_admits _ hsig hS).token ht fun c' rs ht' _ _ hgives => ?_
    rw [interfaceElem, if_pos (atMethod_of_lparen ht' hgives.1)]
    exact .ident ht' ((hgives.2 c'.start).map fun _ _ h => .method rfl h)
  · next hmethod =>
    obtain ⟨terms, hterms, rfl⟩ := ok_of_map h
    refine (union_admits c hterms hS).imp fun c' rs _ hgives => ?_
    rw [interfaceElem, if_neg (hgives.1.not_atMethod hmethod)]
    exact hgives.2.map fun _ _ h => .union h
termination_by 6 * c.left + 4
decreasing_by all_goals omega

theorem union_admits (c : Cursor) {d : Cursor} {terms : List Term} {m : d.left < c.left}
    (h : c.union = .ok terms d m) {own : Bool}
    (hS : WrappableIn S (terms.map fun t => (t.type, .type own))) :
    Admits σ ω κ S.span c d fun c' rs =>
      FrontOf own c c' ∧ c'.union.Gives (List.Forall₂ (Term.Alike σ True) terms) rs := by
  rw [union] at h
  obtain ⟨term, e, _, hterm, h⟩ := ok_of_andThen h
  have hterm_admits (hS : Wrappable S (term.type, .type own)) := term_admits c hterm hS
  split at h
  · next hpipe =>
    obtain ⟨more, hread, rfl⟩ := ok_of_map h
    obtain ⟨_, hread⟩ := ok_of_lift hread
    obtain ⟨_, hmore⟩ := ok_of_lift hread
    rcases wrappableIn_cons.1 hS with hS | hS
    · obtain ⟨us, hpast⟩ := union_moves _ _ _ hmore
      refine (hterm_admits hS).before ((Past.advance hpipe).trans hpast)
        fun c' rs _ hmeets hgives => ⟨hgives.1, ?_⟩
      rw [union]
      refine hgives.2.andThen fun term' e' m' hsame he' => ?_
      have hm := hmeets e' he'
      have hpipe' := (hm.token?_of_head? rfl).trans hpipe
      have hmore' := (union_echo (k := True) _ _ (hm.advance hpipe (left_pos hpipe)) rfl).gives
        hmore hpast
      rw [advance_rest, List.drop_tail, he'] at hmore'
      rw [if_pos hpipe']
      exact ((hmore'.lift _).after m').map fun _ _ h => .cons hsame h
    · obtain ⟨us, hpast⟩ := term_moves _ _ _ hterm
      have hle := e.advance_le
      have hmore_admits := (union_admits e.advance hmore hS).token hpipe
        fun b rs hb _ _ hgives => (⟨hb, hgives.2⟩ : b.token? = some (.punct .pipe) ∧
          b.advance.union.Gives (List.Forall₂ (Term.Alike σ True) more) rs)
      refine hmore_admits.behind hpast fun c' rs _ _ _ hm hgives => ?_
      obtain ⟨hb, hgives⟩ := hgives
      have hhead := head?_tokens hpipe hb
      have hleft : e.tokens.length < c.left := by rwa [length_tokens]
      obtain ⟨term', m', hterm', hsame⟩ := (term_echo (k := True) _ _ hm hhead).upTo hterm hpast
      refine ⟨.inl (.of_meets hm hhead hleft), ?_⟩
      rw [union, hterm']
      change Gives (if _ then _ else _) _ _
      rw [if_pos hb]
      exact ((hgives.lift _).after m').map fun _ _ h => .cons hsame h
  · next hpipe =>
    cases h
    refine (hterm_admits (wrappableIn_singleton.1 hS)).before (.refl _)
      fun c' rs _ hmeets hgives => ⟨hgives.1, ?_⟩
    rw [union]
    refine hgives.2.andThen fun term' e' m' hsame he' => ?_
    rw [if_neg ((hmeets e' he').token?_of_head? rfl ▸ hpipe)]
    exact .ok (.cons hsame .nil) he'
termination_by 6 * c.left + 3
decreasing_by all_goals omega

theorem term_admits (c : Cursor) {d : Cursor} {term : Term} {m : d.left < c.left}
    (h : c.term = .ok term d m) {own : Bool} (hS : Wrappable S (term.type, .type own)) :
    Admits σ ω κ S.span c d fun c' rs =>
      FrontOf own c c' ∧ c'.term.Gives (Term.Alike σ True term) rs := by
  simp only [term_eq_marked] at h ⊢
  refine marked_admits h nofun nofun (fun _ _ _ _ hmark hT => .intro hmark hT)
    fun _ _ e _ hterm _ hT => ?_
  subst hterm
  exact type_admits e hT hS
termination_by 6 * c.left + 2
decreasing_by omega

theorem signature_admits (c : Cursor) {d : Cursor} {start : Nat} {sig : Signature}
    {m : d.left < c.left} (h : c.signature start = .ok sig d m) (hS : WrappableIn S sig.sites) :
    Admits σ ω κ S.span c d fun c' rs => c'.token? = some (.punct .lparen) ∧
      ∀ start', (c'.signature start').Gives (sig.Alike σ True) rs := by
  rw [signature] at h
  obtain ⟨params, e, _, hparams, h⟩ := ok_of_andThen h
  split at h
  · next hopen =>
    obtain ⟨results, hread, rfl⟩ := ok_of_map h
    obtain ⟨_, hresults⟩ := ok_of_lift hread
    obtain ⟨rs, hrs⟩ := fieldList_moves _ _ _ hresults
    rcases wrappableIn_append.1 hS with hS | hS
    · refine signature_before (fieldList_admits c hparams hS) hrs fun e' hm => ?_
      exact .list ((hm.token?_of_head? rfl).trans hopen)
        (((fieldList_echo (k := True) _ _ hm).gives hresults hrs).imp fun _ => .list)
    · exact signature_behind hparams ((fieldList_admits e hresults hS).imp fun _ _ _ hgives =>
        .list hgives.1 (hgives.2.imp fun _ => .list))
  · next hopen =>
    split at h
    · next hstarts =>
      obtain ⟨result, hread, rfl⟩ := ok_of_map h
      obtain ⟨_, hresult⟩ := ok_of_lift hread
      obtain ⟨rs, hrs⟩ := type_moves _ _ _ hresult
      rcases wrappableIn_append.1 hS with hS | hS
      · refine signature_before (fieldList_admits c hparams hS) hrs fun e' hm => ?_
        have ht := hm.token?_of_head? rfl
        exact .single (ht ▸ hopen) (ht ▸ hstarts)
          (((type_echo (k := True) _ _ hm (.inl rfl)).gives hresult hrs).imp fun _ => .single)
      · refine signature_behind hparams ?_
        cases wrappableIn_singleton.1 hS with
        | result =>
          exact (type_listed hresult (.inl (made_of_type hresult).1)).imp fun _ _ _ hgives =>
            .list hgives.1 hgives.2
        | under hq hS =>
          refine (type_admits e hresult (.under hq hS : Wrappable S (result, .type false))).imp
            fun e' rs _ hgives => ?_
          obtain ⟨hfront | ⟨hown, -⟩, hgives⟩ := hgives
          · exact .single (hfront.token ▸ hopen) (hfront.token ▸ hstarts)
              (hgives.imp fun _ => .single)
          · cases hown
    · next hstarts =>
      cases h
      rcases wrappableIn_append.1 hS with hS | hS
      · refine signature_before (fieldList_admits c hparams hS) (.refl _) fun e' hm => ?_
        have ht := hm.token?_of_head? rfl
        exact .none (ht ▸ hopen) (ht ▸ hstarts) .none rfl
      · exact absurd hS not_wrappableIn_nil
termination_by 6 * c.left + 1
decreasing_by all_goals omega

theorem fieldList_admits (c : Cursor) {d : Cursor} {list : FieldList} {m : d.left < c.left}
    (h : c.fieldList = .ok list d m) (hS : WrappableIn S list.sites) :
    Admits σ ω κ S.span c d fun c' rs =>
      c'.token? = some (.punct .lparen) ∧ c'.fieldList.Gives (list.Alike σ True) rs := by
  rw [fieldList] at h
  obtain ⟨lparen, e, _, _, hexpect, h⟩ := ok_of_bind h
  obtain ⟨hopen, rfl⟩ := ok_of_expect hexpect
  obtain ⟨ps, f, _, hps, h⟩ := ok_of_andThen h
  split at h
  · next fields hfields =>
    cases h
    refine (params_admits _ hps (Param.wrappableIn_of_toFields hfields hS)).token hopen
      fun c' rs ht' _ _ hgives => ⟨ht', ?_⟩
    rw [fieldList]
    refine .expect ht' (hgives.andThen fun ps' e' _ hsame he' => ?_)
    obtain ⟨fields', hfields', hfields_alike⟩ := Param.toFields_follows hsame hfields
    rw [hfields']
    exact .ok (.intro hfields_alike) he'
  · cases h
termination_by 6 * c.left + 0
decreasing_by all_goals omega

theorem params_admits (c : Cursor) {d : Cursor} {ps : List Param × Span} {named : Bool}
    {m : d.left < c.left} (h : c.params = .ok ps d m)
    (hS : WrappableIn S (ps.1.flatMap (Param.sites named))) :
    Admits σ ω κ S.span c d fun c' rs =>
      c'.params.Gives (fun ps' => List.Forall₂ (Param.Follows σ named) ps.1 ps'.1) rs :=
  params_loop.admits params_loop
    (fun c c' hm _ hx => (param_echo c c' hm hx).mono (fun _ _ => trivial) fun _ _ => .alike)
    param_moves c h
    (wrappableIn_flatMap.1 hS) fun _ h hS => param_admits _ h hS
termination_by 6 * c.left + 4
decreasing_by omega

theorem param_admits (c : Cursor) {d : Cursor} {p : Param} {named : Bool} {m : d.left < c.left}
    (h : c.param = .ok p d m) (hS : WrappableIn S (p.sites named)) :
    Admits σ ω κ S.span c d fun c' rs => c'.param.Gives (Param.Follows σ named p) rs := by
  rw [param] at h
  split at h
  · next hbare =>
    obtain ⟨name, hname, rfl⟩ := ok_of_map h
    obtain ⟨-, hspan, hd⟩ := ok_of_ident hname
    obtain ⟨hn, rfl⟩ := Param.eq_of_wrappableIn_bare hS
    refine (type_enclosed (type_of_bare hbare hname) (.inr ⟨hd, hspan⟩)).imp
      fun c' rs _ hgives => ?_
    obtain ⟨hopen, hgives⟩ := hgives
    have hellipsis : c'.token? ≠ some (.punct .ellipsis) := by
      rw [hopen]
      simp
    have htype : c'.paramType.Gives (fun p' => p'.1 = none ∧
        (TypeExpr.named name.span none name []).Alike σ True p'.2) rs := by
      rw [paramType, dif_neg hellipsis]
      exact hgives.map fun _ _ h => ⟨rfl, named_alike_of_span h⟩
    rw [param, if_neg (by simp [atBareParam, hopen]), if_neg (by simp [Cursor.atNamedParam, hopen])]
    refine htype.map fun p' _ h => ?_
    rw [h.1]
    exact .enclosed hn h.2
  · next hbare =>
    split at h
    · next hnamed =>
      obtain ⟨name, e, _, _, hname, hread⟩ := ok_of_bind h
      obtain ⟨type, htype, rfl⟩ := ok_of_map hread
      obtain ⟨ht, -, rfl⟩ := ok_of_ident hname
      refine (paramType_admits _ htype (wrappableIn_singleton.1 hS)).token ht
        fun c' rs ht' hahead _ hgives => ?_
      rw [param, if_neg (hahead.not_atBareParam hbare),
        if_pos (hahead.atNamedParam (ht'.trans ht.symm) hnamed)]
      exact .ident ht' (hgives.2.map fun _ _ h => .alike (.typed rfl h.1 h.2))
    · next hnamed =>
      obtain ⟨type, htype, rfl⟩ := ok_of_map h
      refine (paramType_admits _ htype (wrappableIn_singleton.1 hS)).imp
        fun c' rs hahead hgives => ?_
      rw [param, if_neg (hahead.not_atBareParam hbare),
        if_neg (hahead.not_atNamedParam hgives.1 hnamed)]
      exact hgives.2.map fun _ _ h => .alike (.typed rfl h.1 h.2)
termination_by 6 * c.left + 3
decreasing_by all_goals omega

theorem paramType_admits (c : Cursor) {d : Cursor} {p : Option Span × TypeExpr}
    {m : d.left < c.left} (h : c.paramType = .ok p d m) (hS : Wrappable S (p.2, .type true)) :
    Admits σ ω κ S.span c d fun c' rs => FrontOf true c c' ∧
      c'.paramType.Gives (fun p' => p'.1.isSome = p.1.isSome ∧ p.2.Alike σ True p'.2) rs := by
  simp only [paramType_eq_marked] at h ⊢
  refine marked_admits (r := fun p p' => p'.1.isSome = p.1.isSome ∧ p.2.Alike σ True p'.2) h
    nofun nofun (fun _ _ _ _ => .intro) fun _ _ e _ hp _ hT => ?_
  subst hp
  exact type_admits e hT hS
termination_by 6 * c.left + 2
decreasing_by omega

end

end GoDecls.Tree.Cursor
