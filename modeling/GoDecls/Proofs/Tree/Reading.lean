/-
  What readers give on tokens that are known.

  * `Spells ls ts rs`: the lexemes `ls` begin with the tokens `ts`, behind which
    `rs` is left;
  * `Outcome.Gives o P rs`: the outcome `o` is a value with `P`, and `rs` is left
    behind it.  There is one rule for each way of putting readers together
    (`Gives.bind`, `Gives.map`, …), so that the readers of types are followed
    step by step without opening an outcome;
  * `type_of_ident`, `type_of_star`, …: what reads a type, by its first token.
-/
import GoDecls.Proofs.Tree.Render
import GoDecls.Tree.Cursor
import GoDecls.Tree.Types

namespace GoDecls.Tree

/-! ## Lexemes that spell tokens -/

/-- The lexemes begin with these tokens, and `rs` is behind them. -/
def Spells (ls : List Lexeme) (ts : List Token) (rs : List Lexeme) : Prop :=
  ∃ front, ls = front ++ rs ∧ front.map Lexeme.token = ts

namespace Spells

variable {ls rs : List Lexeme} {t : Token} {ts us : List Token}

theorem nil_iff : Spells ls [] rs ↔ ls = rs := by
  constructor
  · rintro ⟨front, rfl, h⟩
    rw [List.map_eq_nil_iff] at h
    rw [h, List.nil_append]
  · rintro rfl
    exact ⟨[], rfl, rfl⟩

theorem cons_iff : Spells ls (t :: ts) rs ↔
    ∃ l ls', ls = l :: ls' ∧ l.token = t ∧ Spells ls' ts rs := by
  constructor
  · rintro ⟨front, rfl, h⟩
    obtain ⟨l, front', rfl, hl, h'⟩ := List.map_eq_cons_iff.1 h
    exact ⟨l, front' ++ rs, rfl, hl, front', rfl, h'⟩
  · rintro ⟨l, _, rfl, hl, front, rfl, h⟩
    exact ⟨l :: front, rfl, by rw [List.map_cons, hl, h]⟩

theorem append_iff : Spells ls (ts ++ us) rs ↔ ∃ ms, Spells ls ts ms ∧ Spells ms us rs := by
  constructor
  · rintro ⟨front, rfl, h⟩
    obtain ⟨a, b, rfl, ha, hb⟩ := List.map_eq_append_iff.1 h
    exact ⟨b ++ rs, ⟨a, by rw [List.append_assoc], ha⟩, b, rfl, hb⟩
  · rintro ⟨_, ⟨a, rfl, ha⟩, b, rfl, hb⟩
    exact ⟨a ++ b, by rw [List.append_assoc], by rw [List.map_append, ha, hb]⟩

/-- What is behind the first token. -/
theorem uncons (h : Spells ls (t :: ts) rs) : ∃ ms, Spells ls [t] ms ∧ Spells ms ts rs :=
  append_iff.1 h

/-- The first token. -/
theorem head? (h : Spells ls (t :: ts) rs) : ls.head?.map Lexeme.token = some t := by
  obtain ⟨l, _, rfl, rfl, -⟩ := cons_iff.1 h
  rfl

end Spells

/-! ## Outcomes that are values -/

namespace Outcome

variable {α β : Type} {c d : Cursor} {P : α → Prop} {Q : β → Prop} {rs ms : List Lexeme}

/-- The outcome is a value with `P`, and `rs` is left behind it. -/
def Gives (o : Outcome α c) (P : α → Prop) (rs : List Lexeme) : Prop :=
  ∃ a d m, o = .ok a d m ∧ P a ∧ d.rest = rs

namespace Gives

theorem ok {a : α} {m : d.left < c.left} (ha : P a) (hd : d.rest = rs) :
    (Outcome.ok a d m : Outcome α c).Gives P rs := ⟨a, d, m, rfl, ha, hd⟩

theorem imp {o : Outcome α c} {P' : α → Prop} (h : o.Gives P rs) (hP : ∀ a, P a → P' a) :
    o.Gives P' rs := by
  obtain ⟨a, d, m, ho, ha, hd⟩ := h
  exact ⟨a, d, m, ho, hP a ha, hd⟩

theorem lift {o : Outcome α d} (h : o.Gives P rs) (k : d.left ≤ c.left) : (o.lift k).Gives P rs := by
  obtain ⟨a, e, m, rfl, ha, he⟩ := h
  exact ok ha he

theorem after {o : Outcome α d} (h : o.Gives P rs) (m : d.left < c.left) : (o.after m).Gives P rs :=
  h.lift _

theorem andThen {o : Outcome α c} {f : (a : α) → (d : Cursor) → d.left < c.left → Outcome β c}
    (h : o.Gives P ms) (hf : ∀ a d m, P a → d.rest = ms → (f a d m).Gives Q rs) :
    (o.andThen f).Gives Q rs := by
  obtain ⟨a, d, m, rfl, ha, hd⟩ := h
  exact hf a d m ha hd

theorem bind {o : Outcome α c} {f : (a : α) → (d : Cursor) → d.left < c.left → Outcome β d}
    (h : o.Gives P ms) (hf : ∀ a d m, P a → d.rest = ms → (f a d m).Gives Q rs) :
    (o.bind f).Gives Q rs :=
  h.andThen fun a d m ha hd => (hf a d m ha hd).after m

theorem map {o : Outcome α c} {f : α → Cursor → β} (h : o.Gives P rs)
    (hf : ∀ a d, P a → Q (f a d)) : (o.map f).Gives Q rs :=
  h.andThen fun a _ _ ha hd => ok (hf a _ ha) hd

end Gives

end Outcome

/-! ## Single tokens -/

namespace Cursor

variable {c : Cursor} {t u : Token} {ts : List Token} {rs : List Lexeme}

theorem token?_of_spells (h : Spells c.rest (t :: ts) rs) : c.token? = some t := h.head?

theorem token?_ne_of_spells (h : Spells c.rest (t :: ts) rs) (hne : t ≠ u) : c.token? ≠ some u := by
  rw [token?_of_spells h]
  exact fun hu => hne (Option.some.inj hu)

theorem second?_of_spells (h : Spells c.rest (t :: u :: ts) rs) : c.second? = some u := by
  obtain ⟨_, _, hl, -, h'⟩ := Spells.cons_iff.1 h
  rw [second?, hl]
  exact h'.head?

theorem token?_of_rest {l : Lexeme} {ls : List Lexeme} (h : c.rest = l :: ls) :
    c.token? = some l.token := by
  rw [token?, h]
  rfl

theorem advance_rest (c : Cursor) : c.advance.rest = c.rest.tail := by
  unfold advance
  split <;> simp_all

theorem rest_advance {l : Lexeme} {ls : List Lexeme} (h : c.rest = l :: ls) :
    c.advance.rest = ls := by
  rw [advance_rest, h]
  rfl

theorem spells_advance (h : Spells c.rest (t :: ts) rs) : Spells c.advance.rest ts rs := by
  obtain ⟨_, _, hl, -, h'⟩ := Spells.cons_iff.1 h
  rw [advance_rest, hl]
  exact h'

theorem skip_rest (c : Cursor) (n : Nat) : (c.skip n).rest = c.rest.drop n := by
  induction n generalizing c with
  | zero => rfl
  | succ n ih => rw [skip, ih, advance_rest, List.drop_tail]

/-- The token that must stand here does. -/
theorem expect_gives (what : String) (h : Spells c.rest [t] rs) :
    (c.expect t what).Gives (fun _ => True) rs := by
  unfold expect
  rw [dif_pos (token?_of_spells h)]
  exact .ok trivial (Spells.nil_iff.1 (spells_advance h))

theorem ident_gives (what : String) {i : Ident} (h : Spells c.rest [i.token] rs) :
    (c.ident what).Gives (fun j => j.unplaced = i.unplaced) rs := by
  have ht := token?_of_spells h
  unfold ident
  split
  · next s hs =>
    rw [hs] at ht
    cases ht
    exact .ok rfl (Spells.nil_iff.1 (spells_advance h))
  · next hn => exact absurd ht (hn i.text)

/-- Names with commas between, where no comma follows. -/
theorem names_gives (what : String) : ∀ {names : List Ident} {c : Cursor}, names ≠ [] →
    Spells c.rest (renderNames names) rs → rs.head?.map Lexeme.token ≠ some (.punct .comma) →
    (c.names what).Gives (fun is => is.map (·.unplaced) = names.map (·.unplaced)) rs
  | [], _, hne, _, _ => absurd rfl hne
  | [i], c, _, h, hr => by
    rw [names]
    refine (ident_gives what h).andThen fun name d m hname hd => ?_
    rw [if_neg (by rw [token?, hd]; exact hr)]
    exact .ok (by rw [List.map_singleton, hname]; rfl) hd
  | i :: j :: is, c, _, h, hr => by
    rw [names]
    rw [renderNames_cons_cons] at h
    obtain ⟨_, h₁, h₂⟩ := h.uncons
    refine (ident_gives what h₁).andThen fun name d m hname hd => ?_
    subst hd
    rw [if_pos (token?_of_spells h₂)]
    have hmore := names_gives what (List.cons_ne_nil j is) (spells_advance h₂) hr
    refine ((hmore.lift _).after m).map fun more _ hm => ?_
    simp only [List.map_cons, hname, hm]

/-! ## Types by their first token -/

section

variable {c : Cursor}

theorem type_of_ident {s : String} (h : c.token? = some (.ident s)) : c.type = c.namedType := by
  rw [type]
  split <;> simp_all

theorem type_of_lbrack (h : c.token? = some (.punct .lbrack)) :
    c.type = (c.advance.arrayType c.start).lift c.advance_le := by
  rw [type]
  split <;> simp_all

theorem type_of_struct (h : c.token? = some (.keyword .struct)) : c.type =
    (((c.advance.expect (.punct .lbrace) "'\x7b'").bind fun _ d _ => d.structFields).lift
      c.advance_le).map fun fields e => .struct (e.spanFrom c.start) fields := by
  rw [type]
  split <;> simp_all

theorem type_of_interface (h : c.token? = some (.keyword .interface)) : c.type =
    (((c.advance.expect (.punct .lbrace) "'\x7b'").bind fun _ d _ => d.interfaceElems).lift
      c.advance_le).map fun elems e => .interface (e.spanFrom c.start) elems := by
  rw [type]
  split <;> simp_all

theorem type_of_star (h : c.token? = some (.punct .star)) : c.type =
    (c.advance.type.lift c.advance_le).map fun elem d =>
      .pointer (d.spanFrom c.start) c.span elem := by
  rw [type]
  split <;> simp_all

theorem type_of_map (h : c.token? = some (.keyword .map)) : c.type =
    ((c.advance.expect (.punct .lbrack) "'['").bind fun _ d _ =>
      d.type.bind fun key e _ =>
        (e.expect (.punct .rbrack) "']'").bind fun _ f _ =>
          f.type.map fun value g => .map (g.spanFrom c.start) key value).lift c.advance_le := by
  rw [type]
  split <;> simp_all

theorem type_of_chan (h : c.token? = some (.keyword .chan)) : c.type =
    if c.advance.token? = some (.punct .arrow) then
      (c.advance.advance.type.lift (Nat.le_trans c.advance.advance_le c.advance_le)).map
        fun elem d => .chan (d.spanFrom c.start) .send elem
    else
      (c.advance.type.lift c.advance_le).map fun elem d =>
        .chan (d.spanFrom c.start) .both elem := by
  rw [type]
  split <;> simp_all

theorem type_of_arrow (h : c.token? = some (.punct .arrow)) : c.type =
    ((c.advance.expect (.keyword .chan) "'chan'").bind fun _ d _ =>
      d.type.map fun elem e => .chan (e.spanFrom c.start) .recv elem).lift c.advance_le := by
  rw [type]
  split <;> simp_all

theorem type_of_func (h : c.token? = some (.keyword .func)) : c.type =
    ((c.advance.signature c.start).lift c.advance_le).map fun sig d =>
      .func (d.spanFrom c.start) sig := by
  rw [type]
  split <;> simp_all

theorem type_of_lparen (h : c.token? = some (.punct .lparen)) : c.type =
    (c.advance.type.bind fun inner d _ =>
      (d.expect (.punct .rparen) "')'").map fun _ e =>
        .paren (e.spanFrom c.start) inner).lift c.advance_le := by
  rw [type]
  split <;> simp_all

end

end Cursor

end GoDecls.Tree
