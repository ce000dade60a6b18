/-
  The loops of the readers.

  Six readers go through a list up to and with its closing bracket.  They are one loop
  (`ListLoop`) over what they read and over the shape of their list (`ListShape`): fields,
  members and specs have semicolons between them, any number of them in a row, and type
  arguments, parameters and type parameters have commas.  What holds of a loop because it
  holds of its items is shown once for all six, where it is needed.
-/
import GoDecls.Tree.Decls

namespace GoDecls.Tree

namespace Outcome

variable {α β : Type} {c d : Cursor}

/-! ## Where a value comes from -/

theorem ok_of_lift {e : Cursor} {o : Outcome α d} {k : d.left ≤ c.left} {a : α} {m : e.left < c.left}
    (h : o.lift k = .ok a e m) : ∃ m', o = .ok a e m' := by
  cases o with
  | ok b f m' =>
    cases h
    exact ⟨m', rfl⟩
  | error fault f k => cases h

theorem ok_of_andThen {o : Outcome α c} {k : (a : α) → (d : Cursor) → d.left < c.left → Outcome β c}
    {b : β} {m : d.left < c.left} (h : o.andThen k = .ok b d m) :
    ∃ a e m', o = .ok a e m' ∧ k a e m' = .ok b d m := by
  cases o with
  | ok a e m' => exact ⟨a, e, m', rfl, h⟩
  | error fault e k => cases h

theorem ok_of_map {o : Outcome α c} {k : α → Cursor → β} {b : β} {m : d.left < c.left}
    (h : o.map k = .ok b d m) : ∃ a, o = .ok a d m ∧ b = k a d := by
  obtain ⟨a, e, m', ho, hk⟩ := ok_of_andThen h
  cases hk
  exact ⟨a, ho, rfl⟩

theorem ok_of_bind {o : Outcome α c} {k : (a : α) → (d : Cursor) → d.left < c.left → Outcome β d}
    {b : β} {m : d.left < c.left} (h : o.bind k = .ok b d m) :
    ∃ a e m₁ m₂, o = .ok a e m₁ ∧ k a e m₁ = .ok b d m₂ := by
  obtain ⟨a, e, m₁, ho, hk⟩ := ok_of_andThen h
  obtain ⟨m₂, hk⟩ := ok_of_lift hk
  exact ⟨a, e, m₁, m₂, ho, hk⟩

/-- Two readers one behind the other take two tokens at least. -/
theorem left_of_bind {o : Outcome α c} {k : (a : α) → (d : Cursor) → d.left < c.left → Outcome β d}
    {b : β} {m : d.left < c.left} (h : o.bind k = .ok b d m) : d.left + 2 ≤ c.left := by
  obtain ⟨a, e, m₁, m₂, -, -⟩ := ok_of_bind h
  omega

end Outcome

namespace Cursor

theorem ok_of_expect {c d : Cursor} {t : Token} {what : String} {s : Span} {m : d.left < c.left}
    (h : c.expect t what = .ok s d m) : c.token? = some t ∧ d = c.advance := by
  unfold expect at h
  split at h
  · next ht =>
    cases h
    exact ⟨ht, rfl⟩
  · cases h

theorem ok_of_ident {c d : Cursor} {what : String} {i : Ident} {m : d.left < c.left}
    (h : c.ident what = .ok i d m) :
    c.token? = some (.ident i.text) ∧ i.span = c.span ∧ d = c.advance := by
  unfold ident at h
  split at h
  · next ht =>
    cases h
    exact ⟨ht, rfl, rfl⟩
  · cases h

end Cursor

open Outcome

/-! ## Lists -/

/-- The marks between the items of a list and behind them, and what is missing where
    neither stands behind an item; `atEnd` is missing where an item may stand and there is
    no token, unless an item is. -/
structure ListMarks where
  sep : Punct
  close : Punct
  what : String
  atEnd : Option String
  sep_cases : sep = .semi ∨ sep = .comma
  closes : close.closes = true

/-- What is made of a list: `make` of its items and of the place of its bracket, and `cons`
    of an item and of what is made of those behind it. -/
structure ListShape (α β : Type) extends ListMarks where
  make : List α → Span → β
  cons : α → β → β
  items : β → List α
  cons_make : ∀ x xs s, cons x (make xs s) = make (x :: xs) s
  items_make : ∀ xs s, items (make xs s) = xs
  items_cons : ∀ x xs, items (cons x xs) = x :: items xs

namespace ListShape

variable {α β : Type} (S : ListShape α β)

/-- What is made of no items. -/
abbrev nil : Span → β := S.make []

theorem items_nil (s : Span) : S.items (S.nil s) = [] := S.items_make [] s

end ListShape

namespace ListMarks

/-- Around fields of a struct and members of an interface. -/
def braced : ListMarks := ⟨.semi, .rbrace, "';' or '\x7d'", some "'\x7d'", .inl rfl, rfl⟩

/-- Around specs of a declaration. -/
def grouped : ListMarks := ⟨.semi, .rparen, "';' or ')'", some "')'", .inl rfl, rfl⟩

/-- Around type arguments and type parameters. -/
def bracketed : ListMarks := ⟨.comma, .rbrack, "']'", none, .inr rfl, rfl⟩

/-- Around parameters and results. -/
def parenthesized : ListMarks := ⟨.comma, .rparen, "')'", none, .inr rfl, rfl⟩

variable {α : Type} (k : ListMarks)

/-- The items alone. -/
def plain : ListShape α (List α) where
  toListMarks := k
  make xs _ := xs
  cons := .cons
  items xs := xs
  cons_make _ _ _ := rfl
  items_make _ _ := rfl
  items_cons _ _ := rfl

/-- The items, and the place of the bracket. -/
def closedAt : ListShape α (List α × Span) where
  toListMarks := k
  make := .mk
  cons x xs := (x :: xs.1, xs.2)
  items := Prod.fst
  cons_make _ _ _ := rfl
  items_make _ _ := rfl
  items_cons _ _ := rfl

theorem sep_opens : k.sep.opens = false := by
  rcases k.sep_cases with h | h <;> rw [h] <;> rfl

theorem sep_closes : k.sep.closes = false := by
  rcases k.sep_cases with h | h <;> rw [h] <;> rfl

theorem sep_ne_close : k.sep ≠ k.close := fun h => by
  have hsep := k.sep_closes
  rw [h, k.closes] at hsep
  cases hsep

theorem lparen_ne_close : Token.punct .lparen ≠ .punct k.close := fun h => by
  have hclose := k.closes
  rw [← Token.punct.inj h] at hclose
  cases hclose

theorem lparen_ne_sep : Token.punct .lparen ≠ .punct k.sep := fun h => by
  have hsep := k.sep_opens
  rw [← Token.punct.inj h] at hsep
  cases hsep

theorem close_ne_semi : Token.punct k.close ≠ .punct .semi := fun h => by
  have hclose := k.closes
  rw [Token.punct.inj h] at hclose
  cases hclose

theorem close_endsStatement : (Token.punct k.close).endsStatement = true := by
  have hclose := k.closes
  revert hclose
  cases k.close <;> first | exact fun _ => rfl | exact nofun

end ListMarks

namespace Cursor

section

variable {α β : Type} {S : ListShape α β} {item : (c : Cursor) → Outcome α c}
  {loop : (c : Cursor) → Outcome β c} {c d : Cursor} {x : α}

theorem exists_token?_of_left_pos (h : 0 < c.left) : ∃ t, c.token? = some t := by
  obtain ⟨l, ls, hls⟩ := List.exists_cons_of_length_pos h
  exact ⟨l.token, by rw [Cursor.token?, hls]; rfl⟩

/-- Reads on behind an item: the bracket, or a separator and the other items. -/
def behind (S : ListShape α β) (loop : (c : Cursor) → Outcome β c) (x : α) (c : Cursor) :
    Outcome β c :=
  if h : c.token? = some (.punct S.close) then
    .ok (S.cons x (S.nil c.span)) c.advance (advance_lt h)
  else if c.token? = some (.punct S.sep) then
    ((loop c.advance).lift c.advance_le).map fun xs _ => S.cons x xs
  else c.fails S.what

theorem behind_of_close (h : c.token? = some (.punct S.close)) :
    c.behind S loop x = .ok (S.cons x (S.nil c.span)) c.advance (advance_lt h) := dif_pos h

theorem behind_of_sep (h : c.token? = some (.punct S.sep)) :
    c.behind S loop x = ((loop c.advance).lift c.advance_le).map fun xs _ => S.cons x xs := by
  rw [behind, dif_neg (by simpa [h] using S.sep_ne_close), if_pos h]

/-- The loop reads items with separators between them.  A semicolon is passed over
    where an item may stand. -/
structure ListLoop (S : ListShape α β) (item : (c : Cursor) → Outcome α c)
    (loop : (c : Cursor) → Outcome β c) : Prop where
  at_close {c : Cursor} (h : c.token? = some (.punct S.close)) :
    loop c = .ok (S.nil c.span) c.advance (advance_lt h)
  at_semi {c : Cursor} (hsep : S.sep = .semi) (h : c.token? = some (.punct S.sep)) :
    loop c = (loop c.advance).lift c.advance_le
  at_item {c : Cursor} {t : Token} (h : c.token? = some t) (hclose : t ≠ .punct S.close)
    (hsemi : S.sep = .semi → t ≠ .punct S.sep) :
    loop c = (item c).bind fun x d _ => d.behind S loop x
  at_end {c : Cursor} (h : c.token? = none) :
    (∃ what, S.atEnd = some what ∧ loop c = c.fails what) ∨
      S.atEnd = none ∧ loop c = (item c).bind fun x d _ => d.behind S loop x

/-- The bracket is left to the loop, and the separator must stand before other items. -/
theorem behind_eq_of_loop
    (hclose : ∀ {c : Cursor} (h : c.token? = some (.punct S.close)),
      loop c = .ok (S.nil c.span) c.advance (advance_lt h)) (x : α) (c : Cursor) :
    c.behind S loop x =
      if c.token? = some (.punct S.close) then (loop c).map fun xs _ => S.cons x xs
      else (c.expect (.punct S.sep) S.what).bind fun _ d _ =>
        (loop d).map fun xs _ => S.cons x xs := by
  unfold behind expect
  split
  · next h =>
    rw [hclose h]
    rfl
  · split
    · change _ = ((loop c.advance).map _).lift c.advance_le
      cases loop c.advance <;> rfl
    · rfl

/-- The bracket must stand where no separator does. -/
theorem behind_eq_of_expect (x : α) (c : Cursor) : c.behind S loop x =
    if c.token? = some (.punct S.sep) then
      ((loop c.advance).lift c.advance_le).map fun xs _ => S.cons x xs
    else (c.expect (.punct S.close) S.what).map fun s _ => S.cons x (S.nil s) := by
  split
  · next h => exact behind_of_sep h
  · next h =>
    rw [behind, if_neg h, expect]
    split <;> rfl

theorem ListLoop.of_items (hclose : ∀ {c : Cursor} (h : c.token? = some (.punct S.close)),
      loop c = .ok (S.nil c.span) c.advance (advance_lt h))
    (hsep : ∀ {c : Cursor}, c.token? = some (.punct S.sep) →
      loop c = (loop c.advance).lift c.advance_le)
    (hitem : ∀ {c : Cursor} {t : Token}, c.token? = some t → t ≠ .punct S.close →
      t ≠ .punct S.sep → loop c = (item c).bind fun x d _ =>
        if d.token? = some (.punct S.close) then (loop d).map fun xs _ => S.cons x xs
        else (d.expect (.punct S.sep) S.what).bind fun _ e _ =>
          (loop e).map fun xs _ => S.cons x xs)
    {what : String} (hend : ∀ {c : Cursor}, c.token? = none → loop c = c.fails what)
    (hwhat : S.atEnd = some what) (hsemi : S.sep = .semi) : ListLoop S item loop where
  at_close := hclose
  at_semi _ := hsep
  at_item h hne hne' := by
    simp only [behind_eq_of_loop hclose]
    exact hitem h hne (hne' hsemi)
  at_end h := .inl ⟨what, hwhat, hend h⟩

theorem ListLoop.of_entries (h : ∀ c : Cursor, loop c =
    if h : c.token? = some (.punct S.close) then .ok (S.nil c.span) c.advance (advance_lt h)
    else (item c).bind fun x d _ =>
      if d.token? = some (.punct S.sep) then
        ((loop d.advance).lift d.advance_le).map fun xs _ => S.cons x xs
      else (d.expect (.punct S.close) S.what).map fun s _ => S.cons x (S.nil s))
    (hnone : S.atEnd = none) (hsemi : S.sep ≠ .semi) : ListLoop S item loop := by
  have hitem {c : Cursor} (hclose : c.token? ≠ some (.punct S.close)) :
      loop c = (item c).bind fun x d _ => d.behind S loop x := by
    simp only [behind_eq_of_expect]
    rw [h, dif_neg hclose]
  refine ⟨fun hclose => ?_, fun hsep => absurd hsep hsemi, fun ht hne _ => hitem ?_,
    fun htoken => .inr ⟨hnone, hitem ?_⟩⟩
  · rw [h, dif_pos hclose]
  · exact fun hclose => hne (Option.some.inj (ht.symm.trans hclose))
  · rw [htoken]
    exact nofun

/-! ## What is read -/

variable {b : β} {m : d.left < c.left}

/-- What a list is read from: the bracket, or a semicolon that is passed over, or an item
    and what stands behind it. -/
theorem ListLoop.ok_cases (hloop : ListLoop S item loop) (h : loop c = .ok b d m) :
    (c.token? = some (.punct S.close) ∧ b = S.nil c.span ∧ d = c.advance) ∨
    (S.sep = .semi ∧ c.token? = some (.punct S.sep) ∧ ∃ m', loop c.advance = .ok b d m') ∨
    (∃ t, c.token? = some t ∧ t ≠ .punct S.close ∧ (S.sep = .semi → t ≠ .punct S.sep)) ∧
      ∃ a e m₁ m₂, item c = .ok a e m₁ ∧ e.behind S loop a = .ok b d m₂ := by
  obtain ⟨t, ht⟩ := exists_token?_of_left_pos (Nat.zero_lt_of_lt m)
  by_cases hclose : t = .punct S.close
  · subst hclose
    rw [hloop.at_close ht] at h
    cases h
    exact .inl ⟨ht, rfl, rfl⟩
  by_cases hsemi : S.sep = .semi ∧ t = .punct S.sep
  · obtain ⟨hsep, rfl⟩ := hsemi
    rw [hloop.at_semi hsep ht] at h
    exact .inr (.inl ⟨hsep, ht, ok_of_lift h⟩)
  · rw [hloop.at_item ht hclose (not_and.1 hsemi)] at h
    obtain ⟨a, e, m₁, m₂, ha, hmore⟩ := ok_of_bind h
    exact .inr (.inr ⟨⟨t, ht, hclose, not_and.1 hsemi⟩, a, e, m₁, m₂, ha, hmore⟩)

theorem ok_of_behind {a : α} (h : c.behind S loop a = .ok b d m) :
    (c.token? = some (.punct S.close) ∧ b = S.cons a (S.nil c.span) ∧ d = c.advance) ∨
    c.token? = some (.punct S.sep) ∧ ∃ b' m', loop c.advance = .ok b' d m' ∧ b = S.cons a b' := by
  unfold behind at h
  split at h
  · next hclose =>
    cases h
    exact .inl ⟨hclose, rfl, rfl⟩
  split at h
  · next hsep =>
    obtain ⟨b', hb, rfl⟩ := ok_of_map h
    obtain ⟨m', hb⟩ := ok_of_lift hb
    exact .inr ⟨hsep, b', m', hb, rfl⟩
  · cases h

/-- What holds of the bracket, behind separators and behind items holds of a list. -/
theorem ListLoop.induct (hloop : ListLoop S item loop) {Q : Cursor → β → Cursor → Prop} (c : Cursor)
    {d : Cursor} {b : β} {m : d.left < c.left} (h : loop c = .ok b d m)
    (hnil : ∀ {e}, e.token? = some (.punct S.close) → Q e (S.nil e.span) e.advance)
    (hsep : ∀ {e b d}, e.token? = some (.punct S.sep) → Q e.advance b d → Q e b d)
    (hcons : ∀ {e a f b d m}, e.left ≤ c.left → item e = .ok a f m → Q f b d →
      Q e (S.cons a b) d) : Q c b d := by
  have hrest {e d b m} (hlt : e.left < c.left) (h : loop e = .ok b d m) : Q e b d :=
    hloop.induct e h hnil hsep fun hle => hcons (Nat.le_trans hle (Nat.le_of_lt hlt))
  obtain ⟨ht, rfl, rfl⟩ | ⟨-, ht, _, hread⟩ | ⟨-, a, e, m₁, _, ha, hmore⟩ := hloop.ok_cases h
  · exact hnil ht
  · exact hsep ht (hrest (advance_lt ht) hread)
  · obtain ⟨ht, rfl, rfl⟩ | ⟨ht, b', _, hread, rfl⟩ := ok_of_behind hmore
    · exact hcons (Nat.le_refl _) ha (hnil ht)
    · exact hcons (Nat.le_refl _) ha (hsep ht (hrest (Nat.lt_trans (advance_lt ht) m₁) hread))
termination_by c.left

end

/-! ## The six loops -/

theorem structFields_loop : ListLoop ListMarks.braced.plain field structFields := by
  refine .of_items (fun h => ?_) (fun h => ?_) (fun h hclose hsemi => ?_) (fun h => ?_) rfl rfl <;>
    rw [structFields] <;> split <;> first | rfl | simp_all [ListMarks.plain, ListMarks.braced]

theorem interfaceElems_loop : ListLoop ListMarks.braced.plain interfaceElem interfaceElems := by
  refine .of_items (fun h => ?_) (fun h => ?_) (fun h hclose hsemi => ?_) (fun h => ?_) rfl rfl <;>
    rw [interfaceElems] <;> split <;> first | rfl | simp_all [ListMarks.plain, ListMarks.braced]

theorem specs_loop {α : Type} (spec : (c : Cursor) → Outcome α c) :
    ListLoop ListMarks.grouped.closedAt spec (specs spec) := by
  refine .of_items (fun h => ?_) (fun h => ?_) (fun h hclose hsemi => ?_) (fun h => ?_) rfl rfl <;>
    rw [specs] <;> split <;> first | rfl | simp_all [ListMarks.closedAt, ListMarks.grouped]

theorem typeArgs_loop : ListLoop ListMarks.bracketed.plain type typeArgs :=
  .of_entries (fun c => by rw [typeArgs]; rfl) rfl nofun

theorem params_loop : ListLoop ListMarks.parenthesized.closedAt param params :=
  .of_entries (fun c => by rw [params]; rfl) rfl nofun

theorem typeParamList_loop : ListLoop ListMarks.bracketed.plain typeParam typeParamList :=
  .of_entries (fun c => by rw [typeParamList]; rfl) rfl nofun

end Cursor

end GoDecls.Tree
