/-
  Where readers leave the cursor, and what the values they give cover.

  * `Cursor.Placed text c`: the tokens that are left stand in the text one behind the
    other, behind the end of the last one read.  Semicolons that no character spells
    do not move that end;
  * `Outcome.Leads text Q o`: the cursor behind a value that comes of `o` is placed,
    and the two have `Q`.  There is one rule for each way of putting readers together;
  * `Outcome.Spans text lo f o`: the outlines `f a` of a value `a` that comes of `o`
    stand between `lo` and the end of the last token read.
-/
import GoDecls.Proofs.Tree.Loops
import GoDecls.Proofs.Tree.Outline
import GoDecls.Proofs.Tree.Reading
import GoDecls.Tree.Types

namespace GoDecls.Tree

open Text

variable {text : List Char}

/-- The token stands in the text: only a semicolon can be without extent, and under a
    name stands that name. -/
structure Stands (text : List Char) (l : Lexeme) : Prop where
  start : IsBoundary text l.start
  stop : IsBoundary text l.stop
  le : l.start ≤ l.stop
  extent : l.token ≠ .punct .semi → l.start < l.stop
  named : ∀ s, l.token = .ident s → slice? text l.start l.stop = some s.toList

/-! ## Cursors -/

/-- The cursor stands in the text, and the tokens that are left are in order. -/
structure Cursor.Placed (text : List Char) (c : Cursor) : Prop where
  limit : byteLength text ≤ Span.limit
  size : c.size = byteLength text
  tokens : ∀ l ∈ c.rest, Stands text l
  ordered : c.rest.Pairwise (·.stop ≤ ·.start)
  last : IsBoundary text c.last
  behind : ∀ l ∈ c.rest, c.last ≤ l.start

namespace Cursor

variable {c d : Cursor} {t : Token} {l : Lexeme} {ls : List Lexeme} {lo hi : Nat}
  {os os' : List Outline}

/-- A cursor with the tokens that are left, one by one. -/
theorem placed_cons_iff {last size : Nat} : (Cursor.mk (l :: ls) last size).Placed text ↔
    Stands text l ∧ last ≤ l.start ∧ (∀ m ∈ ls, l.stop ≤ m.start) ∧
      (Cursor.mk ls last size).Placed text := by
  constructor
  · rintro ⟨hlimit, hsize, htokens, hordered, hlast, hbehind⟩
    obtain ⟨hl, hls⟩ := List.forall_mem_cons.1 htokens
    obtain ⟨hnext, hrest⟩ := List.pairwise_cons.1 hordered
    obtain ⟨hle, hmore⟩ := List.forall_mem_cons.1 hbehind
    exact ⟨hl, hle, hnext, hlimit, hsize, hls, hrest, hlast, hmore⟩
  · rintro ⟨hl, hle, hnext, hlimit, hsize, hls, hrest, hlast, hmore⟩
    exact ⟨hlimit, hsize, List.forall_mem_cons.2 ⟨hl, hls⟩, List.pairwise_cons.2 ⟨hnext, hrest⟩,
      hlast, List.forall_mem_cons.2 ⟨hle, hmore⟩⟩

namespace Placed

/-- A position in the text is one that a span can hold. -/
theorem boundary_le (hc : c.Placed text) {p : Nat} (hp : IsBoundary text p) : p ≤ Span.limit :=
  Nat.le_trans hp.le hc.limit

theorem span_eq (hc : c.Placed text) (hl : Stands text l) : l.span = ⟨l.start, l.stop⟩ :=
  Span.ofOffsets_of_le (hc.boundary_le hl.start) (hc.boundary_le hl.stop)

/-- The stretch of the token at the cursor, or of the end of the text. -/
theorem span_cases (hc : c.Placed text) :
    (c.rest = [] ∧ c.span = ⟨byteLength text, byteLength text⟩) ∨
      ∃ l ls, c.rest = l :: ls ∧ Stands text l ∧ c.span = ⟨l.start, l.stop⟩ := by
  unfold span
  cases hrest : c.rest with
  | nil => exact .inl ⟨rfl, by rw [hc.size, Span.ofOffsets_of_le hc.limit hc.limit]⟩
  | cons l ls =>
    have hl := hc.tokens l (hrest ▸ List.mem_cons_self)
    exact .inr ⟨l, ls, rfl, hl, hc.span_eq hl⟩

theorem start_eq (hc : c.Placed text) (hrest : c.rest = l :: ls) : c.start = l.start := by
  have hspan := hc.span_eq (hc.tokens l (hrest ▸ List.mem_cons_self))
  rw [Cursor.start, span, hrest]
  exact congrArg Span.start hspan

theorem start (hc : c.Placed text) : IsBoundary text c.start := by
  unfold Cursor.start
  obtain ⟨-, hspan⟩ | ⟨l, _, -, hl, hspan⟩ := hc.span_cases
  · rw [hspan]
    exact ⟨text, [], (List.append_nil _).symm, rfl⟩
  · rw [hspan]
    exact hl.start

/-- What is before the end of the text and all that is left is before the cursor. -/
theorem le_start (hc : c.Placed text) {p : Nat} (hp : p ≤ byteLength text)
    (h : ∀ l ∈ c.rest, p ≤ l.start) : p ≤ c.start := by
  unfold Cursor.start
  obtain ⟨-, hspan⟩ | ⟨l, ls, hrest, -, hspan⟩ := hc.span_cases
  · rw [hspan]
    exact hp
  · rw [hspan]
    exact h l (hrest ▸ List.mem_cons_self)

theorem last_le_start (hc : c.Placed text) : c.last ≤ c.start := hc.le_start hc.last.le hc.behind

/-- A row is continued behind the cursor. -/
theorem append (hd : d.Placed text) (h : Row text lo d.last os) (h' : Row text d.start hi os') :
    Row text lo hi (os ++ os') :=
  h.append (h'.mono hd.last_le_start (Nat.le_refl _))

/-- What is behind the cursor, without the row before. -/
theorem drop (hd : d.Placed text) (h : Row text lo d.last os) (h' : Row text d.start hi os') :
    Row text lo hi os' :=
  h'.mono (Nat.le_trans h.le hd.last_le_start) (Nat.le_refl _)

/-- Behind the token the cursor is placed, and no further back. -/
theorem advance_spec (hc : c.Placed text) : c.advance.Placed text ∧ c.last ≤ c.advance.last ∧
    c.start ≤ c.advance.start := by
  obtain ⟨rest, last, size⟩ := c
  cases rest with
  | nil => exact ⟨hc, Nat.le_refl _, Nat.le_refl _⟩
  | cons l ls =>
    obtain ⟨hl, hle, hnext, hrest⟩ := placed_cons_iff.1 hc
    have hspan : l.span = ⟨l.start, l.stop⟩ := hc.span_eq hl
    have hlast : IsBoundary text (if l.span.isEmpty then last else l.span.stop) ∧
        last ≤ (if l.span.isEmpty then last else l.span.stop) ∧
        (if l.span.isEmpty then last else l.span.stop) ≤ l.stop := by
      have := hl.le
      split
      · exact ⟨hrest.last, Nat.le_refl _, by omega⟩
      · rw [hspan]
        exact ⟨hl.stop, by dsimp only; omega, Nat.le_refl _⟩
    have hplaced : (Cursor.mk ls (if l.span.isEmpty then last else l.span.stop) size).Placed text :=
      { hrest with
        last := hlast.1
        behind := fun m hm => Nat.le_trans hlast.2.2 (hnext m hm) }
    refine ⟨hplaced, hlast.2.1, ?_⟩
    rw [hc.start_eq rfl]
    exact Nat.le_trans hl.le (hplaced.le_start hl.stop.le hnext)

theorem advance (hc : c.Placed text) : c.advance.Placed text := hc.advance_spec.1

theorem start_le_advance (hc : c.Placed text) : c.start ≤ c.advance.start := hc.advance_spec.2.2

theorem skip_spec (hc : c.Placed text) (n : Nat) :
    (c.skip n).Placed text ∧ c.last ≤ (c.skip n).last := by
  induction n generalizing c with
  | zero => exact ⟨hc, Nat.le_refl _⟩
  | succ n ih =>
    obtain ⟨hplaced, hle, -⟩ := hc.advance_spec
    exact ⟨(ih hplaced).1, Nat.le_trans hle (ih hplaced).2⟩

/-- The token at the cursor, which is no semicolon, ends where the one read last does
    behind it. -/
theorem token_spec (hc : c.Placed text) (h : c.token? = some t) (ht : t ≠ .punct .semi) :
    ∃ l ls, c.rest = l :: ls ∧ l.token = t ∧ Stands text l ∧ c.span = ⟨l.start, l.stop⟩ ∧
      c.advance.last = l.stop := by
  obtain ⟨rest, last, size⟩ := c
  cases rest with
  | nil => cases h
  | cons l ls =>
    obtain rfl : l.token = t := Option.some.inj h
    have hl := hc.tokens l List.mem_cons_self
    have hspan : l.span = ⟨l.start, l.stop⟩ := hc.span_eq hl
    refine ⟨l, ls, rfl, rfl, hl, hspan, ?_⟩
    have hempty : l.span.isEmpty = false := by
      have := hl.extent ht
      rw [hspan, Span.isEmpty, Span.length, beq_eq_false_iff_ne]
      dsimp only
      omega
    show (if l.span.isEmpty then last else l.span.stop) = l.stop
    rw [hempty, hspan]
    rfl

/-- A token that is no semicolon covers its stretch of the text. -/
theorem token_row (hc : c.Placed text) (h : c.token? = some t) (ht : t ≠ .punct .semi) :
    Row text c.start c.advance.last [.leaf c.span] := by
  obtain ⟨l, ls, -, -, hl, hspan, hlast⟩ := hc.token_spec h ht
  unfold Cursor.start
  rw [hlast, hspan]
  exact .singleton (Nat.le_refl _) (fits_leaf hl.start hl.stop hl.le) (Nat.le_refl _)

/-- A name covers its stretch of the text. -/
theorem ident_row (hc : c.Placed text) {s : String} (h : c.token? = some (.ident s)) :
    Row text c.start c.advance.last [Ident.outline ⟨s, c.span⟩] := by
  obtain ⟨l, ls, -, htoken, hl, hspan, hlast⟩ := hc.token_spec h (by simp)
  unfold Cursor.start
  rw [hlast, hspan]
  refine .singleton (Nat.le_refl _) (fits_node hl.start hl.stop ?_ hl.le) (Nat.le_refl _)
  rintro _ ⟨⟩
  exact hl.named s htoken

/-- A node from a position to the end of the last token read. -/
theorem node {start : Nat} (hd : d.Placed text) (hstart : IsBoundary text start)
    (h : Row text start d.last os) : Row text start d.last [.node (d.spanFrom start) none os] := by
  have hspan : d.spanFrom start = ⟨start, d.last⟩ := by
    rw [spanFrom, Nat.max_eq_left h.le,
      Span.ofOffsets_of_le (hd.boundary_le hstart) (hd.boundary_le hd.last)]
  rw [hspan]
  exact .singleton (Nat.le_refl _) (fits_node hstart hd.last nofun h) (Nat.le_refl _)

end Placed

end Cursor

/-! ## Where readers lead -/

namespace Outcome

variable {α β : Type} {c d : Cursor} {Q : α → Cursor → Prop} {R : β → Cursor → Prop} {lo : Nat}

/-- The cursor behind a value is placed in the text, and the two have `Q`. -/
def Leads (text : List Char) (Q : α → Cursor → Prop) (o : Outcome α c) : Prop :=
  ∀ a d m, o = .ok a d m → d.Placed text ∧ Q a d

/-- The outlines of a value stand between `lo` and the end of the last token read. -/
def Spans (text : List Char) (lo : Nat) (f : α → List Outline) (o : Outcome α c) : Prop :=
  o.Leads text fun a d => Row text lo d.last (f a)

namespace Leads

theorem ok {a : α} {m : d.left < c.left} (hd : d.Placed text) (h : Q a d) :
    (Outcome.ok a d m : Outcome α c).Leads text Q := by
  rintro _ _ _ ⟨⟩
  exact ⟨hd, h⟩

theorem error {f : Diagnostic} {k : d.left ≤ c.left} :
    (Outcome.error f d k : Outcome α c).Leads text Q := nofun

theorem lift {o : Outcome α d} {k : d.left ≤ c.left} (h : o.Leads text Q) :
    (o.lift k).Leads text Q := by
  cases o with
  | ok a e m => exact ok (h a e m rfl).1 (h a e m rfl).2
  | error f e k => exact error

theorem after {o : Outcome α d} {m : d.left < c.left} (h : o.Leads text Q) :
    (o.after m).Leads text Q :=
  h.lift

theorem andThen {o : Outcome α c} {f : (a : α) → (d : Cursor) → d.left < c.left → Outcome β c}
    (h : o.Leads text Q) (hf : ∀ a d m, d.Placed text → Q a d → (f a d m).Leads text R) :
    (o.andThen f).Leads text R := by
  cases o with
  | ok a d m => exact hf a d m (h a d m rfl).1 (h a d m rfl).2
  | error f e k => exact error

theorem bind {o : Outcome α c} {f : (a : α) → (d : Cursor) → d.left < c.left → Outcome β d}
    (h : o.Leads text Q) (hf : ∀ a d m, d.Placed text → Q a d → (f a d m).Leads text R) :
    (o.bind f).Leads text R :=
  h.andThen fun a d m hd ha => (hf a d m hd ha).after

theorem imp {o : Outcome α c} {Q' : α → Cursor → Prop} (h : o.Leads text Q)
    (hQ : ∀ a d, Q a d → Q' a d) : o.Leads text Q' := fun a d m ho =>
  ⟨(h a d m ho).1, hQ a d (h a d m ho).2⟩

theorem map {o : Outcome α c} {f : α → Cursor → β} (h : o.Leads text Q)
    (hf : ∀ a d, d.Placed text → Q a d → R (f a d) d) : (o.map f).Leads text R :=
  h.andThen fun a d _ hd ha => ok hd (hf a d hd ha)

end Leads

end Outcome

/-! ## Single tokens -/

namespace Cursor

open Outcome

variable {c : Cursor} {t : Token}

theorem fails_leads {α : Type} {Q : α → Cursor → Prop} (what : String) :
    (c.fails what : Outcome α c).Leads text Q := .error

theorem expect_spans (hc : c.Placed text) (t : Token) (ht : t ≠ .punct .semi) (what : String) :
    (c.expect t what).Spans text c.start fun span => [.leaf span] := by
  unfold expect
  split
  · next h => exact .ok hc.advance (hc.token_row h ht)
  · exact fails_leads what

/-- The outlines of a list stand in a row, with that of the bracket if it is one. -/
theorem ListLoop.spans {α β : Type} {S : ListShape α β} {item : (c : Cursor) → Outcome α c}
    {loop : (c : Cursor) → Outcome β c} {f : α → List Outline} {g : β → List Outline}
    (hloop : ListLoop S item loop) (hnil : ∀ s, g (S.nil s) = [] ∨ g (S.nil s) = [.leaf s])
    (hcons : ∀ a b, g (S.cons a b) = f a ++ g b) (c : Cursor) (hc : c.Placed text)
    (hitem : ∀ d : Cursor, d.left ≤ c.left → d.Placed text → (item d).Spans text d.start f) :
    (loop c).Spans text c.start g := by
  intro b d m h
  refine hloop.induct
    (Q := fun e b d => e.Placed text → d.Placed text ∧ Row text e.start d.last (g b)) c h
    (fun {e} ht he => ⟨he.advance, ?_⟩) (fun _ hmore he => ?_) (fun hle ha hmore he => ?_) hc
  · have hrow := he.token_row ht S.close_ne_semi
    rcases hnil e.span with h | h <;> rw [h]
    · exact .nil hrow.le
    · exact hrow
  · obtain ⟨hd, hrow⟩ := hmore he.advance
    exact ⟨hd, hrow.mono he.start_le_advance (Nat.le_refl _)⟩
  · obtain ⟨hf, hrow⟩ := hitem _ hle he _ _ _ ha
    obtain ⟨hd, hrest⟩ := hmore hf
    rw [hcons]
    exact ⟨hd, hf.append hrow hrest⟩

theorem ident_spans (hc : c.Placed text) (what : String) :
    (c.ident what).Spans text c.start fun i => [i.outline] := by
  unfold ident
  split
  · next s h => exact .ok hc.advance (hc.ident_row h)
  · exact fails_leads what

theorem names_spans {c : Cursor} (hc : c.Placed text) (what : String) :
    (c.names what).Spans text c.start fun is => is.map (·.outline) := by
  rw [names]
  refine (ident_spans hc what).andThen fun name d m hd hname => ?_
  split
  · next h =>
    have hcomma := hd.token_row h (by simp)
    refine (names_spans hd.advance what).lift.after.map fun more e _ hmore => ?_
    exact hd.append hname (hd.advance.drop hcomma hmore)
  · exact .ok hd hname
termination_by c.left
decreasing_by exact Nat.lt_of_le_of_lt d.advance_le m

theorem qualified_spans (hc : c.Placed text) : c.qualified.Spans text c.start
    fun p => (p.1.toList.map (·.outline)) ++ [p.2.outline] := by
  rw [qualified]
  refine (ident_spans hc _).andThen fun first d m hd hfirst => ?_
  split
  · next h =>
    have hdot := hd.token_row h (by simp)
    refine (ident_spans hd.advance _).lift.after.map fun name e _ hname => ?_
    exact hd.append hfirst (hd.advance.drop hdot hname)
  · exact .ok hd hfirst

/-- The tag at the cursor, if there is one. -/
theorem Placed.tag?_row (hc : c.Placed text) :
    c.tag?.2.Placed text ∧ Row text c.last c.tag?.2.last (markOutlines c.tag?.1) := by
  unfold tag?
  split
  · next h =>
    obtain ⟨t, htoken, hstring⟩ := (Option.any_eq_true _ _).1 h
    have hsemi : t ≠ .punct .semi := by
      rintro rfl
      cases hstring
    exact ⟨hc.advance, (hc.token_row htoken hsemi).mono hc.last_le_start (Nat.le_refl _)⟩
  · exact ⟨hc, Nat.le_refl _⟩

/-! ## Array lengths -/

/-- What is passed over ends before the cursor behind it. -/
theorem Placed.stop_le_start_skip (hc : c.Placed text) {n : Nat} {l : Lexeme}
    (hl : l ∈ c.rest.take n) : l.stop ≤ (c.skip n).start := by
  have hordered := hc.ordered
  rw [← List.take_append_drop n c.rest] at hordered
  refine (hc.skip_spec n).1.le_start (hc.tokens l (List.mem_of_mem_take hl)).stop.le fun m hm => ?_
  rw [skip_rest] at hm
  exact (List.pairwise_append.1 hordered).2.2 l hl m hm

theorem eq_singleton_of_lengthExpr {ts : List Token} {name : String}
    (h : lengthExpr ts = .ident name) : ts = [.ident name] := by
  unfold lengthExpr at h
  split at h
  · cases h
    rfl
  · cases h
  · split at h <;> cases h
  · cases h

/-- From the first of some tokens in order to the last. -/
theorem Placed.stretch_spec (hc : c.Placed text) {l : Lexeme} {ls : List Lexeme}
    (hls : ∀ m ∈ l :: ls, Stands text m) (hordered : (l :: ls).Pairwise (·.stop ≤ ·.start)) :
    ∃ m ∈ l :: ls, stretch (l :: ls) = ⟨l.start, m.stop⟩ ∧ l.start ≤ m.stop := by
  have hmem := List.getLast_mem (List.cons_ne_nil l ls)
  have hfirst := hls l List.mem_cons_self
  have hlast := hls _ hmem
  refine ⟨_, hmem,
    Span.ofOffsets_of_le (hc.boundary_le hfirst.start) (hc.boundary_le hlast.stop), ?_⟩
  rcases List.mem_cons.1 hmem with h | h
  · rw [h]
    exact hfirst.le
  · have hnext := (List.pairwise_cons.1 hordered).1 _ h
    exact Nat.le_trans hfirst.le (Nat.le_trans hnext hlast.le)

/-- The outline of an array length that some tokens form: a name covers its own
    text. -/
theorem Placed.length_row (hc : c.Placed text) {l : Lexeme} {ls : List Lexeme} {hi : Nat}
    (hls : ∀ m ∈ l :: ls, Stands text m ∧ m.stop ≤ hi)
    (hordered : (l :: ls).Pairwise (·.stop ≤ ·.start)) :
    Row text l.start hi
      [ArrayLength.outline (.expr (stretch (l :: ls)) (lengthExpr ((l :: ls).map (·.token))))] := by
  obtain ⟨m, hm, hstretch, hle⟩ := hc.stretch_spec (fun m hm => (hls m hm).1) hordered
  have hstart := (hls l List.mem_cons_self).1.start
  obtain ⟨⟨-, hstop, -⟩, hhi⟩ := hls m hm
  rw [hstretch]
  cases hexpr : lengthExpr ((l :: ls).map (·.token)) with
  | ident name =>
    obtain ⟨htoken, hnil⟩ := List.cons.inj (eq_singleton_of_lengthExpr hexpr)
    obtain rfl := List.map_eq_nil_iff.1 hnil
    obtain rfl := List.mem_singleton.1 hm
    refine .singleton (Nat.le_refl _) (fits_node hstart hstop ?_ hle) hhi
    rintro _ ⟨⟩
    exact (hls m hm).1.named name htoken
  | literal kind => exact .singleton (Nat.le_refl _) (fits_leaf hstart hstop hle) hhi
  | selector pkg name => exact .singleton (Nat.le_refl _) (fits_leaf hstart hstop hle) hhi
  | other => exact .singleton (Nat.le_refl _) (fits_leaf hstart hstop hle) hhi

theorem arrayLength_leads (hc : c.Placed text) :
    c.arrayLength.Leads text fun length d => Row text c.start d.start [length.outline] := by
  unfold arrayLength
  split
  · exact .error
  · next n _ =>
    split
    · exact fails_leads _
    · next h =>
      refine .ok (hc.skip_spec n).1 ?_
      cases htake : c.rest.take n with
      | nil =>
        rw [List.take_eq_nil_iff, ← List.length_eq_zero_iff] at htake
        exact absurd htake h
      | cons l ls =>
        have htaken : ∀ m ∈ l :: ls, m ∈ c.rest.take n := fun m hm => htake ▸ hm
        obtain ⟨ms, hrest⟩ : ∃ ms, c.rest = l :: ms :=
          ⟨_, ((List.take_append_drop n c.rest).symm.trans (by rw [htake]; rfl))⟩
        rw [hc.start_eq hrest]
        refine hc.length_row (fun m hm => ⟨?_, hc.stop_le_start_skip (htaken m hm)⟩) ?_
        · exact hc.tokens m (List.mem_of_mem_take (htaken m hm))
        · exact htake ▸ hc.ordered.sublist (List.take_sublist n _)

end Cursor

/-! ## Lists of parameters -/

/-- The outline of an entry of a list of parameters. -/
def Param.outline : Param → Outline
  | .bare name => name.outline
  | .typed span name ellipsis type =>
    .node span none (name.toList.map (·.outline) ++ (markOutlines ellipsis ++ [type.outline]))

namespace Param

variable {ps : List Param} {fields : List Field} {lo hi : Nat}

theorem row_toAnonymous (hbare : ps.any isNamed = false) (h : Row text lo hi (ps.map outline)) :
    Row text lo hi (fieldOutlines (ps.map toAnonymous)) := by
  induction ps generalizing lo with
  | nil => exact h
  | cons p ps ih =>
    obtain ⟨hlo, hp, hps⟩ := h
    rw [List.any_cons, Bool.or_eq_false_iff] at hbare
    cases p with
    | bare name => exact ⟨hlo, hp.around.around, ih hbare.2 hps⟩
    | typed span name ellipsis type =>
      cases name with
      | none => exact ⟨hlo, hp, ih hbare.2 hps⟩
      | some name => cases hbare.1

/-- Bare names go into the field of the type behind them. -/
theorem row_toNamed {pending : List Ident} (hfields : toNamed pending ps = .ok fields)
    (h : Row text lo hi (pending.map (·.outline) ++ ps.map outline)) :
    Row text lo hi (fieldOutlines fields) := by
  induction ps generalizing lo pending fields with
  | nil =>
    rw [toNamed] at hfields
    split at hfields
    · cases hfields
      exact h.le
    · cases hfields
  | cons p ps ih =>
    cases p with
    | bare name =>
      refine ih hfields ?_
      rw [List.map_append, List.append_assoc]
      exact h
    | typed span name ellipsis type =>
      rw [toNamed] at hfields
      cases hmore : toNamed [] ps with
      | error e =>
        rw [hmore] at hfields
        cases hfields
      | ok more =>
        rw [hmore] at hfields
        cases hfields
        have hstart : ((pending.map (·.outline)).head?.map (·.span.start)).getD span.start =
            (pending.head?.map (·.span.start)).getD span.start := by cases pending <;> rfl
        have hfield := h.absorb
        rw [hstart, ← List.append_assoc, ← List.map_append] at hfield
        exact ⟨hfield.1, hfield.2.1, ih hmore hfield.2.2⟩

theorem row_toFields (hfields : toFields ps = .ok fields) (h : Row text lo hi (ps.map outline)) :
    Row text lo hi (fieldOutlines fields) := by
  unfold toFields at hfields
  split at hfields
  · exact row_toNamed hfields h
  · next hbare =>
    cases hfields
    exact row_toAnonymous (Bool.eq_false_iff.2 hbare) h

end Param

end GoDecls.Tree
