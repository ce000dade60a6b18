/-
  Where the diagnostics of the reader stand.

  * `c.Reaches d`: the cursor `d` is `c`, or further on among the same tokens;
  * `c.Passes d s`: the span `s` is that of a place from `c` up to `d`;
  * `Outcome.Points P o`: a value that comes of `o` has `P`, and a diagnostic is a
    syntactic one at a place that was passed.  There is one rule for each way of
    putting readers together;
  * the readers of types are followed in their own module; here are those of single
    tokens and the fields of a list, whose diagnostic stands further back.
-/
import GoDecls.Proofs.Tree.Loops
import GoDecls.Proofs.Tree.Reading
import GoDecls.Tree.Types

namespace GoDecls.Tree

/-! ## Places among tokens -/

namespace Cursor

variable {c d e : Cursor} {s : Span}

/-- The second cursor is the first or further on. -/
structure Reaches (c d : Cursor) : Prop where
  rest : d.rest <:+ c.rest
  size : d.size = c.size

theorem Reaches.refl (c : Cursor) : c.Reaches c := ⟨List.suffix_refl _, rfl⟩

theorem Reaches.trans (h : c.Reaches d) (h' : d.Reaches e) : c.Reaches e :=
  ⟨h'.rest.trans h.rest, h'.size.trans h.size⟩

theorem reaches_advance (c : Cursor) : c.Reaches c.advance := by
  refine ⟨?_, ?_⟩
  · rw [advance_rest]
    exact List.tail_suffix _
  · unfold advance
    split <;> rfl

theorem reaches_skip (c : Cursor) (n : Nat) : c.Reaches (c.skip n) := by
  induction n generalizing c with
  | zero => exact .refl c
  | succ n ih => exact c.reaches_advance.trans (ih c.advance)

theorem reaches_tag? (c : Cursor) : c.Reaches c.tag?.2 := by
  unfold tag?
  split
  · exact c.reaches_advance
  · exact .refl c

/-- The span is that of a place from `c` up to `d`. -/
def Passes (c d : Cursor) (s : Span) : Prop := ∃ p : Cursor, c.Reaches p ∧ p.Reaches d ∧ s = p.span

theorem Reaches.passes (h : c.Reaches d) : c.Passes d c.span := ⟨c, .refl c, h, rfl⟩

theorem Passes.before (h : d.Passes e s) (hc : c.Reaches d) : c.Passes e s := by
  obtain ⟨p, hp, he, rfl⟩ := h
  exact ⟨p, hc.trans hp, he, rfl⟩

theorem Passes.behind (h : c.Passes d s) (he : d.Reaches e) : c.Passes e s := by
  obtain ⟨p, hp, hd, rfl⟩ := h
  exact ⟨p, hp, hd.trans he, rfl⟩

end Cursor

/-! ## Outcomes -/

/-- The diagnostic is a syntactic one. -/
def Syntactic (f : Diagnostic) : Prop := ∃ g, f.fault = .parse g

namespace Outcome

open Cursor

variable {α β : Type} {c d : Cursor} {P : α → Cursor → Prop} {Q : β → Cursor → Prop}

/-- A value that comes of it has `P`, and a diagnostic stands at a place that was
    passed. -/
def Points (P : α → Cursor → Prop) : Outcome α c → Prop
  | .ok a d _ => c.Reaches d ∧ P a d
  | .error f d _ => c.Reaches d ∧ c.Passes d f.span ∧ Syntactic f

namespace Points

theorem ok {a : α} {m : d.left < c.left} (hd : c.Reaches d) (ha : P a d) :
    (Outcome.ok a d m : Outcome α c).Points P := ⟨hd, ha⟩

theorem lift {o : Outcome α d} {k : d.left ≤ c.left} (h : o.Points P) (hc : c.Reaches d) :
    (o.lift k).Points P := by
  cases o with
  | ok a e m => exact ⟨hc.trans h.1, h.2⟩
  | error f e k => exact ⟨hc.trans h.1, h.2.1.before hc, h.2.2⟩

theorem after {o : Outcome α d} {m : d.left < c.left} (h : o.Points P) (hc : c.Reaches d) :
    (o.after m).Points P :=
  h.lift hc

theorem andThen {o : Outcome α c} {f : (a : α) → (d : Cursor) → d.left < c.left → Outcome β c}
    (h : o.Points P) (hf : ∀ a d m, c.Reaches d → P a d → (f a d m).Points Q) :
    (o.andThen f).Points Q := by
  cases o with
  | ok a d m => exact hf a d m h.1 h.2
  | error f e k => exact h

theorem bind {o : Outcome α c} {f : (a : α) → (d : Cursor) → d.left < c.left → Outcome β d}
    (h : o.Points P) (hf : ∀ a d m, c.Reaches d → P a d → (f a d m).Points Q) :
    (o.bind f).Points Q :=
  h.andThen fun a d m hd ha => (hf a d m hd ha).after hd

theorem map {o : Outcome α c} {f : α → Cursor → β} (h : o.Points P)
    (hf : ∀ a d, c.Reaches d → P a d → Q (f a d) d) : (o.map f).Points Q :=
  h.andThen fun a d _ hd ha => ok hd (hf a d hd ha)

end Points

/-- Whatever the value is, a diagnostic stands at a place that was passed. -/
def Traced (o : Outcome α c) : Prop := o.Points fun _ _ => True

theorem Traced.map {o : Outcome α c} {f : α → Cursor → β} (h : o.Traced) : (o.map f).Traced :=
  Points.map h fun _ _ _ _ => trivial

end Outcome

/-! ## Single tokens -/

namespace Cursor

open Outcome

variable {c d : Cursor} {α : Type}

theorem fails_points {P : α → Cursor → Prop} (what : String) :
    (c.fails what : Outcome α c).Points P :=
  ⟨.refl c, (Reaches.refl c).passes, _, rfl⟩

theorem expect_points (t : Token) (what : String) :
    (c.expect t what).Points fun _ _ => True := by
  unfold expect
  split
  · exact .ok c.reaches_advance trivial
  · exact fails_points what

theorem ident_points (what : String) : (c.ident what).Points fun i d => c.Passes d i.span := by
  unfold ident
  split
  · exact .ok c.reaches_advance c.reaches_advance.passes
  · exact fails_points what

theorem names_traced (c : Cursor) (what : String) : (c.names what).Traced := by
  rw [names]
  refine (ident_points what).andThen fun name d m hd _ => ?_
  split
  · exact Traced.map (((names_traced d.advance what).lift d.reaches_advance).after hd)
  · exact .ok hd trivial
termination_by c.left
decreasing_by exact Nat.lt_of_le_of_lt d.advance_le m

theorem qualified_traced : c.qualified.Traced := by
  unfold qualified
  refine (ident_points _).andThen fun first d m hd _ => ?_
  split
  · exact ((ident_points _).lift d.reaches_advance).after hd |>.map fun _ _ _ _ => trivial
  · exact .ok hd trivial

theorem arrayLength_traced : c.arrayLength.Traced := by
  unfold arrayLength
  split
  · exact ⟨c.reaches_skip _, (Reaches.refl _).passes.before (c.reaches_skip _), _, rfl⟩
  · split
    · exact fails_points _
    · exact .ok (c.reaches_skip _) trivial

/-- A diagnostic in a list stands at a place that was passed, if one in an item does. -/
theorem ListLoop.traced {β : Type} {S : ListShape α β} {item : (c : Cursor) → Outcome α c}
    {loop : (c : Cursor) → Outcome β c} (hloop : ListLoop S item loop) (c : Cursor)
    (hitem : ∀ d : Cursor, d.left ≤ c.left → (item d).Traced) : (loop c).Traced := by
  have hrest {d : Cursor} (hlt : d.left < c.left) : (loop d).Traced :=
    hloop.traced d fun e hle => hitem e (Nat.le_trans hle (Nat.le_of_lt hlt))
  have hbind : ((item c).bind fun x d _ => d.behind S loop x).Traced := by
    refine (hitem c (Nat.le_refl _)).bind fun x d m _ _ => ?_
    unfold behind
    split
    · exact .ok d.reaches_advance trivial
    split
    · next ht => exact Traced.map ((hrest (Nat.lt_trans (advance_lt ht) m)).lift d.reaches_advance)
    · exact fails_points _
  cases ht : c.token? with
  | none =>
    obtain ⟨what, -, h⟩ | ⟨-, h⟩ := hloop.at_end ht <;> rw [h]
    · exact fails_points what
    · exact hbind
  | some t =>
    by_cases hclose : t = .punct S.close
    · subst hclose
      rw [hloop.at_close ht]
      exact .ok c.reaches_advance trivial
    by_cases hsemi : S.sep = .semi ∧ t = .punct S.sep
    · obtain ⟨hsep, rfl⟩ := hsemi
      rw [hloop.at_semi hsep ht]
      exact (hrest (advance_lt ht)).lift c.reaches_advance
    · rw [hloop.at_item ht hclose (not_and.1 hsemi)]
      exact hbind
termination_by c.left

end Cursor

/-! ## Lists of parameters -/

namespace Param

/-- The span of a bare name. -/
def bareSpan? : Param → Option Span
  | .bare name => some name.span
  | .typed .. => none

/-- The spans of the bare names. -/
def bareSpans (ps : List Param) : List Span := ps.filterMap bareSpan?

theorem bareSpans_cons (p : Param) (ps : List Param) :
    bareSpans (p :: ps) = bareSpans [p] ++ bareSpans ps := by
  rw [bareSpans, bareSpans, bareSpans, ← List.filterMap_append, List.singleton_append]

/-- A mixed list is refused at one of its bare names. -/
theorem mem_of_toNamed_error {ps : List Param} {pending : List Ident} {f : Diagnostic}
    (h : toNamed pending ps = .error f) :
    (f.span ∈ pending.map (·.span) ∨ f.span ∈ bareSpans ps) ∧ Syntactic f := by
  induction ps generalizing pending with
  | nil =>
    rw [toNamed] at h
    split at h
    · cases h
    · next name hname =>
      cases h
      exact ⟨.inl (List.mem_map_of_mem (List.mem_of_getLast? hname)), _, rfl⟩
  | cons p ps ih =>
    cases p with
    | bare name =>
      rw [toNamed] at h
      obtain ⟨hmem, hfault⟩ := ih h
      refine ⟨?_, hfault⟩
      rw [List.map_append, List.mem_append, or_assoc] at hmem
      rw [bareSpans_cons, List.mem_append]
      exact hmem
    | typed span name ellipsis type =>
      rw [toNamed] at h
      cases hmore : toNamed [] ps with
      | ok fields =>
        simp only [hmore] at h
        cases h
      | error g =>
        simp only [hmore] at h
        cases h
        obtain ⟨hmem, hfault⟩ := ih hmore
        rw [bareSpans_cons, List.mem_append]
        exact ⟨.inr (.inr (hmem.resolve_left (List.not_mem_nil))), hfault⟩

theorem mem_of_toFields_error {ps : List Param} {f : Diagnostic} (h : toFields ps = .error f) :
    f.span ∈ bareSpans ps ∧ Syntactic f := by
  unfold toFields at h
  split at h
  · simpa using mem_of_toNamed_error h
  · cases h

end Param

end GoDecls.Tree
