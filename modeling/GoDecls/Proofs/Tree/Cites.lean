/-
  The names in what is read are names of the tokens, in the same order.

  * `identsOf ls`: the names that stand in tokens;
  * `Outcome.Cites pre f o`: let the names `pre` be cited before.  Of a value `a` that
    comes of `o` the names `f a` are cited, in the order in which they stand in the
    tokens.  There is one rule for each way of putting readers together;
  * `Cursor.ident_cites`, `Cursor.names_pass`, …: the rules for single tokens.
-/
import GoDecls.Proofs.Tree.Loops
import GoDecls.Proofs.Tree.TypeNames

namespace GoDecls

/-- The name that a token is, and where it stands. -/
def Lexeme.ident? (l : Lexeme) : Option Tree.Ident :=
  match l.token with
  | .ident s => some ⟨s, l.span⟩
  | _ => none

end GoDecls

namespace GoDecls.Tree

open scoped List

/-- The names that stand in the tokens, in order. -/
def identsOf (ls : List Lexeme) : List Ident := ls.filterMap Lexeme.ident?

theorem identsOf_sublist {ls ms : List Lexeme} (h : ls <:+ ms) : identsOf ls <+ identsOf ms :=
  h.sublist.filterMap _

namespace Outcome

variable {α β : Type} {c d : Cursor} {pre qre : List Ident} {f : α → List Ident}
  {g : β → List Ident}

/-- The names of a value that comes of it, and the names in front of the cursor behind it,
    are names of `pre` and of the tokens, in this order. -/
def Cites (pre : List Ident) (f : α → List Ident) (o : Outcome α c) : Prop :=
  ∀ a d m, o = .ok a d m → f a ++ identsOf d.rest <+ pre ++ identsOf c.rest

namespace Cites

theorem ok {a : α} {m : d.left < c.left}
    (h : f a ++ identsOf d.rest <+ pre ++ identsOf c.rest) :
    (Outcome.ok a d m : Outcome α c).Cites pre f := by
  rintro _ _ _ ⟨⟩
  exact h

theorem error {fault : Diagnostic} {k : d.left ≤ c.left} :
    (Outcome.error fault d k : Outcome α c).Cites pre f := nofun

/-- What is read from further on, when other names have been cited up to there. -/
theorem liftFrom {o : Outcome α d} {k : d.left ≤ c.left} (h : o.Cites qre f)
    (hd : qre ++ identsOf d.rest <+ pre ++ identsOf c.rest) : (o.lift k).Cites pre f := by
  cases o with
  | ok a e m => exact ok ((h a e m rfl).trans hd)
  | error fault e k => exact error

theorem lift {o : Outcome α d} {k : d.left ≤ c.left} (h : o.Cites pre f)
    (hd : d.rest <:+ c.rest) : (o.lift k).Cites pre f :=
  h.liftFrom ((List.Sublist.refl _).append (identsOf_sublist hd))

theorem andThen {o : Outcome α c} {k : (a : α) → (d : Cursor) → d.left < c.left → Outcome β c}
    (h : o.Cites pre f)
    (hk : ∀ a d m, f a ++ identsOf d.rest <+ pre ++ identsOf c.rest → (k a d m).Cites pre g) :
    (o.andThen k).Cites pre g := by
  cases o with
  | ok a d m => exact hk a d m (h a d m rfl)
  | error fault e k => exact error

theorem bind {o : Outcome α c} {k : (a : α) → (d : Cursor) → d.left < c.left → Outcome β d}
    (h : o.Cites pre f) (hk : ∀ a d m, (k a d m).Cites (f a) g) : (o.bind k).Cites pre g :=
  h.andThen fun a d m hd => (hk a d m).liftFrom hd

theorem map {o : Outcome α c} {k : α → Cursor → β} (h : o.Cites pre f)
    (hk : ∀ a d, g (k a d) <+ f a) : (o.map k).Cites pre g :=
  h.andThen fun a d _ hd => ok (((hk a d).append (.refl _)).trans hd)

/-- Names that are cited before stay in front. -/
theorem behind {o : Outcome α c} (h : o.Cites [] f) (pre : List Ident) :
    o.Cites pre fun a => pre ++ f a := by
  intro a d m ho
  rw [List.append_assoc]
  exact (List.Sublist.refl _).append (h a d m ho)

/-- Fewer names are cited as well. -/
theorem less {f' : α → List Ident} {o : Outcome α c} (h : o.Cites pre f)
    (hf : ∀ a, f' a <+ f a) : o.Cites pre f' := fun a d m ho =>
  ((hf a).append (.refl _)).trans (h a d m ho)

end Cites

end Outcome

/-! ## Single tokens -/

namespace Cursor

open Outcome

variable {c : Cursor} {pre : List Ident}

theorem advance_suffix (c : Cursor) : c.advance.rest <:+ c.rest := suffix_advance (List.suffix_refl _)

theorem fails_cites {α : Type} {f : α → List Ident} (what : String) :
    (c.fails what : Outcome α c).Cites pre f := .error

/-- A token that is passed over cites no name. -/
theorem pass_cites {α : Type} {f : α → List Ident} {a : α} {d : Cursor} {m : d.left < c.left}
    (hd : d.rest <:+ c.rest) (ha : f a <+ pre) :
    (Outcome.ok a d m : Outcome α c).Cites pre f :=
  .ok (ha.append (identsOf_sublist hd))

theorem expect_cites (pre : List Ident) (t : Token) (what : String) :
    (c.expect t what).Cites pre fun _ => pre := by
  unfold expect
  split
  · exact pass_cites c.advance_suffix (.refl _)
  · exact fails_cites what

/-- The names of a list are those of its items. -/
theorem ListLoop.cites {α β : Type} {S : ListShape α β} {item : (c : Cursor) → Outcome α c}
    {loop : (c : Cursor) → Outcome β c} {f : α → List Ident} (hloop : ListLoop S item loop)
    (c : Cursor) (hitem : ∀ d : Cursor, d.left ≤ c.left → (item d).Cites [] f) :
    (loop c).Cites [] fun b => (S.items b).flatMap f := by
  intro b d m h
  refine hloop.induct
    (Q := fun e b d => (S.items b).flatMap f ++ identsOf d.rest <+ identsOf e.rest) c h
    (fun {e} _ => ?_) (fun {e _ _} _ hmore => hmore.trans (identsOf_sublist e.advance_suffix))
    fun hle ha hmore => ?_
  · rw [S.items_nil]
    exact identsOf_sublist e.advance_suffix
  · rw [S.items_cons, List.flatMap_cons, List.append_assoc]
    exact (hmore.append_left _).trans (hitem _ hle _ _ _ ha)

theorem identsOf_rest {s : String} (h : c.token? = some (.ident s)) :
    identsOf c.rest = ⟨s, c.span⟩ :: identsOf c.advance.rest := by
  unfold token? at h
  cases hrest : c.rest with
  | nil =>
    rw [hrest] at h
    cases h
  | cons l ls =>
    rw [hrest] at h
    have htoken : l.token = .ident s := Option.some.inj h
    have hl : l.ident? = some ⟨s, c.span⟩ := by
      rw [Lexeme.ident?, htoken, span, hrest]
    rw [identsOf, List.filterMap_cons_some hl, advance_rest, hrest]
    rfl

theorem ident_cites (what : String) : (c.ident what).Cites [] fun i => [i] := by
  unfold ident
  split
  · next h =>
    refine .ok ?_
    rw [List.nil_append, identsOf_rest h]
    exact .refl _
  · exact fails_cites what

/-- A name that is passed over. -/
theorem ident_passes (pre : List Ident) (what : String) :
    (c.ident what).Cites pre fun _ => pre :=
  ((ident_cites what).behind pre).less fun _ => List.sublist_append_left pre _

theorem names_pass (c : Cursor) (pre : List Ident) (what : String) :
    (c.names what).Cites pre fun _ => pre := by
  rw [names]
  refine (ident_passes pre what).andThen fun name d m hd => ?_
  split
  · have hmore := (names_pass d.advance pre what).lift (k := d.advance_le) d.advance_suffix
    exact (hmore.liftFrom hd).map fun _ _ => .refl _
  · exact .ok hd
termination_by c.left
decreasing_by exact Nat.lt_of_le_of_lt d.advance_le m

theorem qualified_cites : c.qualified.Cites [] fun p => p.1.toList ++ [p.2] := by
  rw [qualified]
  refine (ident_cites _).andThen fun first d m hd => ?_
  split
  · have hname := ((ident_cites (c := d.advance) "type name").behind [first]).lift
      (k := d.advance_le) d.advance_suffix
    exact (hname.liftFrom hd).map fun _ _ => .refl _
  · exact .ok hd

theorem arrayLength_passes (pre : List Ident) : c.arrayLength.Cites pre fun _ => pre := by
  unfold arrayLength
  split
  · exact .error
  · split
    · exact fails_cites _
    · exact pass_cites (suffix_skip (List.suffix_refl _) _) (.refl _)

/-! ## Lists of parameters -/

end Cursor

/-- The names in the types of fields. -/
def fieldIdents (fs : List Field) : List Ident := fs.flatMap (·.type.idents)

theorem Param.idents_toNamed :
    ∀ {ps : List Param} {pending : List Ident} {fs : List Field},
    Param.toNamed pending ps = .ok fs →
      fieldIdents fs <+ ps.flatMap (·.toAnonymous.type.idents)
  | [], pending, fs, h => by
    rw [toNamed] at h
    split at h <;> cases h
    exact .slnil
  | .bare name :: ps, pending, fs, h => by
    rw [toNamed] at h
    rw [List.flatMap_cons]
    exact (idents_toNamed h).trans (List.sublist_append_right _ _)
  | .typed _ _ _ type :: ps, pending, fs, h => by
    rw [toNamed] at h
    cases hmore : toNamed [] ps with
    | error e =>
      rw [hmore] at h
      cases h
    | ok more =>
      rw [hmore] at h
      cases h
      exact (List.Sublist.refl _).append (idents_toNamed hmore)

/-- The fields of a list have the names of its entries, but for those that become names of
    fields. -/
theorem Param.idents_toFields {ps : List Param} {fs : List Field}
    (h : Param.toFields ps = .ok fs) : fieldIdents fs <+ ps.flatMap (·.toAnonymous.type.idents) := by
  unfold toFields at h
  split at h
  · exact idents_toNamed h
  · cases h
    rw [fieldIdents, List.flatMap_map]

/-! ## Names of types -/

theorem TypeExpr.idents_of_parts {T : TypeExpr} {Ts : List TypeExpr} (hname : T.qualifiedName? = none)
    (hparts : T.parts = Ts) : T.idents = Ts.flatMap (·.idents) := by
  rw [idents_eq, hname, hparts]
  rfl

/-- A type around another has the names of that. -/
theorem TypeExpr.idents_of_elem {T elem : TypeExpr} (hname : T.qualifiedName? = none)
    (hparts : T.parts = [elem]) : T.idents = elem.idents := by
  rw [idents_of_parts hname hparts, List.flatMap_singleton]

theorem TypeExpr.idents_named {span : Span} {pkg : Option Ident} {name : Ident}
    {args : List TypeExpr} : (TypeExpr.named span pkg name args).idents =
      (pkg.toList ++ [name]) ++ args.flatMap (·.idents) := by
  rw [idents_eq]
  exact congrArg (· ++ _) (List.append_nil _)

end GoDecls.Tree
