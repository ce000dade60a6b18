/-
  The entries of which a list of parameters or results is written.

  A field with the names `a, b` and type `T` is written as a bare name `a` and an
  entry `b T`; a field without names is one entry.  `Field.entries` are those of
  a field, and they give the fields back (`toFields_entries`), whatever the
  places are (`toFields_congr`).
-/
import GoDecls.Proofs.Tree.Canonical

namespace GoDecls.Tree

/-! ## Lists with separators -/

theorem listed_cons (sep : Punct) (closing : Bool) (x : List Token) (xs : List (List Token)) :
    listed sep closing (x :: xs) =
      x ++ if xs = [] ∧ closing = false then [] else .punct sep :: listed sep closing xs := by
  cases xs with
  | nil => cases closing <;> simp [listed]
  | cons y ys => simp [listed]

theorem listed_append (sep : Punct) (closing : Bool) (ys : List (List Token)) :
    ∀ {xs : List (List Token)}, xs ≠ [] →
      listed sep closing (xs ++ ys) = listed sep false xs ++
        if ys = [] ∧ closing = false then [] else .punct sep :: listed sep closing ys
  | [], h => absurd rfl h
  | [x], _ => listed_cons sep closing x ys
  | x :: x' :: xs, _ => by
    have ih := listed_append sep closing ys (List.cons_ne_nil x' xs)
    rw [List.cons_append, List.cons_append, listed, ← List.cons_append, ih, listed,
      List.append_assoc, List.cons_append]

/-- Lists in a list may be written out in place. -/
theorem listed_flatMap {α : Type} (sep : Punct) (closing : Bool) {f : α → List (List Token)} :
    ∀ {xs : List α}, (∀ x ∈ xs, f x ≠ []) →
      listed sep closing (xs.flatMap f) =
        listed sep closing (xs.map fun x => listed sep false (f x))
  | [], _ => rfl
  | x :: xs, h => by
    have hne : xs.flatMap f = [] ↔ (xs.map fun x => listed sep false (f x)) = [] := by
      cases xs with
      | nil => simp
      | cons y ys => simp [h y]
    rw [List.flatMap_cons, List.map_cons, listed_append _ _ _ (h x List.mem_cons_self), listed_cons,
      listed_flatMap sep closing fun y hy => h y (List.mem_cons_of_mem x hy)]
    simp only [hne]

/-! ## Entries -/

/-- The entry without places. -/
def Param.unplaced : Param → Param
  | .bare name => .bare name.unplaced
  | .typed _ name ellipsis type =>
    .typed .zero (name.map (·.unplaced)) (unplacedMark ellipsis) type.unplaced

/-- The tokens of an entry. -/
def Param.render (m : Manner) : Param → List Token
  | .bare name => [name.token]
  | .typed _ none ellipsis type => renderMark .ellipsis ellipsis ++ type.render m
  | .typed _ (some name) ellipsis type =>
    name.token :: (renderMark .ellipsis ellipsis ++ type.render m)

/-- The name that the type consists of, if it is nothing but a name. -/
def TypeExpr.plainName? : TypeExpr → Option Ident
  | .named _ none name [] => some name
  | _ => none

/-- The entries of a field with these names, the last of which stands before the
    type. -/
def namedEntries (span : Span) (ellipsis : Option Span) (type : TypeExpr) : List Ident → List Param
  | [] => []
  | [i] => [.typed span (some i) ellipsis type]
  | i :: j :: is => .bare i :: namedEntries span ellipsis type (j :: is)

/-- The entry of a field without names: a type that is a name is written as a
    bare one. -/
def anonymousEntry (span : Span) (ellipsis : Option Span) (type : TypeExpr) : Param :=
  match ellipsis, type.plainName? with
  | none, some name => .bare name
  | e, _ => .typed span none e type

/-- The entries that a field of a list is written as. -/
def Field.entries (f : Field) : List Param :=
  match f.names with
  | [] => [anonymousEntry f.span f.ellipsis f.type]
  | i :: is => namedEntries f.span f.ellipsis f.type (i :: is)

theorem TypeExpr.eq_named_of_plainName? {T : TypeExpr} {i : Ident} (h : T.plainName? = some i) :
    ∃ span, T = .named span none i [] := by
  unfold plainName? at h
  split at h
  · cases h
    exact ⟨_, rfl⟩
  · cases h

theorem Field.entries_ne_nil (f : Field) : f.entries ≠ [] := by
  obtain ⟨_, names, _, _, _, _⟩ := f
  match names with
  | [] => exact List.cons_ne_nil _ _
  | [i] => exact List.cons_ne_nil _ _
  | i :: j :: is => exact List.cons_ne_nil _ _

theorem listed_namedEntries (m : Manner) (span : Span) (ellipsis : Option Span) (type : TypeExpr) :
    ∀ {names : List Ident}, names ≠ [] →
      listed .comma false ((namedEntries span ellipsis type names).map (·.render m)) =
        renderNames names ++ (renderMark .ellipsis ellipsis ++ type.render m)
  | [], h => absurd rfl h
  | [i], _ => rfl
  | i :: j :: is, _ => by
    rw [namedEntries, List.map_cons, listed_cons,
      listed_namedEntries m span ellipsis type (List.cons_ne_nil j is), renderNames_cons_cons,
      if_neg]
    · rfl
    · cases is <;> simp [namedEntries]

/-- A field of a list is written as its entries. -/
theorem Field.listed_entries (m : Manner) {f : Field} (hf : f.InParams) :
    listed .comma false (f.entries.map (·.render m)) = f.render m := by
  obtain ⟨span, names, ellipsis, type, tag, embedded⟩ := f
  obtain rfl : tag = none := hf.tag_eq
  rw [Field.render, renderTag, List.append_nil]
  cases names with
  | nil =>
    show (anonymousEntry span ellipsis type).render m = _
    unfold anonymousEntry
    split
    · next hname =>
      obtain ⟨_, rfl⟩ := TypeExpr.eq_named_of_plainName? hname
      rfl
    · rfl
  | cons i is => exact listed_namedEntries m span ellipsis type (List.cons_ne_nil i is)

/-- A list of fields is written as all their entries. -/
theorem listed_render_fields (m : Manner) (closing : Bool) {fields : List Field}
    (h : ∀ f ∈ fields, f.InParams) :
    listed .comma closing (fields.map (·.render m)) =
      listed .comma closing ((fields.flatMap Field.entries).map (·.render m)) := by
  rw [List.map_flatMap, listed_flatMap _ _ fun f _ => by simp [f.entries_ne_nil]]
  congr 1
  exact List.map_congr_left fun f hf => (f.listed_entries m (h f hf)).symm

/-! ## Fields from entries -/

namespace Param

/-- The list of fields is there, and is `gs` but for places. -/
def FieldsAre (a : Except Diagnostic (List Field)) (gs : List Field) : Prop :=
  ∃ fs, a = .ok fs ∧ fs.map (·.unplaced) = gs.map (·.unplaced)

theorem isNamed_unplaced (p : Param) : p.unplaced.isNamed = p.isNamed := by
  cases p with
  | bare _ => rfl
  | typed _ name _ _ => cases name <;> rfl

theorem any_isNamed_congr {ps qs : List Param} (h : ps.map unplaced = qs.map unplaced) :
    ps.any isNamed = qs.any isNamed := by
  have hany : ∀ l : List Param, (l.map unplaced).any isNamed = l.any isNamed := fun l => by
    rw [List.any_map]
    congr 1
    exact funext isNamed_unplaced
  rw [← hany ps, h, hany qs]

theorem toAnonymous_congr {p q : Param} (h : p.unplaced = q.unplaced) :
    p.toAnonymous.unplaced = q.toAnonymous.unplaced := by
  cases p with
  | bare name =>
    cases q with
    | bare name' =>
      have hname : name.unplaced = name'.unplaced := Param.bare.inj h
      simp [toAnonymous, anonymous, Field.unplaced, TypeExpr.unplaced, unplacedMark, hname]
    | typed _ _ _ _ => cases h
  | typed span name ellipsis type =>
    cases q with
    | bare _ => cases h
    | typed span' name' ellipsis' type' =>
      obtain ⟨-, -, he, ht⟩ := Param.typed.inj h
      simp [toAnonymous, anonymous, Field.unplaced, he, ht]

/-- The fields of a list with names depend on no place. -/
theorem toNamed_congr : ∀ {ps qs : List Param} {pending pending' : List Ident} {gs : List Field},
    ps.map unplaced = qs.map unplaced →
    pending.map (·.unplaced) = pending'.map (·.unplaced) → toNamed pending' qs = .ok gs →
    FieldsAre (toNamed pending ps) gs
  | [], [], pending, pending', gs, _, hp, hq => by
    cases pending' with
    | nil =>
      obtain rfl := List.map_eq_nil_iff.1 hp
      exact ⟨gs, hq, rfl⟩
    | cons i is =>
      rw [toNamed, List.getLast?_eq_some_getLast (List.cons_ne_nil i is)] at hq
      cases hq
  | p :: ps, [], _, _, _, h, _, _ => by cases h
  | [], q :: qs, _, _, _, h, _, _ => by cases h
  | .bare name :: ps, .bare name' :: qs, pending, pending', gs, h, hp, hq => by
    obtain ⟨h₁, h₂⟩ := List.cons.inj h
    rw [toNamed] at hq ⊢
    refine toNamed_congr h₂ ?_ hq
    rw [List.map_append, List.map_append, hp, List.map_singleton, List.map_singleton,
      Param.bare.inj h₁]
  | .typed _ _ _ _ :: ps, .bare _ :: qs, _, _, _, h, _, _ => by cases (List.cons.inj h).1
  | .bare _ :: ps, .typed _ _ _ _ :: qs, _, _, _, h, _, _ => by cases (List.cons.inj h).1
  | .typed span name ellipsis type :: ps, .typed span' name' ellipsis' type' :: qs,
      pending, pending', gs, h, hp, hq => by
    obtain ⟨h₁, h₂⟩ := List.cons.inj h
    obtain ⟨-, hn, he, ht⟩ := Param.typed.inj h₁
    have hn' : name.toList.map (·.unplaced) = name'.toList.map (·.unplaced) := by
      cases name <;> cases name' <;> simp_all
    rw [toNamed] at hq ⊢
    cases hq' : toNamed [] qs with
    | error _ => rw [hq'] at hq; cases hq
    | ok gs' =>
      obtain ⟨fs, hfs, hsame⟩ := toNamed_congr h₂ rfl hq'
      rw [hq'] at hq
      cases hq
      refine ⟨_, by rw [hfs]; rfl, ?_⟩
      simp [Field.unplaced, hsame, hp, hn', he, ht]

theorem map_toAnonymous_congr : ∀ {ps qs : List Param}, ps.map unplaced = qs.map unplaced →
    (ps.map toAnonymous).map (·.unplaced) = (qs.map toAnonymous).map (·.unplaced)
  | [], [], _ => rfl
  | p :: ps, [], h => by cases h
  | [], q :: qs, h => by cases h
  | p :: ps, q :: qs, h => by
    obtain ⟨h₁, h₂⟩ := List.cons.inj h
    simp only [List.map_cons, toAnonymous_congr h₁, map_toAnonymous_congr h₂]

/-- The fields of a list depend on no place. -/
theorem toFields_congr {ps qs : List Param} {gs : List Field}
    (h : ps.map unplaced = qs.map unplaced) (hq : toFields qs = .ok gs) :
    FieldsAre (toFields ps) gs := by
  unfold toFields at hq ⊢
  rw [any_isNamed_congr h]
  split
  · next hn =>
    rw [if_pos hn] at hq
    exact toNamed_congr h rfl hq
  · next hn =>
    rw [if_neg hn] at hq
    cases hq
    exact ⟨_, rfl, map_toAnonymous_congr h⟩

/-- The names of a field that is written as its entries are read back, behind
    those that are pending. -/
theorem toNamed_namedEntries (span : Span) (ellipsis : Option Span) (type : TypeExpr)
    (ps : List Param) : ∀ {names : List Ident} (pending : List Ident), names ≠ [] →
      ∃ start, toNamed pending (namedEntries span ellipsis type names ++ ps) =
        (toNamed [] ps).map
          (⟨⟨start, span.stop⟩, pending ++ names, ellipsis, type, none, false⟩ :: ·)
  | [], _, h => absurd rfl h
  | [i], _, _ => ⟨_, rfl⟩
  | i :: j :: is, pending, _ => by
    obtain ⟨start, h⟩ := toNamed_namedEntries span ellipsis type ps (pending ++ [i])
      (List.cons_ne_nil j is)
    exact ⟨start, by rw [namedEntries, List.cons_append, toNamed, h]; simp⟩

theorem toNamed_entries : ∀ {fields : List Field}, (∀ f ∈ fields, f.InParams) →
    (∀ f ∈ fields, f.names ≠ []) → FieldsAre (toNamed [] (fields.flatMap Field.entries)) fields
  | [], _, _ => ⟨[], rfl, rfl⟩
  | f :: fields, hp, hn => by
    obtain ⟨fs, hfs, hsame⟩ := toNamed_entries (fun g hg => hp g (List.mem_cons_of_mem f hg))
      fun g hg => hn g (List.mem_cons_of_mem f hg)
    have hf := hp f List.mem_cons_self
    have hne := hn f List.mem_cons_self
    obtain ⟨span, names, ellipsis, type, tag, embedded⟩ := f
    obtain rfl : tag = none := hf.tag_eq
    obtain rfl : embedded = false := hf.embedded_eq
    obtain ⟨start, h⟩ := toNamed_namedEntries span ellipsis type (fields.flatMap Field.entries) [] hne
    have hentries : Field.entries ⟨span, names, ellipsis, type, none, false⟩ =
        namedEntries span ellipsis type names := by
      cases names with
      | nil => exact absurd rfl hne
      | cons i is => rfl
    refine ⟨_, by rw [List.flatMap_cons, hentries, h, hfs]; rfl, ?_⟩
    simp [Field.unplaced, hsame]

theorem any_isNamed_namedEntries (span : Span) (ellipsis : Option Span) (type : TypeExpr) :
    ∀ {names : List Ident}, names ≠ [] → (namedEntries span ellipsis type names).any isNamed = true
  | [], h => absurd rfl h
  | [_], _ => rfl
  | i :: j :: is, _ => by
    rw [namedEntries, List.any_cons,
      any_isNamed_namedEntries span ellipsis type (List.cons_ne_nil j is), Bool.or_true]

theorem isNamed_anonymousEntry (span : Span) (ellipsis : Option Span) (type : TypeExpr) :
    (anonymousEntry span ellipsis type).isNamed = false := by
  unfold anonymousEntry
  split <;> rfl

theorem toAnonymous_anonymousEntry (span : Span) (ellipsis : Option Span) (type : TypeExpr) :
    (anonymousEntry span ellipsis type).toAnonymous.unplaced =
      (anonymous span ellipsis type).unplaced := by
  unfold anonymousEntry
  split
  · next hname =>
    obtain ⟨_, rfl⟩ := TypeExpr.eq_named_of_plainName? hname
    rfl
  · rfl

theorem flatMap_entries_of_anonymous : ∀ {fields : List Field}, (∀ f ∈ fields, f.names = []) →
    fields.flatMap Field.entries =
      fields.map fun f => anonymousEntry f.span f.ellipsis f.type
  | [], _ => rfl
  | f :: fields, h => by
    rw [List.flatMap_cons, List.map_cons,
      flatMap_entries_of_anonymous fun g hg => h g (List.mem_cons_of_mem f hg), Field.entries,
      h f List.mem_cons_self]
    rfl

/-- **The entries of a canonical list give its fields back.** -/
theorem toFields_entries {l : FieldList} (hl : l.Canonical) :
    FieldsAre (toFields (l.fields.flatMap Field.entries)) l.fields := by
  obtain ⟨_, fields, _⟩ := l
  obtain ⟨hp, hn | hn⟩ := hl
  · rw [flatMap_entries_of_anonymous hn, toFields, if_neg]
    · refine ⟨_, rfl, ?_⟩
      rw [List.map_map, List.map_map]
      refine List.map_congr_left fun f hf => ?_
      have hf' := hp f hf
      have hnf := hn f hf
      obtain ⟨span, names, ellipsis, type, tag, embedded⟩ := f
      obtain rfl : tag = none := hf'.tag_eq
      obtain rfl : embedded = false := hf'.embedded_eq
      obtain rfl : names = [] := hnf
      exact toAnonymous_anonymousEntry span ellipsis type
    · simp [isNamed_anonymousEntry]
  · cases fields with
    | nil => exact ⟨[], rfl, rfl⟩
    | cons f fs =>
      have hany : ((f :: fs).flatMap Field.entries).any isNamed = true := by
        have hne := hn f List.mem_cons_self
        obtain ⟨span, names, ellipsis, type, tag, embedded⟩ := f
        cases names with
        | nil => exact absurd rfl hne
        | cons i is =>
          rw [List.flatMap_cons, List.any_append, Field.entries,
            any_isNamed_namedEntries _ _ _ hne, Bool.true_or]
      rw [toFields, if_pos hany]
      exact toNamed_entries hp hn

end Param

end GoDecls.Tree
