/-
  The order of the units of a batch.

  * `reorder σ units` are the units in another order: the one at `i` stands at
    `moved σ i` then, and `DeclRef` and `Place` follow it (`targetIn`, `placeIn`);
  * `DeclaredOnce units`: no module declares a name at two places.  What an index
    finds then follows its unit (`lookup?_reorder`);
  * `resolve_reorder`: so resolving in another order binds every reference to the
    declaration that it is bound to in this one.
-/
import GoDecls.Proofs.Batch.Resolution
import Mathlib.Data.Fintype.Perm
import Mathlib.Data.List.FinRange

namespace GoDecls.Batch

open Model

variable {units : List SourceUnit} {σ : Equiv.Perm (Fin units.length)} {M ident : String}
  {p : Place} {u : SourceUnit} {r : Reference} {t : DeclRef}
  {f : Place → SourceUnit → Reference → Reference}

/-! ## Another order -/

/-- Where the unit of this number goes; what is no number of a unit stays. -/
def moved {n : Nat} (σ : Equiv.Perm (Fin n)) (i : Nat) : Nat :=
  if h : i < n then σ ⟨i, h⟩ else i

/-- The units in another order. -/
def reorder (units : List SourceUnit) (σ : Equiv.Perm (Fin units.length)) : List SourceUnit :=
  List.ofFn fun i => units[σ.symm i]

/-- The place of a declaration in the other order. -/
def targetIn {n : Nat} (σ : Equiv.Perm (Fin n)) (t : DeclRef) : DeclRef :=
  ⟨moved σ t.unit, t.decl⟩

/-- The place of a reference in the other order. -/
def placeIn {n : Nat} (σ : Equiv.Perm (Fin n)) (p : Place) : Place :=
  ⟨moved σ p.unit, p.decl, p.number⟩

theorem moved_moved_symm {n : Nat} (σ : Equiv.Perm (Fin n)) (i : Nat) :
    moved σ (moved σ.symm i) = i := by
  by_cases h : i < n
  · simp [moved, h]
  · simp [moved, h]

theorem targetIn_targetIn_symm {n : Nat} (σ : Equiv.Perm (Fin n)) (t : DeclRef) :
    targetIn σ (targetIn σ.symm t) = t := by
  rw [targetIn, targetIn, moved_moved_symm]

theorem getElem?_reorder (σ : Equiv.Perm (Fin units.length)) (i : Nat) :
    (reorder units σ)[moved σ i]? = units[i]? := by
  by_cases h : i < units.length
  · simp [reorder, moved, h]
  · simp [reorder, moved, h]

theorem referenceAt?_reorder (σ : Equiv.Perm (Fin units.length)) (p : Place) :
    referenceAt? (reorder units σ) (placeIn σ p) = referenceAt? units p := by
  simp only [referenceAt?, declarationAt?, placeIn, getElem?_reorder]

/-! ## Batches that declare every name once -/

/-- No module declares a name at two places. -/
def DeclaredOnce (units : List SourceUnit) : Prop :=
  ∀ M ident s t, Declares units M ident s → Declares units M ident t → s = t

theorem declares_reorder :
    Declares (reorder units σ) M ident (targetIn σ t) ↔ Declares units M ident t := by
  simp only [Declares, targetIn, getElem?_reorder]

/-- Changing references leaves the declarations where they are. -/
theorem declares_mapPlaces : Declares (mapPlaces f units) M ident t ↔ Declares units M ident t := by
  simp only [Declares, mapPlaces, List.getElem?_mapIdx]
  cases units[t.unit]? with
  | none => simp
  | some u =>
    simp only [Option.map_some, Option.some.injEq, exists_eq_left', DeclaresAt,
      List.getElem?_mapIdx]
    cases u.declarations[t.decl]? with
    | none => simp
    | some d => simp [Declaration.mapReferences]

/-- **What an index finds follows its unit** into another order. -/
theorem lookup?_reorder (h : DeclaredOnce units) (σ : Equiv.Perm (Fin units.length))
    (M ident : String) :
    (DeclIndex.ofUnits (mapPlaces f (reorder units σ))).lookup? M ident =
      ((DeclIndex.ofUnits units).lookup? M ident).map (targetIn σ) := by
  have hdeclares : ∀ t, Declares (mapPlaces f (reorder units σ)) M ident t ↔
      Declares units M ident (targetIn σ.symm t) := fun t => by
    rw [declares_mapPlaces, ← declares_reorder (σ := σ), targetIn_targetIn_symm]
  cases hl : (DeclIndex.ofUnits units).lookup? M ident with
  | none =>
    refine DeclIndex.lookup?_eq_none_iff.2 fun t ht => ?_
    exact DeclIndex.lookup?_eq_none_iff.1 hl _ ((hdeclares t).1 ht)
  | some t =>
    have ht := (DeclIndex.lookup?_eq_some_iff.1 hl).declares
    have hat : Declares (mapPlaces f (reorder units σ)) M ident (targetIn σ t) :=
      declares_mapPlaces.2 (declares_reorder.2 ht)
    refine DeclIndex.lookup?_eq_some_iff.2 ⟨hat, fun s hs => ?_⟩
    have hs' := h M ident _ _ ((hdeclares s).1 hs) ht
    rw [← hs', targetIn_targetIn_symm]
    exact .inr ⟨rfl, Nat.le_refl _⟩

/-! ## Resolving -/

/-- The batch with the targets of its bound references changed. -/
def retarget (f : DeclRef → DeclRef) (units : List SourceUnit) : List SourceUnit :=
  mapPlaces (fun _ _ r => { r with target := r.target.map f }) units

/-- Which references are bound after a change, in the order of the batch. -/
theorem map_isBound_mapPlaces (g : SourceUnit → Reference → Reference) (units : List SourceUnit) :
    ((mapPlaces (fun _ => g) units).flatMap references).map (·.isBound) =
      units.flatMap fun u => (references u).map fun r => (g u r).isBound := by
  have hdecl : ∀ (u : SourceUnit) (d : Declaration),
      (d.mapReferences fun _ => g u).references = d.references.map (g u) := fun u d => by
    rw [Declaration.references_mapReferences]
    exact List.mapIdx_eq_iff.2 fun _ => List.getElem?_map
  simp only [mapPlaces_eq_map, List.flatMap_map, List.map_flatMap, references, hdecl, List.map_map,
    Function.comp_def]

theorem stats_eq_map (units : List SourceUnit) : stats units =
    ⟨((units.flatMap references).map (·.isBound)).length,
      ((units.flatMap references).map (·.isBound)).countP id⟩ := by
  rw [stats, List.length_map, List.countP_map, Function.id_comp]

theorem perm_reorder (σ : Equiv.Perm (Fin units.length)) : (reorder units σ).Perm units := by
  have h := Equiv.Perm.ofFn_comp_perm σ.symm units.get
  rwa [List.ofFn_get] at h

/-- Changes that bind alike give the same statistics in any order. -/
theorem stats_reorder {g h : SourceUnit → Reference → Reference}
    (hbound : ∀ u r, (g u r).isBound = (h u r).isBound) (σ : Equiv.Perm (Fin units.length)) :
    stats (mapPlaces (fun _ => g) (reorder units σ)) = stats (mapPlaces (fun _ => h) units) := by
  have hperm := (perm_reorder σ).flatMap_right fun u => (references u).map fun r => (h u r).isBound
  simp only [stats_eq_map, map_isBound_mapPlaces, hbound, hperm.length_eq, hperm.countP_eq]

/-- A reference after resolving in the other order.  An unbound one is bound to what
    it is bound to in the old order, wherever that stands now. -/
def resolvedIn {n : Nat} (σ : Equiv.Perm (Fin n)) (f : DeclRef → DeclRef) (ix : DeclIndex)
    (u : SourceUnit) (r : Reference) : Reference :=
  { r with target := if r.isBound then r.target.map f else (ix.resolve? u r.name).map (targetIn σ) }

theorem isBound_resolvedIn {n : Nat} (σ : Equiv.Perm (Fin n)) (f : DeclRef → DeclRef)
    (ix : DeclIndex) (u : SourceUnit) (r : Reference) :
    (resolvedIn σ f ix u r).isBound = (bindReference ix u r).isBound := by
  rw [resolvedIn, bindReference]
  cases h : r.isBound with
  | true => simp_all [Reference.isBound]
  | false => simp [Reference.isBound]

/-- **Resolving in another order**, reference by reference. -/
theorem resolve_retarget_reorder (h : DeclaredOnce units) (σ : Equiv.Perm (Fin units.length))
    (f : DeclRef → DeclRef) : (resolve (retarget f (reorder units σ))).1 =
      mapPlaces (fun _ => resolvedIn σ f (.ofUnits units)) (reorder units σ) := by
  show (retarget f (reorder units σ)).map (resolveUnit (.ofUnits _)) = _
  rw [map_resolveUnit]
  generalize hix : DeclIndex.ofUnits (retarget f (reorder units σ)) = ix
  rw [retarget, mapPlaces_mapPlaces fun _ _ _ _ => rfl]
  refine mapPlaces_congr fun _ u r _ _ => ?_
  have hresolve : ix.resolve? u r.name =
      ((DeclIndex.ofUnits units).resolve? u r.name).map (targetIn σ) := by
    rw [← hix, DeclIndex.resolve?, DeclIndex.resolve?, Option.map_bind]
    refine congrArg (Option.bind _) (funext fun t => lookup?_reorder h σ t.1 t.2)
  rw [resolvedIn, bindReference, Reference.isBound, Option.isSome_map, ← Reference.isBound, hresolve]
  cases r.isBound <;> rfl

theorem referenceAt?_resolve_retarget_reorder (h : DeclaredOnce units)
    (σ : Equiv.Perm (Fin units.length)) (f : DeclRef → DeclRef) (hu : units[p.unit]? = some u)
    (hr : referenceAt? units p = some r) :
    referenceAt? (resolve (retarget f (reorder units σ))).1 (placeIn σ p) =
      some (resolvedIn σ f (.ofUnits units) u r) := by
  rw [resolve_retarget_reorder h, referenceAt?_mapPlaces, referenceAt?_reorder, hr, placeIn,
    getElem?_reorder, hu]
  rfl

theorem resolve_retarget_reorder_stats (h : DeclaredOnce units) (σ : Equiv.Perm (Fin units.length))
    (f : DeclRef → DeclRef) : (resolve (retarget f (reorder units σ))).2 = (resolve units).2 := by
  show stats (resolve (retarget f (reorder units σ))).1 = stats (units.map (resolveUnit _))
  rw [resolve_retarget_reorder h, map_resolveUnit]
  exact stats_reorder (isBound_resolvedIn σ f _) σ

theorem retarget_id (units : List SourceUnit) : retarget id units = units := by
  simp only [retarget, Option.map_id_fun, id_eq, mapPlaces_id]

/-- **The order of the units makes no difference.**  Resolving the units in another
    order gives the same statistics, and binds every reference to the declaration to
    which it is bound in the old order, wherever that stands now; the same ones stay
    unbound.  A reference that was bound before keeps its target; and where such
    targets have followed their declarations into the new order, all targets do. -/
theorem resolve_reorder (h : DeclaredOnce units) (σ : Equiv.Perm (Fin units.length)) :
    ((resolve (reorder units σ)).2 = (resolve units).2 ∧
      ∀ p r, referenceAt? units p = some r → ∃ s s',
        referenceAt? (resolve units).1 p = some s ∧
        referenceAt? (resolve (reorder units σ)).1 (placeIn σ p) = some s' ∧ s'.name = s.name ∧
        (r.target = none → s'.target = s.target.map (targetIn σ)) ∧
        ∀ t, r.target = some t → s.target = some t ∧ s'.target = some t) ∧
    (resolve (retarget (targetIn σ) (reorder units σ))).2 = (resolve units).2 ∧
      ∀ p s, referenceAt? (resolve units).1 p = some s →
        referenceAt? (resolve (retarget (targetIn σ) (reorder units σ))).1 (placeIn σ p) =
          some { s with target := s.target.map (targetIn σ) } := by
  refine ⟨⟨?_, fun p r hr => ?_⟩, resolve_retarget_reorder_stats h σ _, fun p s hs => ?_⟩
  · have hstats := resolve_retarget_reorder_stats h σ id
    rwa [retarget_id] at hstats
  · obtain ⟨u, hu⟩ := unit_of_referenceAt? hr
    have hat := referenceAt?_resolve_retarget_reorder h σ id hu hr
    rw [retarget_id] at hat
    refine ⟨_, _, referenceAt?_resolve hu hr, hat, ?_, fun hnone => ?_, fun t ht => ?_⟩
    · rw [bindReference]
      split <;> rfl
    · simp [resolvedIn, bindReference, Reference.isBound, hnone]
    · simp [resolvedIn, bindReference, Reference.isBound, ht]
  · obtain ⟨u, r, hu, hr, rfl⟩ := referenceAt?_resolve_eq_some_iff.1 hs
    rw [referenceAt?_resolve_retarget_reorder h σ _ hu hr, resolvedIn, bindReference]
    cases r.isBound <;> rfl

/-- A unit whose one declaration refers to one name. -/
def soleUnit (name ref : String) : SourceUnit :=
  ⟨⟨"m", ""⟩, "", "p", [], [⟨name, .reference (.unbound ref), .empty⟩], ""⟩

/-- Of two units that change places, the first refers to the second: bound to the
    declaration `⟨1, 0⟩` at first, and to `⟨0, 0⟩` then. -/
theorem resolve_reorder_swap :
    let units := [soleUnit "A" "B", soleUnit "B" "C"]
    let σ : Equiv.Perm (Fin units.length) := Equiv.swap 0 1
    DeclaredOnce units ∧ referenceAt? units ⟨0, 0, 0⟩ = some (.unbound "B") ∧
      referenceAt? (resolve units).1 ⟨0, 0, 0⟩ = some ⟨"B", some ⟨1, 0⟩⟩ ∧
      referenceAt? (resolve (reorder units σ)).1 ⟨1, 0, 0⟩ = some ⟨"B", some ⟨0, 0⟩⟩ ∧
      (resolve (reorder units σ)).2 = (resolve units).2 := by
  intro units σ
  have honce : DeclaredOnce units := by
    rintro M ident ⟨i, j⟩ ⟨k, l⟩ hs ht
    simp [Declares, DeclaresAt, units, soleUnit, List.getElem?_cons] at hs ht
    grind
  have hr : referenceAt? units ⟨0, 0, 0⟩ = some (.unbound "B") := by decide
  have hresolve : (DeclIndex.ofUnits units).resolve? (soleUnit "A" "B") "B" = some ⟨1, 0⟩ := by
    rw [resolve?_ofUnits]
    decide
  have hs : referenceAt? (resolve units).1 ⟨0, 0, 0⟩ = some ⟨"B", some ⟨1, 0⟩⟩ := by
    rw [referenceAt?_resolve rfl hr, bindReference_of_unbound rfl]
    exact congrArg (fun t => some (Reference.mk "B" t)) hresolve
  obtain ⟨⟨hstats, hplaces⟩, -⟩ := resolve_reorder honce σ
  obtain ⟨s, s', hs₁, hs', hname, hunbound, -⟩ := hplaces ⟨0, 0, 0⟩ _ hr
  obtain rfl := Option.some.inj (hs.symm.trans hs₁)
  have htarget : s'.target = some ⟨0, 0⟩ := hunbound rfl
  refine ⟨honce, hr, hs, hs'.trans ?_, hstats⟩
  obtain ⟨name, target⟩ := s'
  rw [show name = "B" from hname, show target = _ from htarget]

end GoDecls.Batch
