/-
  The references of a batch by their places.

  * `referenceAt?` gives the reference at a place, and `places` lists the places
    of all references (`map_referenceAt?_places`);
  * `mapPlaces` changes references, each by its place and the unit it stands in;
    such changes compose (`mapPlaces_mapPlaces`), and only those at places where
    there is a reference count (`mapPlaces_congr`).
-/
import GoDecls.Batch.Resolve
import GoDecls.Proofs.Model.MapReferences

namespace GoDecls.Batch

open Model

/-- The place of a reference: number of the unit, of the declaration in it, and
    of the reference in that. -/
structure Place where
  unit : Nat
  decl : Nat
  number : Nat
deriving DecidableEq, Repr

/-- The reference at a place of the batch. -/
def referenceAt? (units : List SourceUnit) (p : Place) : Option Reference :=
  (declarationAt? units ⟨p.unit, p.decl⟩).bind (·.references[p.number]?)

/-- The places of the references of declarations, in unit `i`. -/
def unitPlaces (i : Nat) (ds : List Declaration) : List Place :=
  (ds.mapIdx fun j d => (List.range d.references.length).map (⟨i, j, ·⟩)).flatten

/-- The places of all references, in the order in which they stand. -/
def places (units : List SourceUnit) : List Place :=
  (units.mapIdx fun i u => unitPlaces i u.declarations).flatten

/-- The batch with every reference changed. -/
def mapPlaces (f : Place → SourceUnit → Reference → Reference) (units : List SourceUnit) :
    List SourceUnit :=
  units.mapIdx fun i u =>
    { u with declarations := u.declarations.mapIdx fun j d => d.mapReferences fun k => f ⟨i, j, k⟩ u }

variable {units : List SourceUnit} {p : Place} {u : SourceUnit} {r : Reference}
  {f g : Place → SourceUnit → Reference → Reference}

/-! ## References at places -/

theorem referenceAt?_eq_some_iff : referenceAt? units p = some r ↔
    ∃ u d, units[p.unit]? = some u ∧ u.declarations[p.decl]? = some d ∧
      d.references[p.number]? = some r := by
  simp only [referenceAt?, declarationAt?, Option.bind_eq_some_iff]
  constructor
  · rintro ⟨d, ⟨u, hu, hd⟩, hr⟩
    exact ⟨u, d, hu, hd, hr⟩
  · rintro ⟨u, d, hu, hd, hr⟩
    exact ⟨d, ⟨u, hu, hd⟩, hr⟩

/-- The reference at a place after the change. -/
theorem referenceAt?_mapPlaces (p : Place) : referenceAt? (mapPlaces f units) p =
    units[p.unit]?.bind fun u => (referenceAt? units p).map (f p u) := by
  simp only [referenceAt?, declarationAt?, mapPlaces, List.getElem?_mapIdx]
  cases units[p.unit]? with
  | none => rfl
  | some u =>
    simp only [Option.map_some, Option.bind_some, List.getElem?_mapIdx]
    cases u.declarations[p.decl]? with
    | none => rfl
    | some d => simp [Declaration.references_mapReferences]

/-- A place at which there is a reference is in a unit. -/
theorem unit_of_referenceAt? (h : referenceAt? units p = some r) :
    ∃ u, units[p.unit]? = some u := by
  obtain ⟨u, _, hu, -⟩ := referenceAt?_eq_some_iff.1 h
  exact ⟨u, hu⟩

theorem map_referenceAt?_unitPlaces {i : Nat} (hu : units[i]? = some u) :
    (unitPlaces i u.declarations).map (referenceAt? units) = (references u).map some := by
  rw [unitPlaces, List.map_flatten, references, List.map_flatMap, List.flatMap]
  congr 1
  refine List.ext_getElem? fun j => ?_
  rw [List.getElem?_map, List.getElem?_mapIdx, List.getElem?_map, Option.map_map]
  cases hd : u.declarations[j]? with
  | none => rfl
  | some d =>
    refine congrArg some (List.ext_getElem? fun k => ?_)
    simp only [List.map_map, List.getElem?_map, Function.comp_def]
    by_cases hk : k < d.references.length
    · simp [referenceAt?, declarationAt?, hu, hd, hk]
    · simp [hk]

/-- **The places are those of all references, in order.** -/
theorem map_referenceAt?_places (units : List SourceUnit) :
    (places units).map (referenceAt? units) = (units.flatMap references).map some := by
  rw [places, List.map_flatten, List.map_flatMap, List.flatMap]
  congr 1
  refine List.ext_getElem? fun i => ?_
  rw [List.getElem?_map, List.getElem?_mapIdx, List.getElem?_map, Option.map_map]
  cases hu : units[i]? with
  | none => rfl
  | some u => exact congrArg some (map_referenceAt?_unitPlaces hu)

theorem mem_places (h : referenceAt? units p = some r) : p ∈ places units := by
  obtain ⟨u, d, hu, hd, hr⟩ := referenceAt?_eq_some_iff.1 h
  obtain ⟨hi, rfl⟩ := List.getElem?_eq_some_iff.1 hu
  obtain ⟨hj, rfl⟩ := List.getElem?_eq_some_iff.1 hd
  obtain ⟨hk, -⟩ := List.getElem?_eq_some_iff.1 hr
  refine List.mem_flatten.2 ⟨_, List.mem_mapIdx.2 ⟨p.unit, hi, rfl⟩, ?_⟩
  refine List.mem_flatten.2 ⟨_, List.mem_mapIdx.2 ⟨p.decl, hj, rfl⟩, ?_⟩
  exact List.mem_map.2 ⟨p.number, List.mem_range.2 hk, rfl⟩

/-- The numbers of references and of bound ones, counted by places. -/
theorem stats_eq_places (units : List SourceUnit) : stats units = ⟨(places units).length,
    (places units).countP fun p => (referenceAt? units p).any (·.isBound)⟩ := by
  have hplaces := map_referenceAt?_places units
  have hlength := congrArg List.length hplaces
  have hbound := congrArg (List.countP fun r => r.any (·.isBound)) hplaces
  rw [List.length_map, List.length_map] at hlength
  rw [List.countP_map, List.countP_map] at hbound
  rw [stats, hlength, Stats.mk.injEq]
  exact ⟨rfl, hbound.symm⟩

/-! ## Changing references -/

theorem mapPlaces_congr (h : ∀ p u r, units[p.unit]? = some u → referenceAt? units p = some r →
    f p u r = g p u r) : mapPlaces f units = mapPlaces g units := by
  refine List.ext_getElem? fun i => ?_
  rw [mapPlaces, mapPlaces, List.getElem?_mapIdx, List.getElem?_mapIdx]
  cases hu : units[i]? with
  | none => rfl
  | some u =>
    have hdecls : (u.declarations.mapIdx fun j d => d.mapReferences fun k => f ⟨i, j, k⟩ u) =
        u.declarations.mapIdx fun j d => d.mapReferences fun k => g ⟨i, j, k⟩ u := by
      refine List.ext_getElem? fun j => ?_
      rw [List.getElem?_mapIdx, List.getElem?_mapIdx]
      cases hd : u.declarations[j]? with
      | none => rfl
      | some d =>
        refine congrArg some (Declaration.mapReferences_congr fun k r hk => ?_)
        exact h ⟨i, j, k⟩ u r hu (referenceAt?_eq_some_iff.2 ⟨u, d, hu, hd, hk⟩)
    simp only [Option.map_some, hdecls]

/-- Declarations stay where they are, with their names. -/
theorem declarationAt?_mapPlaces {t : DeclRef} {d : Declaration}
    (h : declarationAt? units t = some d) :
    ∃ d', declarationAt? (mapPlaces f units) t = some d' ∧ d'.name = d.name := by
  obtain ⟨u, hu, hd⟩ := Option.bind_eq_some_iff.1 h
  refine ⟨d.mapReferences fun k => f ⟨t.unit, t.decl, k⟩ u, ?_, rfl⟩
  simp [declarationAt?, mapPlaces, hu, hd]

/-- Two changes in a row are one, if the second looks at no declarations. -/
theorem mapPlaces_mapPlaces (hf : ∀ p u ds r, f p { u with declarations := ds } r = f p u r) :
    mapPlaces f (mapPlaces g units) = mapPlaces (fun p u r => f p u (g p u r)) units := by
  simp only [mapPlaces, List.mapIdx_mapIdx, Function.comp_def, hf,
    Declaration.mapReferences_mapReferences]

theorem mapPlaces_id (units : List SourceUnit) : mapPlaces (fun _ _ r => r) units = units := by
  refine List.mapIdx_eq_iff.2 fun i => ?_
  cases units[i]? with
  | none => rfl
  | some u =>
    have hdecls : (u.declarations.mapIdx fun _ d => d.mapReferences fun _ r => r) =
        u.declarations :=
      List.mapIdx_eq_iff.2 fun j => by
        simp only [Declaration.mapReferences_id, Option.map_id']
    rw [Option.map_some, hdecls]

/-- Changes that look at the unit alone are made unit by unit. -/
theorem mapPlaces_eq_map (g : SourceUnit → Reference → Reference) (units : List SourceUnit) :
    mapPlaces (fun _ => g) units = units.map fun u =>
      { u with declarations := u.declarations.map (·.mapReferences fun _ => g u) } := by
  refine List.mapIdx_eq_iff.2 fun i => ?_
  rw [List.getElem?_map]
  refine Option.map_congr fun u _ => ?_
  have hdecls : (u.declarations.mapIdx fun _ d => d.mapReferences fun _ => g u) =
      u.declarations.map fun d => d.mapReferences fun _ => g u :=
    List.mapIdx_eq_iff.2 fun _ => List.getElem?_map
  rw [hdecls]

theorem places_mapPlaces : places (mapPlaces f units) = places units := by
  simp [places, unitPlaces, mapPlaces, List.mapIdx_mapIdx, Function.comp_def,
    Declaration.references_mapReferences]

end GoDecls.Batch
