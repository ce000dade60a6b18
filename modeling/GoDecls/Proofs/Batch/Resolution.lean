/-
  What resolving a batch binds, against a plain search of the batch.

  * `Resolved units u r r'`: the reference `r` of the unit `u` becomes `r'`.  A
    bound one keeps its target; another is bound to the first place of the batch
    at which the module that its name points at declares the name, if there is
    one;
  * `resolve_binds`: that is what `resolve` does at every place, in whatever
    order the places are visited.
-/
import GoDecls.Proofs.Batch.FirstDeclared
import GoDecls.Proofs.Batch.PointsAt
import GoDecls.Proofs.Batch.Visits

namespace GoDecls.Batch

open Model

variable {units : List SourceUnit} {u : SourceUnit} {r : Reference} {name : String} {t : DeclRef}

/-- The name, used in the unit, is declared in the batch, at the first place `t`. -/
def FirstTarget (units : List SourceUnit) (u : SourceUnit) (name : String) (t : DeclRef) : Prop :=
  ∃ M ident, PointsAt u name M ident ∧ FirstDeclared units M ident t

/-- What the reference `r`, used in the unit, becomes. -/
structure Resolved (units : List SourceUnit) (u : SourceUnit) (r r' : Reference) : Prop where
  name_eq : r'.name = r.name
  kept : ∀ t, r.target = some t → r'.target = some t
  isBound_iff : r.target = none →
    (r'.isBound = true ↔ ∃ M ident s, PointsAt u r.name M ident ∧ Declares units M ident s)
  target_iff : r.target = none → ∀ t, r'.target = some t ↔ FirstTarget units u r.name t

theorem resolve?_eq_some_iff :
    (DeclIndex.ofUnits units).resolve? u name = some t ↔ FirstTarget units u name t := by
  rw [DeclIndex.resolve?, Option.bind_eq_some_iff]
  constructor
  · rintro ⟨⟨M, ident⟩, htarget, hlookup⟩
    exact ⟨M, ident, target?_eq_some_iff.1 htarget, DeclIndex.lookup?_eq_some_iff.1 hlookup⟩
  · rintro ⟨M, ident, hpoints, hfirst⟩
    exact ⟨(M, ident), target?_eq_some_iff.2 hpoints, DeclIndex.lookup?_eq_some_iff.2 hfirst⟩

/-- A declared name has a first place. -/
theorem exists_firstDeclared {M ident : String} {s : DeclRef} (h : Declares units M ident s) :
    ∃ t, FirstDeclared units M ident t := by
  cases hl : (DeclIndex.ofUnits units).lookup? M ident with
  | none => exact absurd h (DeclIndex.lookup?_eq_none_iff.1 hl s)
  | some t => exact ⟨t, DeclIndex.lookup?_eq_some_iff.1 hl⟩

theorem resolved_bindReference : Resolved units u r (bindReference (.ofUnits units) u r) := by
  cases h : r.isBound with
  | true =>
    obtain ⟨s, hs⟩ := Option.isSome_iff_exists.1 h
    rw [bindReference_of_isBound h]
    refine ⟨rfl, fun t ht => ht, fun hn => ?_, fun hn => ?_⟩ <;> rw [hs] at hn <;> cases hn
  | false =>
    have hnone : r.target = none := Option.isNone_iff_eq_none.1 (Option.isSome_eq_false_iff.1 h)
    rw [bindReference_of_unbound h]
    refine ⟨rfl, fun t ht => ?_, fun _ => ?_, fun _ t => resolve?_eq_some_iff⟩
    · rw [hnone] at ht
      cases ht
    · rw [Reference.isBound, Option.isSome_iff_exists]
      constructor
      · rintro ⟨t, ht⟩
        obtain ⟨M, ident, hpoints, hfirst⟩ := resolve?_eq_some_iff.1 ht
        exact ⟨M, ident, t, hpoints, hfirst.declares⟩
      · rintro ⟨M, ident, s, hpoints, hs⟩
        obtain ⟨t, hfirst⟩ := exists_firstDeclared hs
        exact ⟨t, resolve?_eq_some_iff.2 ⟨M, ident, hpoints, hfirst⟩⟩

/-- Nothing else is left open of what a reference becomes. -/
theorem resolved_iff {r' : Reference} :
    Resolved units u r r' ↔ r' = bindReference (.ofUnits units) u r := by
  refine ⟨fun h => ?_, fun h => h ▸ resolved_bindReference⟩
  have hbind : Resolved units u r _ := resolved_bindReference
  have htarget : r'.target = (bindReference (.ofUnits units) u r).target := by
    cases hr : r.target with
    | some t => rw [h.kept t hr, hbind.kept t hr]
    | none => exact Option.ext fun t => (h.target_iff hr t).trans (hbind.target_iff hr t).symm
  have hname := h.name_eq.trans hbind.name_eq.symm
  cases r'
  exact (Reference.mk.injEq ..).mpr ⟨hname, htarget⟩

/-- A target is found by a scan of the batch. -/
theorem resolve?_ofUnits : (DeclIndex.ofUnits units).resolve? u name =
    (target? u name).bind fun t => scan? t.1 t.2 0 units := by
  simp only [DeclIndex.resolve?, DeclIndex.lookup?_ofUnits]

theorem Declares.declarationAt? {M ident : String} (h : Declares units M ident t) :
    ∃ d, declarationAt? units t = some d ∧ d.name = ident := by
  obtain ⟨u, hu, -, d, hd, hname⟩ := h
  exact ⟨d, Option.bind_eq_some_iff.2 ⟨u, hu, hd⟩, hname⟩

/-- A new target is in the batch. -/
theorem declarationAt?_bindReference (hr : r.target = none)
    (ht : (bindReference (.ofUnits units) u r).target = some t) :
    ∃ d, declarationAt? (resolve units).1 t = some d := by
  obtain ⟨M, ident, -, hfirst⟩ := (resolved_bindReference.target_iff hr t).1 ht
  obtain ⟨d, hd, -⟩ := hfirst.declares.declarationAt?
  obtain ⟨d', hd', -⟩ := declarationAt?_mapPlaces hd
  refine ⟨d', ?_⟩
  show declarationAt? (units.map _) t = _
  rw [map_resolveUnit, hd']

/-- Every reference of the batch is counted. -/
theorem references_resolve (units : List SourceUnit) :
    (resolve units).2.references = (units.flatMap references).length := by
  have hplaces := congrArg List.length (map_referenceAt?_places units)
  rw [List.length_map, List.length_map] at hplaces
  show (stats (units.map _)).references = _
  rw [map_resolveUnit, stats_eq_places, places_mapPlaces, hplaces]

/-- **Resolving binds what a plain search finds.**  Every reference is as
    `Resolved` says, and a new target is in the batch; the references are counted
    once each, and the bound ones as they are afterwards; and to visit the
    references one by one gives the same, in any order. -/
theorem resolve_binds (units : List SourceUnit) :
    (∀ p u r, units[p.unit]? = some u → referenceAt? units p = some r →
      ∃ r', referenceAt? (resolve units).1 p = some r' ∧ Resolved units u r r' ∧
        (r.target = none → ∀ t ∈ r'.target, ∃ d, declarationAt? (resolve units).1 t = some d)) ∧
    (resolve units).2.references = (units.flatMap references).length ∧
    (resolve units).2.resolved = ((resolve units).1.flatMap references).countP (·.isBound) ∧
    (resolve units).2.resolved ≤ (resolve units).2.references ∧
    ∀ order : List Place, order.Perm (places units) →
      order.foldl (visit (.ofUnits units)) (units, ⟨0, 0⟩) = resolve units := by
  refine ⟨fun p u r hu hr => ?_, references_resolve units, rfl, List.countP_le_length,
    fun _ => foldl_visit_eq_resolve⟩
  exact ⟨_, referenceAt?_resolve hu hr, resolved_bindReference,
    fun hn _ ht => declarationAt?_bindReference hn ht⟩

/-- A unit that imports the directory `a` of its module, and whose one declaration
    has two references. -/
def mapUnit (dir name : String) (key value : Reference) : SourceUnit :=
  ⟨⟨"m", dir⟩, "", "p", [⟨"a", "m/a"⟩], [⟨name, .map (.reference key) (.reference value), .empty⟩],
    ""⟩

/-- Of four references one is declared nowhere, two are bound, in the unit and over an
    import, and one keeps the target that it has, which no search would find. -/
theorem resolve_binds_mixed :
    let units := [mapUnit "a" "A" (.unbound "error") (.unbound "A"),
      mapUnit "b" "B" (.unbound "a.A") ⟨"A", some ⟨1, 0⟩⟩]
    referenceAt? (resolve units).1 ⟨0, 0, 0⟩ = some ⟨"error", none⟩ ∧
      referenceAt? (resolve units).1 ⟨0, 0, 1⟩ = some ⟨"A", some ⟨0, 0⟩⟩ ∧
      referenceAt? (resolve units).1 ⟨1, 0, 0⟩ = some ⟨"a.A", some ⟨0, 0⟩⟩ ∧
      referenceAt? (resolve units).1 ⟨1, 0, 1⟩ = some ⟨"A", some ⟨1, 0⟩⟩ ∧
      (resolve units).2.references = 4 := by
  intro units
  obtain ⟨hbinds, hreferences, -⟩ := resolve_binds units
  have bound {p : Place} {u : SourceUnit} {r : Reference} (hu : units[p.unit]? = some u)
      (hr : referenceAt? units p = some r) :
      referenceAt? (resolve units).1 p = some (bindReference (.ofUnits units) u r) := by
    obtain ⟨r', hr', h, -⟩ := hbinds p u r hu hr
    exact hr'.trans (congrArg some (resolved_iff.1 h))
  refine ⟨?_, ?_, ?_, ?_, hreferences.trans rfl⟩
  · rw [bound (p := ⟨0, 0, 0⟩) rfl rfl, bindReference_of_unbound rfl, resolve?_ofUnits]
    rfl
  · rw [bound (p := ⟨0, 0, 1⟩) rfl rfl, bindReference_of_unbound rfl, resolve?_ofUnits]
    rfl
  · rw [bound (p := ⟨1, 0, 0⟩) rfl rfl, bindReference_of_unbound rfl, resolve?_ofUnits]
    rfl
  · rw [bound (p := ⟨1, 0, 1⟩) rfl rfl, bindReference_of_isBound rfl]

end GoDecls.Batch
