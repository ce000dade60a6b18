/-
  Batches that grow and are resolved again and again.

  * `run` appends units and resolves, step after step; the units come as they
    are read, with no reference bound (`FreshUnit`, `exists_freshUnit_of_ofText`);
  * `Settles U b`: the batch `b` differs from `U` in nothing but references that
    are already bound as any later resolution would bind them.  Each step keeps
    it (`Settles.step`), since what an index finds is found in a longer batch too
    (`Extends.append`);
  * `resolve_run`: so resolving in between makes no difference.
-/
import GoDecls.Proofs.Batch.Resolution
import GoDecls.Proofs.Model.Unbound

namespace GoDecls.Batch

open Model

variable {ix ix' : DeclIndex} {units us U b : List SourceUnit} {u : SourceUnit} {r : Reference}
  {p : Place} {M ident : String} {i : Nat}

/-! ## Steps -/

/-- A unit none of whose references is bound. -/
structure FreshUnit where
  unit : SourceUnit
  unbound : Unbound (references unit)

/-- What is read from a source text is such a unit. -/
theorem exists_freshUnit_of_ofText {text filename : String} {module : Module}
    (h : SourceUnit.ofText text filename module = .ok u) : ∃ fresh : FreshUnit, fresh.unit = u := by
  refine ⟨⟨u, fun r hr => ?_⟩, rfl⟩
  obtain ⟨d, hd, hrd⟩ := List.mem_flatMap.1 hr
  exact SourceUnit.unbound_of_ofText h d hd r hrd

/-- A step in the life of a batch. -/
inductive Op where
  | append (units : List FreshUnit)
  | resolve

/-- The units that the step appends. -/
def Op.adds : Op → List SourceUnit
  | append us => us.map (·.unit)
  | resolve => []

/-- The batch after a step. -/
def step (b : List SourceUnit) : Op → List SourceUnit
  | .append us => b ++ us.map (·.unit)
  | .resolve => (resolve b).1

/-- The batch after steps, from an empty one. -/
def run (ops : List Op) : List SourceUnit := ops.foldl step []

/-- All units that the steps append, as they come. -/
def appended (ops : List Op) : List SourceUnit := ops.flatMap (·.adds)

/-! ## Indexes -/

/-- What the one index finds, the other finds. -/
def Extends (ix ix' : DeclIndex) : Prop :=
  ∀ M ident t, ix.lookup? M ident = some t → ix'.lookup? M ident = some t

theorem Extends.append (units us : List SourceUnit) :
    Extends (.ofUnits units) (.ofUnits (units ++ us)) := by
  intro M ident t h
  rw [DeclIndex.lookup?_ofUnits] at h ⊢
  rw [scan?_append, h, Option.some_or]

theorem Extends.resolve? (h : Extends ix ix') {name : String} {t : DeclRef}
    (ht : ix.resolve? u name = some t) : ix'.resolve? u name = some t := by
  obtain ⟨⟨M, ident⟩, htarget, hlookup⟩ := Option.bind_eq_some_iff.1 ht
  exact Option.bind_eq_some_iff.2 ⟨(M, ident), htarget, h M ident t hlookup⟩

/-- What was bound by an index is bound as the longer one would bind it. -/
theorem Extends.bindReference (h : Extends ix ix') :
    bindReference ix' u (bindReference ix u r) = bindReference ix' u r := by
  cases hr : r.isBound with
  | true => rw [bindReference_of_isBound hr]
  | false =>
    rw [bindReference_of_unbound hr, bindReference_of_unbound hr]
    cases ht : ix.resolve? u r.name with
    | none => exact bindReference_of_unbound rfl
    | some t => rw [bindReference_of_isBound rfl, h.resolve? ht]

theorem Extends.resolveUnit (h : Extends ix ix') :
    resolveUnit ix' (resolveUnit ix u) = resolveUnit ix' u := by
  have hdecl : ∀ d : Declaration,
      (d.mapReferences fun _ => Batch.bindReference ix u).mapReferences
          (fun _ => Batch.bindReference ix' u) =
        d.mapReferences fun _ => Batch.bindReference ix' u := fun d => by
    rw [Declaration.mapReferences_mapReferences]
    exact Declaration.mapReferences_congr fun _ _ _ => h.bindReference
  have hunit : Batch.bindReference ix' (Batch.resolveUnit ix u) = Batch.bindReference ix' u := rfl
  rw [Batch.resolveUnit, hunit]
  simp only [Batch.resolveUnit, List.map_map, Function.comp_def, hdecl]

/-- Units are resolved alike by indexes that find the same. -/
theorem resolveUnit_congr (h : ∀ M ident, ix.lookup? M ident = ix'.lookup? M ident) :
    resolveUnit ix u = resolveUnit ix' u := by
  have hresolve : ∀ name, ix.resolve? u name = ix'.resolve? u name := fun name => by
    simp only [DeclIndex.resolve?, h]
  have hbind : bindReference ix u = bindReference ix' u :=
    funext fun r => by simp only [bindReference, hresolve]
  rw [resolveUnit, resolveUnit, hbind]

theorem inUnit?_resolveUnit : inUnit? M ident (resolveUnit ix u) = inUnit? M ident u := by
  simp [inUnit?, resolveUnit, List.findIdx?_map, Function.comp_def, Declaration.mapReferences]

/-- Resolving does not change what a scan finds. -/
theorem scan?_map_resolveUnit : ∀ (us : List SourceUnit) (i : Nat),
    scan? M ident i (us.map (resolveUnit ix)) = scan? M ident i us
  | [], _ => rfl
  | u :: us, i => by
    rw [List.map_cons, scan?, scan?, inUnit?_resolveUnit, scan?_map_resolveUnit us]

/-! ## The invariant -/

/-- The batch `b` declares what `U` declares, and resolving what comes of it by
    appending more gives what resolving `U` with that appended would give. -/
structure Settles (U b : List SourceUnit) : Prop where
  scan_eq : ∀ M ident i, scan? M ident i b = scan? M ident i U
  map_eq : ∀ us, b.map (resolveUnit (.ofUnits (U ++ us))) = U.map (resolveUnit (.ofUnits (U ++ us)))

namespace Settles

theorem refl (U : List SourceUnit) : Settles U U := ⟨fun _ _ _ => rfl, fun _ => rfl⟩

theorem length_eq (h : Settles U b) : b.length = U.length := by
  have := congrArg List.length (h.map_eq [])
  rwa [List.length_map, List.length_map] at this

theorem lookup?_eq (h : Settles U b) (M ident : String) :
    (DeclIndex.ofUnits b).lookup? M ident = (DeclIndex.ofUnits U).lookup? M ident := by
  rw [DeclIndex.lookup?_ofUnits, DeclIndex.lookup?_ofUnits, h.scan_eq]

theorem append (h : Settles U b) (us : List SourceUnit) : Settles (U ++ us) (b ++ us) where
  scan_eq M ident i := by rw [scan?_append, scan?_append, h.scan_eq, h.length_eq]
  map_eq vs := by rw [List.map_append, List.map_append, List.append_assoc, h.map_eq (us ++ vs)]

theorem resolve (h : Settles U b) : Settles U (Batch.resolve b).1 where
  scan_eq M ident i := by
    show scan? M ident i (b.map _) = _
    rw [scan?_map_resolveUnit, h.scan_eq]
  map_eq us := by
    -- `b` declares what `U` declares, so its index finds no more than a longer one
    have hext : Extends (.ofUnits b) (.ofUnits (U ++ us)) := fun M ident t ht => by
      rw [h.lookup?_eq] at ht
      exact Extends.append U us M ident t ht
    show (b.map _).map _ = _
    rw [List.map_map, ← h.map_eq us]
    exact List.map_congr_left fun u _ => hext.resolveUnit

theorem step (h : Settles U b) (op : Op) : Settles (U ++ op.adds) (step b op) := by
  cases op with
  | append us => exact h.append _
  | resolve => rw [Op.adds, List.append_nil]; exact h.resolve

theorem foldl_step : ∀ (ops : List Op) {U b : List SourceUnit}, Settles U b →
    Settles (U ++ appended ops) (ops.foldl Batch.step b)
  | [], U, b, h => by rw [appended, List.flatMap_nil, List.append_nil]; exact h
  | op :: ops, U, b, h => by
    rw [appended, List.flatMap_cons, ← List.append_assoc]
    exact foldl_step ops (h.step op)

/-- Resolving gives the same, with the statistics. -/
theorem resolve_eq (h : Settles U b) : Batch.resolve b = Batch.resolve U := by
  have hbound : b.map (resolveUnit (.ofUnits b)) = U.map (resolveUnit (.ofUnits U)) := by
    have hmap := h.map_eq []
    rw [List.append_nil] at hmap
    rw [← hmap]
    exact List.map_congr_left fun u _ => resolveUnit_congr h.lookup?_eq
  rw [Batch.resolve, Batch.resolve, hbound]

end Settles

/-- To resolve twice in a row is to resolve once. -/
theorem resolve_resolve (b : List SourceUnit) : resolve (resolve b).1 = resolve b :=
  (Settles.refl b).resolve.resolve_eq

/-! ## Targets -/

theorem referenceAt?_append_left (us : List SourceUnit) (h : referenceAt? b p = some r) :
    referenceAt? (b ++ us) p = some r := by
  obtain ⟨u, d, hu, hd, hr⟩ := referenceAt?_eq_some_iff.1 h
  have hlt := (List.getElem?_eq_some_iff.1 hu).1
  exact referenceAt?_eq_some_iff.2 ⟨u, d, by rw [List.getElem?_append_left hlt, hu], hd, hr⟩

/-- A step leaves a bound reference as it is. -/
theorem referenceAt?_step (op : Op) (h : referenceAt? b p = some r) (hr : r.isBound = true) :
    referenceAt? (step b op) p = some r := by
  cases op with
  | append us => exact referenceAt?_append_left _ h
  | resolve =>
    obtain ⟨u, hu⟩ := unit_of_referenceAt? h
    rw [step, referenceAt?_resolve hu h, bindReference_of_isBound hr]

theorem referenceAt?_foldl_step : ∀ (ops : List Op) {b : List SourceUnit},
    referenceAt? b p = some r → r.isBound = true → referenceAt? (ops.foldl step b) p = some r
  | [], _, h, _ => h
  | op :: ops, _, h, hr => referenceAt?_foldl_step ops (referenceAt?_step op h hr) hr

/-- Every target is a declaration of the batch with the name that the reference
    gives it. -/
def Named (b : List SourceUnit) : Prop :=
  ∀ p r t, referenceAt? b p = some r → r.target = some t →
    ∃ d, declarationAt? b t = some d ∧ d.name = r.unqualifiedName

/-- A name points at a declaration of its unqualified name. -/
theorem PointsAt.unqualifiedName_eq {name : String} (h : PointsAt u name M ident)
    (target : Option DeclRef) : Reference.unqualifiedName ⟨name, target⟩ = ident := by
  rw [Reference.unqualifiedName]
  cases h with
  | here hname => rw [cutAtDot?_of_dotless hname.dotless]; rfl
  | imported hpkg _ _ _ => rw [cutAtDot?_append _ hpkg.dotless]; rfl

theorem declarationAt?_append_left (us : List SourceUnit) {t : DeclRef} {d : Declaration}
    (h : declarationAt? b t = some d) : declarationAt? (b ++ us) t = some d := by
  obtain ⟨u, hu, hd⟩ := Option.bind_eq_some_iff.1 h
  have hlt := (List.getElem?_eq_some_iff.1 hu).1
  exact Option.bind_eq_some_iff.2 ⟨u, by rw [List.getElem?_append_left hlt, hu], hd⟩

theorem Named.append (h : Named b) (us : List FreshUnit) : Named (b ++ us.map (·.unit)) := by
  intro p r t hr ht
  obtain ⟨u, d, hu, hd, hk⟩ := referenceAt?_eq_some_iff.1 hr
  by_cases hlt : p.unit < b.length
  · rw [List.getElem?_append_left hlt] at hu
    obtain ⟨d', hd', hname⟩ := h p r t (referenceAt?_eq_some_iff.2 ⟨u, d, hu, hd, hk⟩) ht
    exact ⟨d', declarationAt?_append_left _ hd', hname⟩
  · rw [List.getElem?_append_right (Nat.le_of_not_lt hlt)] at hu
    obtain ⟨fresh, -, rfl⟩ := List.mem_map.1 (List.mem_of_getElem? hu)
    have hmem : r ∈ references fresh.unit :=
      List.mem_flatMap.2 ⟨d, List.mem_of_getElem? hd, List.mem_of_getElem? hk⟩
    rw [fresh.unbound r hmem] at ht
    cases ht

theorem Named.resolve (h : Named b) : Named (resolve b).1 := by
  intro p r' t hr' ht
  have hbatch : (Batch.resolve b).1 = mapPlaces (fun _ => bindReference (.ofUnits b)) b :=
    map_resolveUnit
  obtain ⟨d, hd, hname⟩ : ∃ d, declarationAt? b t = some d ∧ d.name = r'.unqualifiedName := by
    rw [hbatch, referenceAt?_mapPlaces] at hr'
    obtain ⟨u, hu, hr'⟩ := Option.bind_eq_some_iff.1 hr'
    obtain ⟨r, hr, rfl⟩ := Option.map_eq_some_iff.1 hr'
    cases hbound : r.isBound with
    | true =>
      rw [bindReference_of_isBound hbound] at ht ⊢
      exact h p r t hr ht
    | false =>
      rw [bindReference_of_unbound hbound] at ht ⊢
      obtain ⟨M, ident, hpoints, hfirst⟩ := resolve?_eq_some_iff.1 ht
      rw [hpoints.unqualifiedName_eq]
      exact hfirst.declares.declarationAt?
  obtain ⟨d', hd', hname'⟩ := declarationAt?_mapPlaces hd
  rw [hbatch]
  exact ⟨d', hd', hname'.trans hname⟩

theorem Named.foldl_step : ∀ (ops : List Op) {b : List SourceUnit}, Named b →
    Named (ops.foldl step b)
  | [], _, h => h
  | .append us :: ops, _, h => Named.foldl_step ops (h.append us)
  | .resolve :: ops, _, h => Named.foldl_step ops h.resolve

/-- **Resolving in between makes no difference.**  Whatever was resolved before,
    a resolution gives the batch and the statistics that it would give if all
    units had been appended first; a reference that is bound stays as it is; every
    target is a declaration of the right name; and to resolve again changes
    nothing. -/
theorem resolve_run (ops : List Op) :
    resolve (run ops) = resolve (appended ops) ∧
    (∀ before after, ops = before ++ after → ∀ p r, referenceAt? (run before) p = some r →
      r.isBound = true → referenceAt? (run ops) p = some r) ∧
    (∀ p r t, referenceAt? (run ops) p = some r → r.target = some t →
      ∃ d, declarationAt? (run ops) t = some d ∧ d.name = r.unqualifiedName) ∧
    resolve (resolve (run ops)).1 = resolve (run ops) := by
  refine ⟨?_, ?_, ?_, resolve_resolve _⟩
  · exact (Settles.foldl_step ops (.refl [])).resolve_eq
  · rintro before after rfl p r hr hbound
    rw [run, List.foldl_append]
    exact referenceAt?_foldl_step after hr hbound
  · refine Named.foldl_step ops ?_
    intro p r t hr
    cases hr

/-- A unit with two names that are not bound. -/
def FreshUnit.ofNames (dir name key value : String) : FreshUnit where
  unit := mapUnit dir name (.unbound key) (.unbound value)
  unbound r hr := by
    rcases List.mem_cons.1 hr with rfl | hr
    · rfl
    · rw [List.mem_singleton.1 hr]
      rfl

/-- A batch that is resolved whenever a unit has come: `a.A` stays unbound until there is
    a unit of the module that it points into, and keeps its target when the next one
    declares the name again; `error` is declared nowhere. -/
theorem resolve_run_thrice :
    let user := FreshUnit.ofNames "b" "B" "a.A" "error"
    let used := FreshUnit.ofNames "a" "A" "A" "A"
    let ops : List Op :=
      [.append [user], .resolve, .append [used], .resolve, .append [used], .resolve]
    referenceAt? (run (ops.take 2)) ⟨0, 0, 0⟩ = some ⟨"a.A", none⟩ ∧
      referenceAt? (run (ops.take 4)) ⟨0, 0, 0⟩ = some ⟨"a.A", some ⟨1, 0⟩⟩ ∧
      referenceAt? (run ops) ⟨0, 0, 0⟩ = some ⟨"a.A", some ⟨1, 0⟩⟩ ∧
      referenceAt? (run ops) ⟨0, 0, 1⟩ = some ⟨"error", none⟩ ∧
      (∃ d, declarationAt? (run ops) ⟨1, 0⟩ = some d ∧ d.name = "A") ∧
      resolve (run ops) = resolve [user.unit, used.unit, used.unit] := by
  intro user used ops
  -- a batch that is resolved is searched with all units that came before
  have resolved (before : List Op) (p : Place) (u : SourceUnit) (name : String)
      (hu : (appended before)[p.unit]? = some u)
      (hr : referenceAt? (appended before) p = some (.unbound name)) :
      referenceAt? (run (before ++ [.resolve])) p =
        some ⟨name, (target? u name).bind fun t => scan? t.1 t.2 0 (appended before)⟩ := by
    have hrun : run (before ++ [.resolve]) = (resolve (appended before)).1 := by
      rw [run, List.foldl_append]
      exact congrArg Prod.fst (resolve_run before).1
    rw [hrun, referenceAt?_resolve hu hr, bindReference_of_unbound rfl, resolve?_ofUnits]
    rfl
  have hfirst : referenceAt? (run (ops.take 2)) ⟨0, 0, 0⟩ = some ⟨"a.A", none⟩ :=
    resolved (ops.take 1) ⟨0, 0, 0⟩ user.unit "a.A" rfl rfl
  have hsecond : referenceAt? (run (ops.take 4)) ⟨0, 0, 0⟩ = some ⟨"a.A", some ⟨1, 0⟩⟩ :=
    resolved (ops.take 3) ⟨0, 0, 0⟩ user.unit "a.A" rfl rfl
  have herror : referenceAt? (run ops) ⟨0, 0, 1⟩ = some ⟨"error", none⟩ :=
    resolved (ops.take 5) ⟨0, 0, 1⟩ user.unit "error" rfl rfl
  obtain ⟨honce, hkept, hnamed, -⟩ := resolve_run ops
  have hthird := hkept (ops.take 4) (ops.drop 4) rfl _ _ hsecond rfl
  exact ⟨hfirst, hsecond, hthird, herror, hnamed _ _ _ hthird rfl, honce⟩

end GoDecls.Batch
