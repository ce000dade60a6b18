/-
  Binding the references of a batch one after another.

  * `visit` binds the reference at one place and counts it;
  * `foldl_visit`: after any visits, the references at the visited places are
    bound, and no others;
  * `foldl_visit_eq_resolve`: to visit all references once, in whatever order,
    is `resolve`.
-/
import GoDecls.Proofs.Batch.Places

namespace GoDecls.Batch

open Model

variable {ix : DeclIndex} {units : List SourceUnit} {p : Place} {u : SourceUnit} {r : Reference}

/-! ## Binding a reference -/

theorem bindReference_of_isBound (h : r.isBound = true) : bindReference ix u r = r :=
  if_pos h

theorem bindReference_of_unbound (h : r.isBound = false) :
    bindReference ix u r = ⟨r.name, ix.resolve? u r.name⟩ :=
  if_neg (by rw [h]; exact Bool.false_ne_true)

/-- To bind a second time changes nothing. -/
theorem bindReference_bindReference :
    bindReference ix u (bindReference ix u r) = bindReference ix u r := by
  cases h : r.isBound with
  | true => rw [bindReference_of_isBound h, bindReference_of_isBound h]
  | false =>
    rw [bindReference_of_unbound h, bindReference]
    split <;> rfl

/-- To bind the references of a batch is to change each by itself. -/
theorem map_resolveUnit : units.map (resolveUnit ix) = mapPlaces (fun _ => bindReference ix) units :=
  (mapPlaces_eq_map (bindReference ix) units).symm

/-- A reference after resolving is one from before, bound. -/
theorem referenceAt?_resolve_eq_some_iff {s : Reference} :
    referenceAt? (resolve units).1 p = some s ↔ ∃ u r, units[p.unit]? = some u ∧
      referenceAt? units p = some r ∧ bindReference (.ofUnits units) u r = s := by
  show referenceAt? (units.map _) p = _ ↔ _
  rw [map_resolveUnit, referenceAt?_mapPlaces]
  simp only [Option.bind_eq_some_iff, Option.map_eq_some_iff, exists_and_left]

theorem referenceAt?_resolve (hu : units[p.unit]? = some u) (h : referenceAt? units p = some r) :
    referenceAt? (resolve units).1 p = some (bindReference (.ofUnits units) u r) :=
  referenceAt?_resolve_eq_some_iff.2 ⟨u, r, hu, h, rfl⟩

/-! ## Visits -/

/-- Binds the reference at the place, and counts it. -/
def visit (ix : DeclIndex) (s : List SourceUnit × Stats) (p : Place) : List SourceUnit × Stats :=
  let units := mapPlaces (fun q u r => if q = p then bindReference ix u r else r) s.1
  let isBound := (referenceAt? units p).any (·.isBound)
  (units, ⟨s.2.references + 1, s.2.resolved + isBound.toNat⟩)

/-- The batch with the references at the places bound. -/
def boundAt (ix : DeclIndex) (ps : List Place) (units : List SourceUnit) : List SourceUnit :=
  mapPlaces (fun q u r => if q ∈ ps then bindReference ix u r else r) units

theorem visit_boundAt (ps : List Place) (s : Stats) :
    visit ix (boundAt ix ps units, s) p =
      (boundAt ix (ps ++ [p]) units, ⟨s.references + 1, s.resolved +
        ((referenceAt? (mapPlaces (fun _ => bindReference ix) units) p).any (·.isBound)).toNat⟩) := by
  have hunits : mapPlaces (fun q u r => if q = p then bindReference ix u r else r)
      (boundAt ix ps units) = boundAt ix (ps ++ [p]) units := by
    rw [boundAt, mapPlaces_mapPlaces, boundAt]
    · refine mapPlaces_congr fun q u r _ _ => ?_
      by_cases hq : q = p
      · -- the place may have been visited before; to bind it again changes nothing
        subst hq
        by_cases hps : q ∈ ps
        · simp [hps, bindReference_bindReference]
        · simp [hps]
      · simp [hq]
    · exact fun _ _ _ _ => rfl
  have hat : (referenceAt? (boundAt ix (ps ++ [p]) units) p) =
      referenceAt? (mapPlaces (fun _ => bindReference ix) units) p := by
    simp [boundAt, referenceAt?_mapPlaces]
  rw [visit, hunits, hat]

/-- **Visits bind what they visit**, and nothing else. -/
theorem foldl_visit : ∀ (order ps : List Place) (s : Stats),
    order.foldl (visit ix) (boundAt ix ps units, s) =
      (boundAt ix (ps ++ order) units, ⟨s.references + order.length, s.resolved +
        order.countP fun p =>
          (referenceAt? (mapPlaces (fun _ => bindReference ix) units) p).any (·.isBound)⟩)
  | [], ps, s => by simp
  | p :: order, ps, s => by
    rw [List.foldl_cons, visit_boundAt, foldl_visit order, List.append_assoc, List.singleton_append,
      List.countP_cons, List.length_cons, Nat.add_assoc, Nat.add_assoc, Nat.add_comm 1,
      Nat.add_comm (Bool.toNat _)]
    cases (referenceAt? (mapPlaces (fun _ => bindReference ix) units) p).any (·.isBound) <;> rfl

/-- **To visit every reference once, in any order, is to resolve the batch.** -/
theorem foldl_visit_eq_resolve {order : List Place} (h : order.Perm (places units)) :
    order.foldl (visit (.ofUnits units)) (units, ⟨0, 0⟩) = resolve units := by
  have hstart : boundAt (.ofUnits units) [] units = units := by simp [boundAt, mapPlaces_id]
  have hall : boundAt (.ofUnits units) order units =
      mapPlaces (fun _ => bindReference (.ofUnits units)) units :=
    mapPlaces_congr fun p u r _ hr => if_pos (h.mem_iff.2 (mem_places hr))
  have hrun : order.foldl (visit (.ofUnits units)) (boundAt (.ofUnits units) [] units, ⟨0, 0⟩) = _ :=
    foldl_visit order [] ⟨0, 0⟩
  rw [hstart, List.nil_append, hall, h.length_eq, h.countP_eq] at hrun
  rw [hrun, resolve, map_resolveUnit, stats_eq_places, places_mapPlaces, Nat.zero_add, Nat.zero_add]

end GoDecls.Batch
