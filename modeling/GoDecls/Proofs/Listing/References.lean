/-
  What the listings of a batch show of its references.

  * `Shown rs text`: the text is made of words and of the references `rs`, in this order.
    `shapeText_shown`: so is the text of a shape of its references, in the order in which
    they are met;
  * `forall₂_unboundReferences`: the entries of the other listing are those of the places at
    which an unbound reference stands, in order;
  * `views_agree`: after the references of parsed units are bound, both listings tell of the
    same references: as many entries as the summary counts, and every target that is shown
    is in the batch.
-/
import Mathlib.Data.List.Forall2
import GoDecls.CommandLine
import GoDecls.Proofs.Batch.Resolution
import GoDecls.Proofs.Model.Unbound

namespace GoDecls.Listing

open Model Batch

/-! ## Words and references -/

/-- A piece of a listed shape: words, or a reference. -/
inductive Piece where
  | words (s : String)
  | reference (r : Reference)

namespace Piece

/-- The text of a piece. -/
def text (units : List SourceUnit) : Piece → String
  | .words s => s
  | .reference r => referenceText units r

/-- The reference that a piece is. -/
def reference? : Piece → Option Reference
  | .words _ => none
  | .reference r => some r

end Piece

/-- The text is made of words and the references, in order: whatever the batch is in which
    their targets are looked up, the pieces are the same. -/
def Shown (rs : List Reference) (text : List SourceUnit → String) : Prop :=
  ∃ ps : List Piece, (∀ units, text units = String.join (ps.map (·.text units))) ∧
    ps.filterMap (·.reference?) = rs

namespace Shown

variable {rs ss : List Reference} {f g : List SourceUnit → String}

theorem words (s : String) : Shown [] fun _ => s :=
  ⟨[.words s], fun _ => by simp [Piece.text], rfl⟩

theorem reference (r : Reference) : Shown [r] (referenceText · r) :=
  ⟨[.reference r], fun _ => by simp [Piece.text], rfl⟩

theorem append (hf : Shown rs f) (hg : Shown ss g) :
    Shown (rs ++ ss) fun units => f units ++ g units := by
  obtain ⟨ps, hps, rfl⟩ := hf
  obtain ⟨qs, hqs, rfl⟩ := hg
  refine ⟨ps ++ qs, fun units => ?_, List.filterMap_append⟩
  dsimp only
  rw [hps, hqs, List.map_append, String.join_append]

theorem before (s : String) (hf : Shown rs f) : Shown rs fun units => s ++ f units :=
  (words s).append hf

theorem behind (hf : Shown rs f) (s : String) : Shown rs fun units => f units ++ s := by
  have h := hf.append (words s)
  rwa [List.append_nil] at h

/-- A part that is left out if there is nothing in it. -/
theorem orEmpty (b : Bool) (hb : b = true → rs = []) (hf : Shown rs f) :
    Shown rs fun units => if b then "" else f units := by
  cases b with
  | true => exact hb rfl ▸ words ""
  | false => exact hf

end Shown

mutual

/-- **The text of a shape shows its references**, in the order in which they are met. -/
theorem shapeText_shown : ∀ s : Shape, Shown s.references (shapeText · s)
  | .native name => .words name
  | .reference r => .reference r
  | .struct fields => by
    simp only [shapeText, inBraces, Shape.references]
    exact (((fieldTexts_shown ";" fields).before _).behind _).before _
  | .interface methods incomplete => by
    simp only [shapeText, inBraces, Shape.references]
    exact ((((fieldTexts_shown ";" methods).behind _).before _).behind _).before _
  | .map key value => by
    simp only [shapeText, Shape.references]
    exact (((shapeText_shown key).before _).behind _).append (shapeText_shown value)
  | .array _ _ elem => by
    simp only [shapeText, Shape.references]
    exact (shapeText_shown elem).before _
  | .pointer elem => by
    simp only [shapeText, Shape.references]
    exact (shapeText_shown elem).before _
  | .channel _ elem => by
    simp only [shapeText, Shape.references]
    exact (shapeText_shown elem).before _
  | .function typeParams params results => by
    simp only [shapeText, Shape.references]
    have htypeParams := (((fieldTexts_shown "," typeParams).before "[").behind " ]").orEmpty
      typeParams.isEmpty fun h => by rw [List.isEmpty_iff.1 h]; rfl
    have hresults := (((fieldTexts_shown "," results).before " (").behind " )").orEmpty
      results.isEmpty fun h => by rw [List.isEmpty_iff.1 h]; rfl
    have hparams := ((htypeParams.before "func").behind "(").append (fieldTexts_shown "," params)
    exact (hparams.behind " )").append hresults

theorem fieldText_shown : ∀ f : Field, Shown f.references (fieldText · f)
  | ⟨names, _, type, tags⟩ => by
    simp only [fieldText, Field.references]
    exact ((shapeText_shown type).before _).behind _

theorem fieldTexts_shown (sep : String) : ∀ fs : List Field,
    Shown (Field.referencesOf fs) fun units => sep.intercalate (fieldTexts units fs)
  | [] => .words ""
  | [f] => by
    simp only [fieldTexts, String.intercalate_singleton, Field.referencesOf, List.append_nil]
    exact fieldText_shown f
  | f :: g :: fs => by
    simp only [fieldTexts, String.intercalate_cons_cons, Field.referencesOf]
    exact ((fieldText_shown f).behind sep).append (fieldTexts_shown sep (g :: fs))

end

/-! ## Targets -/

variable {units : List SourceUnit}

theorem referenceText_of_unbound {r : Reference} (h : r.target = none) :
    referenceText units r = r.name := by
  rw [referenceText, h, Option.map_none, Option.getD_none, String.append_empty]

/-- A target in the batch is shown by its module and its name. -/
theorem referenceText_of_bound {r : Reference} {t : DeclRef} {u : SourceUnit} {d : Declaration}
    (h : r.target = some t) (hu : units[t.unit]? = some u) (hd : u.declarations[t.decl]? = some d) :
    referenceText units r = r.name ++ (" -> " ++ u.module.fullName ++ "." ++ d.name) := by
  have hat : declarationAt? units t = some d := Option.bind_eq_some_iff.2 ⟨u, hu, hd⟩
  rw [referenceText, h, Option.map_some, Option.getD_some, targetText, hu, hat]
  rfl

/-- A reference of a unit stands at a place of the batch. -/
theorem exists_referenceAt? {u : SourceUnit} {d : Declaration} {r : Reference} (hu : u ∈ units)
    (hd : d ∈ u.declarations) (hr : r ∈ d.references) : ∃ p, referenceAt? units p = some r := by
  obtain ⟨i, hi⟩ := List.mem_iff_getElem?.1 hu
  obtain ⟨j, hj⟩ := List.mem_iff_getElem?.1 hd
  obtain ⟨k, hk⟩ := List.mem_iff_getElem?.1 hr
  exact ⟨⟨i, j, k⟩, referenceAt?_eq_some_iff.2 ⟨u, d, hi, hj, hk⟩⟩

/-- **Every target is in the batch**, if no reference was bound before. -/
theorem declarationAt?_of_target (hunbound : ∀ r ∈ units.flatMap references, r.target = none)
    {r : Reference} (hr : r ∈ (resolve units).1.flatMap references) {t : DeclRef}
    (ht : r.target = some t) : ∃ d, declarationAt? (resolve units).1 t = some d := by
  obtain ⟨u, hu, hr⟩ := List.mem_flatMap.1 hr
  obtain ⟨d, hd, hr⟩ := List.mem_flatMap.1 hr
  obtain ⟨p, hp⟩ := exists_referenceAt? hu hd hr
  obtain ⟨v, s, hv, hs, rfl⟩ := referenceAt?_resolve_eq_some_iff.1 hp
  obtain ⟨w, e, hw, he, hk⟩ := referenceAt?_eq_some_iff.1 hs
  have hs_none : s.target = none := hunbound s <| List.mem_flatMap.2 ⟨w, List.mem_of_getElem? hw,
    List.mem_flatMap.2 ⟨e, List.mem_of_getElem? he, List.mem_of_getElem? hk⟩⟩
  exact declarationAt?_bindReference hs_none ht

/-! ## Entries -/

/-- The entry of the place, if an unbound reference stands there. -/
def entryAt? (units : List SourceUnit) (p : Place) : Option Unbound :=
  units[p.unit]?.bind fun u => u.declarations[p.decl]?.bind fun d =>
    d.references[p.number]?.bind fun r =>
      if r.isBound then none else some ⟨u.filename, d.name, r.name⟩

/-- One place comes before another: in a unit before, or in a declaration before in the same
    unit, or before in the same declaration. -/
def Before (p q : Place) : Prop :=
  p.unit < q.unit ∨ p.unit = q.unit ∧ (p.decl < q.decl ∨ p.decl = q.decl ∧ p.number < q.number)

theorem entryAt?_eq_some_iff {p : Place} {e : Unbound} : entryAt? units p = some e ↔
    ∃ u d r, units[p.unit]? = some u ∧ u.declarations[p.decl]? = some d ∧
      d.references[p.number]? = some r ∧ r.isBound = false ∧ e = ⟨u.filename, d.name, r.name⟩ := by
  simp only [entryAt?, Option.bind_eq_some_iff]
  constructor
  · rintro ⟨u, hu, d, hd, r, hr, h⟩
    split at h
    · cases h
    · next hbound =>
      cases h
      exact ⟨u, d, r, hu, hd, hr, Bool.eq_false_iff.2 hbound, rfl⟩
  · rintro ⟨u, d, r, hu, hd, hr, hbound, rfl⟩
    exact ⟨u, hu, d, hd, r, hr, if_neg (by rw [hbound]; exact Bool.false_ne_true)⟩

theorem isSome_entryAt?_iff {p : Place} : (entryAt? units p).isSome = true ↔
    ∃ r, referenceAt? units p = some r ∧ r.isBound = false := by
  simp only [Option.isSome_iff_exists, entryAt?_eq_some_iff, referenceAt?_eq_some_iff]
  constructor
  · rintro ⟨_, u, d, r, hu, hd, hr, hbound, rfl⟩
    exact ⟨r, ⟨u, d, hu, hd, hr⟩, hbound⟩
  · rintro ⟨r, ⟨u, d, hu, hd, hr⟩, hbound⟩
    exact ⟨_, u, d, r, hu, hd, hr, hbound, rfl⟩

/-! ### Order -/

theorem pairwise_flatten_mapIdx {α β : Type} {R : β → β → Prop} {f : Nat → α → List β} {l : List α}
    (hin : ∀ i a, l[i]? = some a → (f i a).Pairwise R)
    (hout : ∀ i j a b, i < j → ∀ x ∈ f i a, ∀ y ∈ f j b, R x y) :
    (l.mapIdx f).flatten.Pairwise R := by
  refine List.pairwise_flatten.2 ⟨fun row hrow => ?_, ?_⟩
  · obtain ⟨i, hi, rfl⟩ := List.mem_mapIdx.1 hrow
    exact hin i _ (List.getElem?_eq_getElem hi)
  · refine List.pairwise_iff_getElem.2 fun i j hi hj hij => ?_
    rw [List.getElem_mapIdx, List.getElem_mapIdx]
    exact hout i j _ _ hij

theorem unit_of_mem_unitPlaces {i : Nat} {ds : List Declaration} {p : Place}
    (h : p ∈ unitPlaces i ds) : p.unit = i := by
  rw [unitPlaces] at h
  obtain ⟨row, hrow, hp⟩ := List.mem_flatten.1 h
  obtain ⟨j, hj, rfl⟩ := List.mem_mapIdx.1 hrow
  obtain ⟨k, -, rfl⟩ := List.mem_map.1 hp
  rfl

/-- The places of a batch come in order. -/
theorem places_ordered (units : List SourceUnit) : (places units).Pairwise Before := by
  refine pairwise_flatten_mapIdx (fun i u _ => ?_) fun i j u v hij p hp q hq => ?_
  · refine pairwise_flatten_mapIdx (fun j d _ => ?_) fun j k d e hjk p hp q hq => ?_
    · exact List.pairwise_map.2 (List.pairwise_lt_range.imp fun h => .inr ⟨rfl, .inr ⟨rfl, h⟩⟩)
    · obtain ⟨_, -, rfl⟩ := List.mem_map.1 hp
      obtain ⟨_, -, rfl⟩ := List.mem_map.1 hq
      exact .inr ⟨rfl, .inl hjk⟩
  · refine .inl ?_
    rwa [unit_of_mem_unitPlaces hp, unit_of_mem_unitPlaces hq]

/-! ### Entries and places -/

theorem filterMap_range_getElem? {α β : Type} (l : List α) (f : α → Option β) :
    ((List.range l.length).filterMap fun k => l[k]?.bind f) = l.filterMap f := by
  have hrange : (List.range l.length).map (l[·]?) = l.map some := by
    refine List.ext_getElem? fun k => ?_
    by_cases hk : k < l.length
    · simp [hk]
    · simp [hk]
  have h := congrArg (List.filterMap (·.bind f)) hrange
  rwa [List.filterMap_map, List.filterMap_map] at h

theorem filterMap_entryAt?_decl {u : SourceUnit} {d : Declaration} {i j : Nat}
    (hu : units[i]? = some u) (hd : u.declarations[j]? = some d) :
    ((List.range d.references.length).map (⟨i, j, ·⟩)).filterMap (entryAt? units) =
      (d.references.filter (!·.isBound)).map fun r => ⟨u.filename, d.name, r.name⟩ := by
  have hplaces : entryAt? units ∘ (⟨i, j, ·⟩) = fun k => d.references[k]?.bind fun r =>
      if r.isBound then none else some ⟨u.filename, d.name, r.name⟩ := by
    funext k
    simp only [Function.comp_apply, entryAt?, hu, hd, Option.bind_some]
  rw [List.filterMap_map, hplaces, filterMap_range_getElem?, ← List.filterMap_eq_map,
    List.filterMap_filter]
  refine List.filterMap_congr fun r _ => ?_
  cases r.isBound <;> rfl

/-- The entries of the listing are those of the places of references. -/
theorem filterMap_entryAt? (units : List SourceUnit) :
    (places units).filterMap (entryAt? units) = unboundReferences units := by
  rw [places, List.filterMap_flatten, unboundReferences, List.flatMap_def]
  congr 1
  refine List.ext_getElem? fun i => ?_
  rw [List.getElem?_map, List.getElem?_mapIdx, List.getElem?_map, Option.map_map]
  cases hu : units[i]? with
  | none => rfl
  | some u =>
    refine congrArg some ?_
    change (unitPlaces i u.declarations).filterMap (entryAt? units) = u.declarations.flatMap _
    rw [unitPlaces, List.filterMap_flatten, List.flatMap_def]
    congr 1
    refine List.ext_getElem? fun j => ?_
    rw [List.getElem?_map, List.getElem?_mapIdx, List.getElem?_map, Option.map_map]
    cases hd : u.declarations[j]? with
    | none => rfl
    | some d => exact congrArg some (filterMap_entryAt?_decl hu hd)

theorem forall₂_filterMap {α β : Type} {f : α → Option β} (l : List α) :
    List.Forall₂ (fun a b => f a = some b) (l.filter fun a => (f a).isSome) (l.filterMap f) := by
  induction l with
  | nil => exact .nil
  | cons a l ih =>
    cases h : f a with
    | none => simpa [h] using ih
    | some b => simpa [h] using ih

/-- **One entry for every unbound reference**, in the order of their places. -/
theorem forall₂_unboundReferences (units : List SourceUnit) : ∃ ps : List Place,
    ps.Pairwise Before ∧
    (∀ p, p ∈ ps ↔ ∃ r, referenceAt? units p = some r ∧ r.isBound = false) ∧
    List.Forall₂ (fun p e => entryAt? units p = some e) ps (unboundReferences units) := by
  refine ⟨(places units).filter fun p => (entryAt? units p).isSome,
    (places_ordered units).filter _, fun p => ?_, ?_⟩
  · rw [List.mem_filter, isSome_entryAt?_iff, and_iff_right_iff_imp]
    rintro ⟨r, hr, -⟩
    exact mem_places hr
  · rw [← filterMap_entryAt?]
    exact forall₂_filterMap _

/-- There are as many entries as the statistics count unbound references. -/
theorem length_unboundReferences (units : List SourceUnit) :
    (unboundReferences units).length = (stats units).unresolved := by
  have hcount : (unboundReferences units).length =
      (units.flatMap references).countP fun r => !r.isBound := by
    simp only [unboundReferences, references, List.length_flatMap, List.countP_flatMap,
      List.length_map, ← List.countP_eq_length_filter, Function.comp_def]
  have hall := (units.flatMap references).length_eq_countP_add_countP (·.isBound)
  simp only [Bool.not_eq_true, Bool.decide_eq_false] at hall
  rw [hcount, Stats.unresolved, stats]
  dsimp only
  omega

/-! ## The two listings -/

/-- The text of a reference in the batch: its name, and behind it, if it is bound, the module
    and the name of its target, which is in the batch. -/
def ShowsTarget (units : List SourceUnit) (r : Reference) (text : String) : Prop :=
  r.target = none ∧ text = r.name ∨ ∃ t u d, r.target = some t ∧ units[t.unit]? = some u ∧
    u.declarations[t.decl]? = some d ∧
    text = r.name ++ (" -> " ++ u.module.fullName ++ "." ++ d.name)

theorem showsTarget_of_resolve (hunbound : ∀ r ∈ units.flatMap references, r.target = none)
    {r : Reference} (hr : r ∈ (resolve units).1.flatMap references) :
    ShowsTarget (resolve units).1 r (referenceText (resolve units).1 r) := by
  cases ht : r.target with
  | none => exact .inl ⟨ht, referenceText_of_unbound ht⟩
  | some t =>
    obtain ⟨d, hat⟩ := declarationAt?_of_target hunbound hr ht
    obtain ⟨u, hu, hd⟩ := Option.bind_eq_some_iff.1 hat
    exact .inr ⟨t, u, d, ht, hu, hd, referenceText_of_bound ht hu hd⟩

/-- The references of parsed units are unbound. -/
theorem unbound_of_parsed (hparsed : ∀ u ∈ units, ∃ text filename module,
    SourceUnit.ofText text filename module = .ok u) :
    ∀ r ∈ units.flatMap references, r.target = none := by
  intro r hr
  obtain ⟨u, hu, hr⟩ := List.mem_flatMap.1 hr
  obtain ⟨d, hd, hr⟩ := List.mem_flatMap.1 hr
  obtain ⟨_, _, _, hu⟩ := hparsed u hu
  exact SourceUnit.unbound_of_ofText hu d hd r hr

/-! ### The texts -/

theorem unlines_cons (line : String) (lines : List String) :
    unlines (line :: lines) = line ++ "\n" ++ unlines lines := by
  rw [unlines, List.map_cons, String.join_cons]
  rfl

theorem unlines_append (front back : List String) :
    unlines (front ++ back) = unlines front ++ unlines back := by
  rw [unlines, List.map_append, String.join_append]
  rfl

theorem unlines_map {α : Type} (line : α → String) (l : List α) :
    unlines (l.map line) = String.join (l.map fun a => line a ++ "\n") := by
  rw [unlines, List.map_map]
  rfl

theorem unlines_flatMap {α : Type} (lines : α → List String) (l : List α) :
    unlines (l.flatMap lines) = String.join (l.map fun a => unlines (lines a)) := by
  induction l with
  | nil => rfl
  | cons a l ih => rw [List.flatMap_cons, unlines_append, ih, List.map_cons, String.join_cons]

/-- The text that is written for a unit. -/
theorem unlines_unitLines (onlyPublic : Bool) (u : SourceUnit) :
    unlines (unitLines onlyPublic units u) =
      u.filename ++ " (module " ++ Text.escaped u.module.fullName ++ ", package " ++ u.package ++
        ")\n" ++
      String.join ((u.declarations.filter fun d => !onlyPublic || d.isPublic).map fun d =>
        "  type " ++ d.name ++ " " ++ shapeText units d.type ++ "\n" ++
          String.join (d.tags.entries.map fun e =>
            "    @" ++ e.1 ++ ": " ++ Text.escaped e.2.text ++ "\n")) := by
  have hdecl : ∀ d, unlines (declarationLines units d) =
      "  type " ++ d.name ++ " " ++ shapeText units d.type ++ "\n" ++
        String.join (d.tags.entries.map fun e =>
          "    @" ++ e.1 ++ ": " ++ Text.escaped e.2.text ++ "\n") := by
    intro d
    rw [declarationLines, unlines_cons, unlines_map]
  have hline : unitLine u ++ "\n" = u.filename ++ " (module " ++ Text.escaped u.module.fullName ++
      ", package " ++ u.package ++ ")\n" := by
    simp only [unitLine, String.append_assoc]
    rfl
  rw [unitLines, unlines_cons, unlines_flatMap, hline]
  simp only [hdecl]

/-- **The two views of a batch agree.**  Once the references of parsed units are bound, the
    listing of unbound references is a line `file: declaration -> reference` for each of them, in
    the order of their places; there are as many as the last line of the other listing counts.
    That listing has a line for each declaration, which shows its references, in order, each
    with a target that is in the batch.  One of the two is what the program writes when its
    arguments ask for a listing. -/
theorem views_agree (hparsed : ∀ u ∈ units, ∃ text filename module,
    SourceUnit.ofText text filename module = .ok u) :
    let bound := (resolve units).1
    let stats := (resolve units).2
    ∃ entries : List Unbound,
      ofUnbound bound = String.join (entries.map fun e =>
        e.filename ++ ": " ++ e.declaration ++ " -> " ++ e.reference ++ "\n") ∧
      entries.length = stats.unresolved ∧
      (∀ onlyPublic, ofUnits onlyPublic bound stats =
        String.join (bound.map fun u =>
          u.filename ++ " (module " ++ Text.escaped u.module.fullName ++ ", package " ++ u.package ++
            ")\n" ++
          String.join ((u.declarations.filter fun d => !onlyPublic || d.isPublic).map fun d =>
            "  type " ++ d.name ++ " " ++ shapeText bound d.type ++ "\n" ++
              String.join (d.tags.entries.map fun e =>
                "    @" ++ e.1 ++ ": " ++ Text.escaped e.2.text ++ "\n"))) ++
        (toString units.length ++ " files, " ++ toString (units.flatMap references).length ++
          " references, " ++ toString entries.length ++ " unresolved\n")) ∧
      (∃ ps : List Place, ps.Pairwise Before ∧
        (∀ p, p ∈ ps ↔ ∃ r, referenceAt? bound p = some r ∧ r.isBound = false) ∧
        List.Forall₂ (fun p e => entryAt? bound p = some e) ps entries) ∧
      (∀ u ∈ bound, ∀ d ∈ u.declarations, Shown d.references (shapeText · d.type) ∧
        ∀ r ∈ d.references, ShowsTarget bound r (referenceText bound r)) ∧
      ∀ root cwd args dir o, CommandLine.Request.ofArgs args = .ok (.list dir o) →
        Files.loadDirectory root ⟨o.modules, o.tests⟩ (cwd.resolve dir) = .ok units →
        CommandLine.run root cwd args =
          ⟨0, if o.unbound then ofUnbound bound else ofUnits o.onlyPublic bound stats, ""⟩ := by
  intro bound stats
  have hcount : (unboundReferences bound).length = stats.unresolved :=
    length_unboundReferences bound
  refine ⟨unboundReferences bound, ?_, hcount, fun onlyPublic => ?_,
    forall₂_unboundReferences bound, fun u hu d hd => ⟨shapeText_shown d.type, fun r hr => ?_⟩,
    fun root cwd args dir o hargs hload => ?_⟩
  · rw [ofUnbound, unlines_map]
    rfl
  · have hfiles : bound.length = units.length := List.length_map _
    have hreferences : stats.references = (units.flatMap references).length :=
      references_resolve units
    have hsummary : unlines [summaryLine bound stats] =
        toString units.length ++ " files, " ++ toString (units.flatMap references).length ++
          " references, " ++ toString (unboundReferences bound).length ++ " unresolved\n" := by
      rw [unlines_cons, summaryLine, hfiles, hreferences, hcount]
      simp only [unlines, List.map_nil, String.join_nil, String.append_empty, String.append_assoc]
      rfl
    rw [ofUnits, unlines_append, unlines_flatMap, hsummary]
    simp only [unlines_unitLines]
  · exact showsTarget_of_resolve (unbound_of_parsed hparsed)
      (List.mem_flatMap.2 ⟨u, hu, List.mem_flatMap.2 ⟨d, hd, hr⟩⟩)
  · rw [CommandLine.run, hargs]
    change CommandLine.list root cwd dir o = _
    rw [CommandLine.list, hload]

/-- Two files of a module, the second of which imports the first: references in a struct, in a
    generic function and in a map, some of them without a target. -/
theorem views_agree_two :
    let first := "package a\n\ntype A struct \x7b\n\tB *B\n\terror\n\x7d\n\ntype B int\n"
    let second := "package b\nimport \"m/a\"\n\ntype F[T any] func(a.A, map[T]a.C) []F\n"
    ∃ u v, SourceUnit.ofText first "a.go" ⟨"m", "a"⟩ = .ok u ∧
      SourceUnit.ofText second "b.go" ⟨"m", "b"⟩ = .ok v ∧
      [u, v].map (fun w => (references w).map (·.name)) =
        [["B", "error"], ["any", "a.A", "T", "a.C", "F"]] ∧
      ∃ entries : List Unbound,
        ofUnbound (resolve [u, v]).1 = String.join (entries.map fun e =>
          e.filename ++ ": " ++ e.declaration ++ " -> " ++ e.reference ++ "\n") ∧
        entries.length = (resolve [u, v]).2.unresolved ∧
        ∀ w ∈ (resolve [u, v]).1, ∀ d ∈ w.declarations, Shown d.references (shapeText · d.type) ∧
          ∀ r ∈ d.references,
            ShowsTarget (resolve [u, v]).1 r (referenceText (resolve [u, v]).1 r) := by
  intro first second
  have hfirst : ((SourceUnit.ofText first "a.go" ⟨"m", "a"⟩).toOption.map fun u =>
      (references u).map (·.name)) = some ["B", "error"] := by
    decide +kernel
  have hsecond : ((SourceUnit.ofText second "b.go" ⟨"m", "b"⟩).toOption.map fun u =>
      (references u).map (·.name)) = some ["any", "a.A", "T", "a.C", "F"] := by
    decide +kernel
  cases hu : SourceUnit.ofText first "a.go" ⟨"m", "a"⟩ with
  | error e =>
    rw [hu] at hfirst
    cases hfirst
  | ok u =>
    cases hv : SourceUnit.ofText second "b.go" ⟨"m", "b"⟩ with
    | error e =>
      rw [hv] at hsecond
      cases hsecond
    | ok v =>
      rw [hu] at hfirst
      rw [hv] at hsecond
      have hnames : (references u).map (·.name) = ["B", "error"] := Option.some.inj hfirst
      have hnames' : (references v).map (·.name) = ["any", "a.A", "T", "a.C", "F"] :=
        Option.some.inj hsecond
      have hparsed : ∀ w ∈ [u, v], ∃ text filename module,
          SourceUnit.ofText text filename module = .ok w :=
        List.forall_mem_cons.2 ⟨⟨_, _, _, hu⟩, List.forall_mem_singleton.2 ⟨_, _, _, hv⟩⟩
      obtain ⟨entries, htext, hcount, -, -, hshown, -⟩ := views_agree hparsed
      refine ⟨u, v, rfl, rfl, ?_, entries, htext, hcount, hshown⟩
      rw [List.map_cons, List.map_singleton, hnames, hnames']

end GoDecls.Listing
