/-
  References named like type parameters.

  There are no scopes: in a declaration with type parameters, a name stands for a
  declaration of the module even if a type parameter has it
  (`resolve_typeParam_shadowed`).

  * `SourceUnit.unbind`: the unit as it is before any of its references is bound;
  * `resolved_here`: resolving binds a reference without a package to the first
    declaration of the name in its module, if there is one;
  * `resolve_typeParams`: so it is for references named like type parameters.
-/
import GoDecls.Proofs.Batch.Resolution
import GoDecls.Proofs.Model.Declared
import GoDecls.Proofs.Model.Unbound

namespace GoDecls.Model

/-- The unit with none of its references bound. -/
def SourceUnit.unbind (u : SourceUnit) : SourceUnit :=
  { u with declarations := u.declarations.map (·.mapReferences fun _ r => .unbound r.name) }

theorem Reference.eq_mk {r : Reference} {name : String} {target : Option DeclRef}
    (hname : r.name = name) (htarget : r.target = target) : r = ⟨name, target⟩ := by
  rw [← hname, ← htarget]

/-- Every reference of the unit is in the unit before binding, under its name. -/
theorem SourceUnit.exists_unbind {u : SourceUnit} {d : Declaration} {r : Reference}
    (hd : d ∈ u.declarations) (hr : r ∈ d.references) :
    ∃ d' ∈ u.unbind.declarations, .unbound r.name ∈ d'.references := by
  refine ⟨_, List.mem_map_of_mem hd, ?_⟩
  rw [Declaration.references_mapReferences]
  obtain ⟨k, hk, rfl⟩ := List.mem_iff_getElem.1 hr
  exact List.mem_mapIdx.2 ⟨k, hk, rfl⟩

/-- Of a text comes a unit without bound references. -/
theorem SourceUnit.unbind_of_ofText {text filename : String} {module : Module} {u : SourceUnit}
    (h : ofText text filename module = .ok u) : u.unbind = u := by
  have hdecls : (u.declarations.map (·.mapReferences fun _ r => .unbound r.name)) =
      u.declarations := by
    refine (List.map_congr_left fun d hd => ?_).trans (List.map_id _)
    rw [Declaration.mapReferences_congr fun k r hr => ?_, Declaration.mapReferences_id]
    · rfl
    · have hn := unbound_of_ofText h d hd r (List.mem_of_getElem? hr)
      rw [Reference.unbound, ← hn]
  rw [unbind, hdecls]

end GoDecls.Model

namespace GoDecls.Batch

open Model

variable {units : List SourceUnit} {u : SourceUnit} {p : Place} {r : Reference}

/-- The very first place of the batch is the first of any name that it declares. -/
theorem Declares.firstDeclared_zero {M ident : String} (h : Declares units M ident ⟨0, 0⟩) :
    FirstDeclared units M ident ⟨0, 0⟩ := by
  refine ⟨h, fun s _ => ?_⟩
  rcases Nat.eq_zero_or_pos s.unit with hs | hs
  · exact .inr ⟨hs.symm, Nat.zero_le _⟩
  · exact .inl hs

/-- What becomes of a reference without a package. -/
theorem resolved_here (hu : units[p.unit]? = some u) (hr : referenceAt? units p = some r)
    (hsplits : Splits r) (hpkg : r.package? = none) (hn : r.target = none) :
    ∃ r', referenceAt? (resolve units).1 p = some r' ∧ r'.name = r.name ∧
      (∀ t, r'.target = some t ↔ FirstDeclared units u.module.fullName r.name t) ∧
      (r'.target = none ↔ ∀ t, ¬ Declares units u.module.fullName r.name t) := by
  have htarget := target?_eq_some_iff.1 (hsplits.target? (u := u) hpkg)
  have hpoints {M ident : String} (h : PointsAt u r.name M ident) :
      M = u.module.fullName ∧ ident = r.name := by
    have heq := target?_eq_some_iff.2 h
    rw [hsplits.target? hpkg] at heq
    exact ⟨(Prod.mk.inj (Option.some.inj heq)).1.symm, (Prod.mk.inj (Option.some.inj heq)).2.symm⟩
  have hresolved : Resolved units u r (bindReference (.ofUnits units) u r) := resolved_bindReference
  refine ⟨_, referenceAt?_resolve hu hr, hresolved.name_eq, fun t => ?_, ?_⟩
  · rw [hresolved.target_iff hn t]
    constructor
    · rintro ⟨M, ident, h, hfirst⟩
      obtain ⟨rfl, rfl⟩ := hpoints h
      exact hfirst
    · exact fun hfirst => ⟨_, _, htarget, hfirst⟩
  · rw [← Option.not_isSome_iff_eq_none]
    refine (not_congr (hresolved.isBound_iff hn)).trans ?_
    constructor
    · exact fun h t ht => h ⟨_, _, t, htarget, ht⟩
    · rintro h ⟨M, ident, t, hpts, ht⟩
      obtain ⟨rfl, rfl⟩ := hpoints hpts
      exact h t ht

/-! ## Batches of one unit -/

/-- The declarations of a unit by their names and references. -/
def rows (u : SourceUnit) : List (String × List Reference) :=
  u.declarations.map fun d => (d.name, d.references)

variable {ds : List (String × List Reference)}

/-- The unit of a text whose declarations are known. -/
theorem exists_of_rows (text : String) (ds : List (String × List Reference))
    (h : (SourceUnit.ofText text "p.go" ⟨"m", ""⟩).toOption.map rows = some ds) :
    ∃ u, SourceUnit.ofText text "p.go" ⟨"m", ""⟩ = .ok u ∧
      SourceUnit.ofText text "p.go" ⟨"m", ""⟩ = .ok u.unbind ∧ rows u = ds := by
  cases hu : SourceUnit.ofText text "p.go" ⟨"m", ""⟩ with
  | error e =>
    rw [hu] at h
    cases h
  | ok u =>
    rw [hu] at h
    exact ⟨u, rfl, by rw [SourceUnit.unbind_of_ofText hu], Option.some.inj h⟩

theorem referenceAt?_of_rows (h : rows u = ds) (j k : Nat) :
    referenceAt? [u] ⟨0, j, k⟩ = ds[j]?.bind (·.2[k]?) := by
  rw [← h, rows, List.getElem?_map, Option.bind_map]
  rfl

/-- A declared type that is kept and has one group of type parameters. -/
theorem exists_param (text : List Char) (j : Nat) (names : List String)
    {file : Tree.SourceFile}
    (h : ((Tree.SourceFile.ofText text).toOption.bind fun file =>
      ((typeSpecs file).filter (·.2.isKept))[j]?.map fun s =>
        s.2.params.map (identNames ·.names)) = some [names])
    (hfile : Tree.SourceFile.ofText text = .ok file) :
    ∃ s, ((typeSpecs file).filter (·.2.isKept))[j]? = some s ∧
      ∃ q ∈ s.2.params, identNames q.names = names := by
  rw [hfile] at h
  obtain ⟨s, hs, hparams⟩ := Option.map_eq_some_iff.1 h
  obtain ⟨q, hq, hnames⟩ := List.map_eq_singleton_iff.1 hparams
  exact ⟨s, hs, q, hq ▸ List.mem_singleton_self q, hnames⟩

/-- A unit declares the names of its rows. -/
theorem declares_iff_of_rows {M ident : String} {t : DeclRef} (h : rows u = ds) :
    Declares [u] M ident t ↔
      t.unit = 0 ∧ u.module.fullName = M ∧ ds[t.decl]?.map Prod.fst = some ident := by
  have hunit : [u][t.unit]? = some u ↔ t.unit = 0 := by simp [List.getElem?_eq_some_iff]
  have hname : ds[t.decl]?.map Prod.fst = some ident ↔
      ∃ d, u.declarations[t.decl]? = some d ∧ d.name = ident := by
    rw [← h, rows, List.getElem?_map, Option.map_map, Option.map_eq_some_iff]
    rfl
  rw [hname, ← hunit]
  constructor
  · rintro ⟨u', hu', hM, hd⟩
    obtain rfl : u' = u := List.mem_singleton.1 (List.mem_of_getElem? hu')
    exact ⟨hu', hM, hd⟩
  · rintro ⟨hu, hM, hd⟩
    exact ⟨u, hu, hM, hd⟩

/-- **References named like type parameters are bound like all others.**  Let a unit of a
    batch be read from a text, with references bound or not.  In a declaration with type
    parameters, a reference without a package that is not bound yet and is named like one of
    them is bound by resolving just if a unit of the same module declares the name, to the
    first such declaration of the batch. -/
theorem resolve_typeParams {i : Nat} {text filename : String} {module : Module}
    (hu : units[i]? = some u) (h : SourceUnit.ofText text filename module = .ok u.unbind) :
    ∃ file, Tree.SourceFile.ofText text.toList = .ok file ∧
      List.Forall₂ (DeclarationMirrors text.toList file) ((typeSpecs file).filter (·.2.isKept))
        u.unbind.declarations ∧
      ∀ j s, ((typeSpecs file).filter (·.2.isKept))[j]? = some s →
        ∀ k r, referenceAt? units ⟨i, j, k⟩ = some r → r.package? = none →
          (∃ q ∈ s.2.params, r.name ∈ identNames q.names) → r.target = none →
          ∃ r', referenceAt? (resolve units).1 ⟨i, j, k⟩ = some r' ∧ r'.name = r.name ∧
            (∀ t, r'.target = some t ↔ FirstDeclared units u.module.fullName r.name t) ∧
            (r'.target = none ↔ ∀ t, ¬ Declares units u.module.fullName r.name t) := by
  obtain ⟨file, hfile, -, hspecs⟩ := SourceUnit.file_of_ofText h
  refine ⟨file, hfile, SourceUnit.row_of_ofText hfile hspecs, ?_⟩
  intro j s _ k r hr hpkg _ hn
  obtain ⟨u', d, hu', hd, hrd⟩ := referenceAt?_eq_some_iff.1 hr
  obtain rfl : u = u' := Option.some.inj (hu.symm.trans hu')
  obtain ⟨d', hd', hr'⟩ :=
    SourceUnit.exists_unbind (List.mem_of_getElem? hd) (List.mem_of_getElem? hrd)
  have hsplits : Splits (.unbound r.name) := SourceUnit.splits_of_ofText hfile hspecs d' hd' _ hr'
  exact resolved_here hu hr hsplits hpkg hn

/-- Two references named like the type parameters of their declaration: the one that is
    declared is bound, the other is not. -/
theorem resolve_typeParams_two :
    let text := "package p\n\ntype T int\n\ntype G[T, U any] map[T]U\n"
    ∃ u, SourceUnit.ofText text "p.go" ⟨"m", ""⟩ = .ok u.unbind ∧
      referenceAt? (resolve [u]).1 ⟨0, 1, 0⟩ = some ⟨"T", some ⟨0, 0⟩⟩ ∧
      referenceAt? (resolve [u]).1 ⟨0, 1, 1⟩ = some ⟨"U", none⟩ := by
  intro text
  obtain ⟨u, -, hu, hrows⟩ := exists_of_rows text
    [("T", []), ("G", [.unbound "T", .unbound "U"])] (by decide +kernel)
  obtain ⟨file, hfile, -, hbound⟩ := resolve_typeParams List.getElem?_cons_zero hu
  obtain ⟨s, hs, q, hq, hnames⟩ := exists_param text.toList 1 ["T", "U"] (by decide +kernel) hfile
  have hat := hbound 1 s hs
  refine ⟨u, hu, ?_, ?_⟩
  · obtain ⟨r', hr', hname, htarget, -⟩ := hat 0 (.unbound "T") (referenceAt?_of_rows hrows 1 0)
      (by decide) ⟨q, hq, hnames ▸ List.mem_cons_self⟩ rfl
    have hfirst := ((declares_iff_of_rows hrows).2 ⟨rfl, rfl, rfl⟩).firstDeclared_zero
    exact hr'.trans (congrArg some (Reference.eq_mk hname ((htarget _).2 hfirst)))
  · obtain ⟨r', hr', hname, -, hnone⟩ := hat 1 (.unbound "U") (referenceAt?_of_rows hrows 1 1)
      (by decide) ⟨q, hq, hnames ▸ List.mem_cons_of_mem _ List.mem_cons_self⟩ rfl
    have hundeclared : ∀ t, ¬ Declares [u] u.module.fullName "U" t := by
      intro t ht
      obtain ⟨-, -, hname⟩ := (declares_iff_of_rows hrows).1 ht
      have hmem := List.mem_of_getElem? (List.getElem?_map.trans hname)
      revert hmem
      decide
    exact hr'.trans (congrArg some (Reference.eq_mk hname (hnone.2 hundeclared)))

/-- The parameter `T` of `G` is bound to the type `T`. -/
theorem resolve_typeParam_shadowed :
    let text := "package p\ntype T int\ntype G[T any] []T\n"
    ∃ file u, Tree.SourceFile.ofText text.toList = .ok file ∧
      SourceUnit.ofText text "p.go" ⟨"m", ""⟩ = .ok u ∧
      (∃ s, ((typeSpecs file).filter (·.2.isKept))[1]? = some s ∧
        ∃ q ∈ s.2.params, identNames q.names = ["T"]) ∧
      referenceAt? [u] ⟨0, 1, 0⟩ = some (.unbound "T") ∧
      referenceAt? (resolve [u]).1 ⟨0, 1, 0⟩ = some ⟨"T", some ⟨0, 0⟩⟩ := by
  intro text
  obtain ⟨u, hu, -, hrows⟩ := exists_of_rows text [("T", []), ("G", [.unbound "T"])]
    (by decide +kernel)
  obtain ⟨file, hfile, -⟩ := SourceUnit.file_of_ofText hu
  have hr : referenceAt? [u] ⟨0, 1, 0⟩ = some (.unbound "T") := referenceAt?_of_rows hrows 1 0
  have hsplits : Splits (.unbound "T") := by
    rw [Splits]
    decide
  obtain ⟨r', hr', hname, htarget, -⟩ :=
    resolved_here List.getElem?_cons_zero hr hsplits (by decide) rfl
  have hfirst := ((declares_iff_of_rows hrows).2 ⟨rfl, rfl, rfl⟩).firstDeclared_zero
  exact ⟨file, u, hfile, hu, exists_param text.toList 1 ["T"] (by decide +kernel) hfile, hr,
    hr'.trans (congrArg some (Reference.eq_mk hname ((htarget _).2 hfirst)))⟩

end GoDecls.Batch
