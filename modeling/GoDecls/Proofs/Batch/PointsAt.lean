/-
  Where a name used in a unit points, said of the name and the imports alone.

  * `PointsAt u name M ident`: the name means the declaration `ident` of the
    module `M`.  A name that is neither an identifier nor a package and an
    identifier means nothing;
  * `target?_eq_some_iff`: that is what `target?` finds.
-/
import Mathlib.Data.List.TakeWhile
import GoDecls.Batch.Target

namespace GoDecls.Batch

open Model

/-! ## The relation -/

/-- The import is the first one known by the name. -/
def FirstImport (u : SourceUnit) (name : String) (i : Import) : Prop :=
  ∃ before after, u.imports = before ++ i :: after ∧ i.name = name ∧ ∀ j ∈ before, j.name ≠ name

/-- The imported path means the module of full name `M`, seen from the unit; an
    empty path means none. -/
inductive Means (u : SourceUnit) : (path M : String) → Prop where
  | self : Means u "." u.module.fullName
  | relative {path M : String} (dot : path.toList.head? = some '.') (hne : path ≠ ".")
    (hM : normalizeRelative u.module path = some M) : Means u path M
  | absolute {path : String} (hne : path ≠ "") (dot : path.toList.head? ≠ some '.') :
    Means u path path

/-- A part of a qualified name: not empty, and without a dot. -/
structure IsPart (s : String) : Prop where
  ne : s ≠ ""
  dotless : '.' ∉ s.toList

/-- The name, used in the unit, means the declaration `ident` of the module of
    full name `M`. -/
inductive PointsAt (u : SourceUnit) : (name M ident : String) → Prop where
  | here {name : String} (hname : IsPart name) : PointsAt u name u.module.fullName name
  | imported {pkg ident M : String} {i : Import} (hpkg : IsPart pkg) (hident : IsPart ident)
    (hi : FirstImport u pkg i) (hM : Means u i.path M) :
    PointsAt u (pkg ++ "." ++ ident) M ident

/-! ## Names -/

theorem cutAtDot?_of_dotless {name : String} (h : '.' ∉ name.toList) : cutAtDot? name = none := by
  have hall : name.toList.takeWhile (· ≠ '.') = name.toList := by
    rw [List.takeWhile_eq_self_iff]
    intro c hc
    rw [decide_eq_true_eq]
    rintro rfl
    exact h hc
  simp only [cutAtDot?, hall, List.drop_length]

theorem cutAtDot?_append {pkg : String} (rest : String) (h : '.' ∉ pkg.toList) :
    cutAtDot? (pkg ++ "." ++ rest) = some (pkg, rest) := by
  have htext : (pkg ++ "." ++ rest).toList = pkg.toList ++ '.' :: rest.toList := by simp
  have htake : (pkg.toList ++ '.' :: rest.toList).takeWhile (· ≠ '.') = pkg.toList := by
    rw [List.takeWhile_append_of_pos]
    · simp
    · intro c hc
      rw [decide_eq_true_eq]
      rintro rfl
      exact h hc
  simp only [cutAtDot?, htext, htake, List.drop_left, String.ofList_toList]

/-- A name is without a dot, or cut at its first one. -/
theorem dotless_or_cut (name : String) :
    '.' ∉ name.toList ∨ ∃ pkg rest, '.' ∉ pkg.toList ∧ name = pkg ++ "." ++ rest := by
  by_cases h : '.' ∈ name.toList
  · obtain ⟨front, rest, hname, hfront⟩ := List.eq_append_cons_of_mem h
    refine .inr ⟨String.ofList front, String.ofList rest, by simpa using hfront, ?_⟩
    rw [← String.toList_inj]
    simpa using hname
  · exact .inl h

/-- A name with a dot points through the first import known by what is before the
    dot, at what is behind it. -/
theorem PointsAt.of_qualified {u : SourceUnit} {pkg rest M ident : String}
    (hdot : '.' ∉ pkg.toList) (h : PointsAt u (pkg ++ "." ++ rest) M ident) :
    IsPart pkg ∧ IsPart rest ∧ ident = rest ∧ ∃ i, FirstImport u pkg i ∧ Means u i.path M := by
  generalize hname : pkg ++ "." ++ rest = name at h
  cases h with
  | here hpart =>
    subst hname
    exact absurd (by simp) hpart.dotless
  | @imported pkg' _ _ i hpkg hident hi hM =>
    have hcut := cutAtDot?_append rest hdot
    rw [hname, cutAtDot?_append _ hpkg.dotless] at hcut
    obtain ⟨rfl, rfl⟩ := Prod.mk.inj (Option.some.inj hcut)
    exact ⟨hpkg, hident, rfl, i, hi, hM⟩

/-! ## Imports -/

theorem import?_eq_some_iff {u : SourceUnit} {name : String} {i : Import} :
    u.import? name = some i ↔ FirstImport u name i := by
  rw [SourceUnit.import?, List.find?_eq_some_iff_append]
  constructor
  · rintro ⟨hi, before, after, himports, hbefore⟩
    exact ⟨before, after, himports, by simpa using hi, by simpa using hbefore⟩
  · rintro ⟨before, after, himports, hi, hbefore⟩
    exact ⟨by simpa using hi, before, after, himports, by simpa using hbefore⟩

theorem importedModule?_eq_some_iff {u : SourceUnit} {path M : String} :
    importedModule? u path = some M ↔ Means u path M := by
  rw [importedModule?]
  constructor
  · intro h
    split at h
    · cases h
    · next hne =>
      split at h
      · next hself =>
        subst hself
        cases h
        exact .self
      · next hself =>
        split at h
        · next hdot => exact .relative hdot hself h
        · next hdot =>
          cases h
          exact .absolute hne hdot
  · intro h
    cases h with
    | self => rfl
    | relative dot hne hM =>
      have hempty : path ≠ "" := by
        rintro rfl
        cases dot
      rw [if_neg hempty, if_neg hne, if_pos dot, hM]
    | absolute hne dot =>
      have hself : path ≠ "." := by
        rintro rfl
        exact dot rfl
      rw [if_neg hne, if_neg hself, if_neg dot]

/-! ## Targets -/

/-- **`target?` finds what a name points at.** -/
theorem target?_eq_some_iff {u : SourceUnit} {name M ident : String} :
    target? u name = some (M, ident) ↔ PointsAt u name M ident := by
  rcases dotless_or_cut name with hdot | ⟨pkg, rest, hpkg, rfl⟩
  · rw [target?, identifierParts?, cutAtDot?_of_dotless hdot]
    by_cases hne : name = ""
    · simp only [if_pos hne]
      refine ⟨nofun, fun h => ?_⟩
      cases h with
      | here hname => exact absurd hne hname.ne
      | imported => simp at hdot
    · simp only [if_neg hne, Option.some.injEq, Prod.mk.injEq]
      constructor
      · rintro ⟨rfl, rfl⟩
        exact .here ⟨hne, hdot⟩
      · intro h
        cases h with
        | here _ => exact ⟨rfl, rfl⟩
        | imported => simp at hdot
  · rw [target?, identifierParts?, cutAtDot?_append rest hpkg]
    by_cases hbad : pkg = "" ∨ rest = "" ∨ '.' ∈ rest.toList
    · simp only [if_pos hbad]
      refine ⟨nofun, fun h => ?_⟩
      obtain ⟨hp, hr, -⟩ := h.of_qualified hpkg
      rcases hbad with h | h | h
      · exact absurd h hp.ne
      · exact absurd h hr.ne
      · exact absurd h hr.dotless
    · simp only [if_neg hbad, Option.bind_eq_some_iff, Option.map_eq_some_iff, Prod.mk.injEq]
      rw [not_or, not_or] at hbad
      constructor
      · rintro ⟨i, hi, _, hM, rfl, rfl⟩
        exact .imported ⟨hbad.1, hpkg⟩ ⟨hbad.2.1, hbad.2.2⟩ (import?_eq_some_iff.1 hi)
          (importedModule?_eq_some_iff.1 hM)
      · intro h
        obtain ⟨-, -, rfl, i, hi, hM⟩ := h.of_qualified hpkg
        exact ⟨i, import?_eq_some_iff.2 hi, M, importedModule?_eq_some_iff.2 hM, rfl, rfl⟩

end GoDecls.Batch
