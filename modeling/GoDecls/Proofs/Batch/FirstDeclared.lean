/-
  The index of a batch against a plain scan.

  * `scan?` looks for a declaration from the front of the batch;
    `lookup?_ofUnits` says that the index finds what the scan finds;
  * `FirstDeclared units M ident t`: `t` is the first place of the batch, by
    unit and then by declaration, where module `M` declares `ident`.  That is
    what the index finds (`lookup?_eq_some_iff`), and it finds nothing only if
    there is no such place (`lookup?_eq_none_iff`).
-/
import GoDecls.Batch.Resolve

namespace GoDecls.Batch

open Model

variable {units us vs : List SourceUnit} {M ident : String} {t : DeclRef}

/-! ## The scan -/

/-- The first declaration of the name in the unit, if the unit is of the
    module. -/
def inUnit? (M ident : String) (u : SourceUnit) : Option Nat :=
  if u.module.fullName = M then u.declarations.findIdx? (·.name = ident) else none

/-- The first declaration of the name in units of the module; `i` is the number
    of the first unit. -/
def scan? (M ident : String) (i : Nat) : List SourceUnit → Option DeclRef
  | [] => none
  | u :: us => ((inUnit? M ident u).map (⟨i, ·⟩)).or (scan? M ident (i + 1) us)

theorem scan?_append : ∀ {us : List SourceUnit} (i : Nat),
    scan? M ident i (us ++ vs) = (scan? M ident i us).or (scan? M ident (i + us.length) vs)
  | [], _ => rfl
  | u :: us, i => by
    rw [List.cons_append, scan?, scan?, scan?_append (i + 1), Option.or_assoc, List.length_cons,
      Nat.add_assoc, Nat.add_comm 1]

namespace DeclIndex

/-- What is known of a name stays; a new name is found from now on. -/
theorem lookup?_insertIfNew (ix : DeclIndex) (M' name : String) (r : DeclRef) :
    (DeclIndex.mk (ix.first.insertIfNew (M', name) r)).lookup? M ident =
      (ix.lookup? M ident).or (if M' = M ∧ name = ident then some r else none) := by
  simp only [lookup?, Std.HashMap.getElem?_insertIfNew, beq_iff_eq, Prod.mk.injEq]
  by_cases hkey : M' = M ∧ name = ident
  · obtain ⟨rfl, rfl⟩ := hkey
    cases h : ix.first[(M', name)]? with
    | none =>
      have hnew : (M', name) ∉ ix.first := by
        rw [Std.HashMap.mem_iff_isSome_getElem?, h]
        exact nofun
      simp [hnew]
    | some r' =>
      have hold : (M', name) ∈ ix.first := by
        rw [Std.HashMap.mem_iff_isSome_getElem?, h]
        rfl
      simp [hold]
  · rw [if_neg hkey, Option.or_none, if_neg fun h => hkey h.1]

theorem lookup?_addDecls (M' : String) (i : Nat) :
    ∀ (ds : List Declaration) (j : Nat) (ix : DeclIndex),
      (ix.addDecls M' i j ds).lookup? M ident =
        (ix.lookup? M ident).or
          (if M' = M then (ds.findIdx? (·.name = ident)).map fun k => ⟨i, j + k⟩ else none)
  | [], _, ix => by simp [addDecls]
  | d :: ds, j, ix => by
    rw [addDecls, lookup?_addDecls M' i ds, lookup?_insertIfNew, Option.or_assoc]
    congr 1
    by_cases hM : M' = M
    · by_cases hname : d.name = ident
      · simp [hM, hname, List.findIdx?_cons]
      · simp [hM, hname, List.findIdx?_cons, Function.comp_def, Nat.add_comm 1, Nat.add_assoc]
    · simp [hM]

theorem lookup?_addUnits : ∀ (us : List SourceUnit) (i : Nat) (ix : DeclIndex),
    (ix.addUnits i us).lookup? M ident = (ix.lookup? M ident).or (scan? M ident i us)
  | [], _, ix => by rw [addUnits, scan?, Option.or_none]
  | u :: us, i, ix => by
    rw [addUnits, lookup?_addUnits us, lookup?_addDecls, scan?, Option.or_assoc, inUnit?]
    congr 2
    split <;> simp

/-- **The index finds what the scan finds.** -/
theorem lookup?_ofUnits (units : List SourceUnit) (M ident : String) :
    (ofUnits units).lookup? M ident = scan? M ident 0 units := by
  rw [ofUnits, lookup?_addUnits]
  simp [lookup?]

end DeclIndex

/-! ## The first place -/

/-- The unit is of module `M`, and its declaration of that number is of the name
    `ident`. -/
def DeclaresAt (u : SourceUnit) (M ident : String) (j : Nat) : Prop :=
  u.module.fullName = M ∧ ∃ d, u.declarations[j]? = some d ∧ d.name = ident

/-- At the place of the batch, a unit of module `M` declares `ident`. -/
def Declares (units : List SourceUnit) (M ident : String) (t : DeclRef) : Prop :=
  ∃ u, units[t.unit]? = some u ∧ DeclaresAt u M ident t.decl

/-- Places by unit, and in a unit by declaration. -/
def NotAfter (s t : DeclRef) : Prop := s.unit < t.unit ∨ s.unit = t.unit ∧ s.decl ≤ t.decl

/-- The place is the first one at which module `M` declares `ident`. -/
structure FirstDeclared (units : List SourceUnit) (M ident : String) (t : DeclRef) : Prop where
  declares : Declares units M ident t
  notAfter : ∀ s, Declares units M ident s → NotAfter t s

theorem declares_cons_zero {u : SourceUnit} {j : Nat} :
    Declares (u :: us) M ident ⟨0, j⟩ ↔ DeclaresAt u M ident j := by
  simp [Declares]

theorem declares_cons_succ {u : SourceUnit} {i j : Nat} :
    Declares (u :: us) M ident ⟨i + 1, j⟩ ↔ Declares us M ident ⟨i, j⟩ := Iff.rfl

/-- There is one first place. -/
theorem FirstDeclared.unique {s t : DeclRef} (hs : FirstDeclared units M ident s)
    (ht : FirstDeclared units M ident t) : s = t := by
  obtain ⟨i, j⟩ := s
  obtain ⟨i', j'⟩ := t
  have h₁ := hs.notAfter _ ht.declares
  have h₂ := ht.notAfter _ hs.declares
  simp only [NotAfter] at h₁ h₂
  rw [DeclRef.mk.injEq]
  omega

theorem inUnit?_eq_none {u : SourceUnit} (h : inUnit? M ident u = none) (j : Nat) :
    ¬ DeclaresAt u M ident j := by
  rintro ⟨hM, d, hd, hname⟩
  rw [inUnit?, if_pos hM, List.findIdx?_eq_none_iff] at h
  simpa [hname] using h d (List.mem_of_getElem? hd)

theorem inUnit?_eq_some {u : SourceUnit} {j : Nat} (h : inUnit? M ident u = some j) :
    DeclaresAt u M ident j ∧ ∀ k, DeclaresAt u M ident k → j ≤ k := by
  rw [inUnit?] at h
  split at h
  · next hM =>
    obtain ⟨hj, hname, hbefore⟩ := List.findIdx?_eq_some_iff_getElem.1 h
    refine ⟨⟨hM, _, List.getElem?_eq_getElem hj, by simpa using hname⟩, ?_⟩
    rintro k ⟨-, d, hd, hname'⟩
    refine Nat.le_of_not_lt fun hk => ?_
    obtain ⟨hlt, rfl⟩ := List.getElem?_eq_some_iff.1 hd
    exact hbefore k hk (by simpa using hname')
  · cases h

theorem scan?_eq_none : ∀ {us : List SourceUnit} {i : Nat}, scan? M ident i us = none →
    ∀ t, ¬ Declares us M ident t
  | [], _, _ => fun t => by rintro ⟨u, hu, -⟩; cases hu
  | u :: us, i, h => by
    rw [scan?, Option.or_eq_none_iff, Option.map_eq_none_iff] at h
    rintro ⟨k, j⟩ ht
    cases k with
    | zero => exact inUnit?_eq_none h.1 j (declares_cons_zero.1 ht)
    | succ k => exact scan?_eq_none h.2 ⟨k, j⟩ (declares_cons_succ.1 ht)

/-- What the scan finds is first; units are counted from `i`. -/
theorem scan?_eq_some : ∀ {us : List SourceUnit} {i : Nat}, scan? M ident i us = some t →
    ∃ k, t.unit = i + k ∧ FirstDeclared us M ident ⟨k, t.decl⟩
  | [], _, h => by cases h
  | u :: us, i, h => by
    rw [scan?, Option.or_eq_some_iff] at h
    rcases h with h | ⟨hu, h⟩
    · obtain ⟨j, hj, rfl⟩ := Option.map_eq_some_iff.1 h
      obtain ⟨hat, hleast⟩ := inUnit?_eq_some hj
      refine ⟨0, rfl, declares_cons_zero.2 hat, ?_⟩
      rintro ⟨k, j'⟩ hs
      cases k with
      | zero => exact .inr ⟨rfl, hleast j' (declares_cons_zero.1 hs)⟩
      | succ k => exact .inl (Nat.succ_pos k)
    · obtain ⟨k, hk, hfirst⟩ := scan?_eq_some h
      refine ⟨k + 1, by omega, declares_cons_succ.2 hfirst.declares, ?_⟩
      rintro ⟨k', j'⟩ hs
      cases k' with
      | zero =>
        exact absurd (declares_cons_zero.1 hs) (inUnit?_eq_none (Option.map_eq_none_iff.1 hu) j')
      | succ k' =>
        rcases hfirst.notAfter ⟨k', j'⟩ (declares_cons_succ.1 hs) with hlt | ⟨heq, hle⟩
        · exact .inl (Nat.succ_lt_succ hlt)
        · exact .inr ⟨congrArg (· + 1) heq, hle⟩

namespace DeclIndex

theorem lookup?_eq_none_iff :
    (ofUnits units).lookup? M ident = none ↔ ∀ t, ¬ Declares units M ident t := by
  rw [lookup?_ofUnits]
  constructor
  · exact scan?_eq_none
  · intro h
    cases hs : scan? M ident 0 units with
    | none => rfl
    | some t =>
      obtain ⟨_, -, hfirst⟩ := scan?_eq_some hs
      exact absurd hfirst.declares (h _)

/-- **The index finds the first place.** -/
theorem lookup?_eq_some_iff :
    (ofUnits units).lookup? M ident = some t ↔ FirstDeclared units M ident t := by
  have hfound : ∀ {t}, (ofUnits units).lookup? M ident = some t → FirstDeclared units M ident t := by
    intro t h
    rw [lookup?_ofUnits] at h
    obtain ⟨k, hk, hfirst⟩ := scan?_eq_some h
    rw [Nat.zero_add] at hk
    rw [← hk] at hfirst
    exact hfirst
  refine ⟨hfound, fun h => ?_⟩
  cases hs : (ofUnits units).lookup? M ident with
  | none => exact absurd h.declares (lookup?_eq_none_iff.1 hs t)
  | some s => rw [(hfound hs).unique h]

end DeclIndex

end GoDecls.Batch
