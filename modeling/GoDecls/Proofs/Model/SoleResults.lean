/-
  Single results, with and without parentheses.

  * `ListsResult text R text'`: the second text is the first one with parentheses around
    the type `R`, which is a single result in it;
  * `SourceUnit.ofText_listed`: both texts have the same unit, or the same error, and the
    result is one field without a name, or none if its type has no shape;
  * `SourceUnit.ofText_listed_unbalanced`: but a closing bracket in an array length may
    end the brackets that looking ahead passes over.
-/
import GoDecls.Proofs.Model.Alike
import GoDecls.Proofs.Model.Supported
import GoDecls.Proofs.Tree.Enclosed

namespace GoDecls.Model

open Text (byteLength)
open Tree (TypeExpr SoleResult)

/-- The results are the type alone, without parentheses or in them. -/
inductive Alone (R : TypeExpr) : Tree.Results → Prop where
  | single : Alone R (.single R)
  | list {o s e : Span} : Alone R (.list ⟨o, [Tree.Param.anonymous s none R], e⟩)

/-- The second text is the first one with parentheses around `R`, the single result of a
    function type or of a method at any depth in a declared type or in a constraint.  The
    brackets under `R` are balanced, which those in an array length need not be. -/
inductive ListsResult (text : String) (R : TypeExpr) : String → Prop where
  | intro {file : Tree.SourceFile} {T : TypeExpr}
      (hfile : Tree.SourceFile.ofText text.toList = .ok file)
      (hT : T ∈ file.decls.flatMap Tree.Decl.parts) (hR : SoleResult R T)
      (hbalanced : Tree.Balanced (tokensUnder text.toList R.span))
      (hlimit : byteLength text.toList + 2 ≤ Span.limit) :
      ListsResult text R (String.ofList (enclosed text.toList R.span))

/-! ## The result -/

theorem ofResults_of_alone {text : List Char} {R : TypeExpr} {rs : Tree.Results}
    (h : Alone R rs) : Field.ofResults text rs =
      (Shape.ofType text R).map fun s => (s.map Field.embed).toList := by
  cases h with
  | single => rw [Field.ofResults]
  | list => rw [Field.ofResults_listed, Field.ofResults]

/-- The types in a file have shapes that mirror them, unless they hold instances. -/
theorem gives_of_mem_parts {text : List Char} {file : Tree.SourceFile}
    (h : Tree.SourceFile.ofText text = .ok file) {T : TypeExpr}
    (hT : T ∈ file.decls.flatMap Tree.Decl.parts) :
    T.Everywhere (Gives text fun _ => TooLong text) := by
  obtain ⟨d, hd, hT⟩ := List.mem_flatMap.1 hT
  have hlists : Tree.Cursor.ListsEnsured (Lexer.ofText text).run.1 fun _ => True :=
    fun _ _ _ _ _ _ => trivial
  have hsound := ((Tree.SourceFile.soundWith_ofText hlists h d hd).types T hT).sound
  have hconverts := hsound.imp fun _ => convertsHere_of_soundHere
  exact hconverts.everywhere.imp fun _ => Shape.ofType_gives

/-- One field without a name for a type that has a shape, and none for one that has none. -/
theorem fields_of_gives {text : List Char} {R : TypeExpr}
    (h : Gives text (fun _ => TooLong text) R) (hlimit : byteLength text ≤ Span.limit) :
    ∃ fields, (∀ rs, Alone R rs → Field.ofResults text rs = .ok fields) ∧
      (R.holdsInstance = true → fields = []) ∧
      (R.holdsInstance = false →
        ∃ s, Mirrors text R s ∧ fields = [⟨[], s.implicitName, s, .empty⟩]) := by
  rw [Gives] at h
  cases hshape : Shape.ofType text R with
  | error e =>
    rw [hshape] at h
    exact absurd hlimit (Nat.not_le.2 h)
  | ok shape =>
    rw [hshape] at h
    obtain ⟨hnone, hmirrors⟩ := h
    refine ⟨(shape.map Field.embed).toList, fun rs hrs => ?_, fun hholds => ?_, fun hholds => ?_⟩
    · rw [ofResults_of_alone hrs, hshape]
      rfl
    · rw [hnone.2 hholds]
      rfl
    · cases shape with
      | none =>
        have := hnone.1 rfl
        rw [hholds] at this
        cases this
      | some s => exact ⟨s, hmirrors s rfl, rfl⟩

/-! ## Units -/

namespace SourceUnit

variable {σ : Span → Span → Prop} {text text' : String} {file file' : Tree.SourceFile}

/-- Texts with trees that are alike have the same unit, or the same error. -/
theorem ofText_eq_of_alike (hlimit : byteLength text.toList ≤ Span.limit)
    (hfile : Tree.SourceFile.ofText text.toList = .ok file)
    (hfile' : Tree.SourceFile.ofText text'.toList = .ok file')
    (hσ : SameText σ text.toList text'.toList)
    (hc : SameTexts text.toList text'.toList file.comments file'.comments)
    (hpackage : file'.package = file.package)
    (hdecls : List.Forall₂ (Tree.Decl.Alike σ True Eq) file.decls file'.decls)
    (filename : String) (module : Module) :
    ofText text' filename module =
      (ofText text filename module).map fun u => { u with text := text' } := by
  have htree := ofTree_yields filename module hlimit hfile
  rw [ofText, ofText, hfile, hfile']
  dsimp only
  cases hu : ofTree file text filename module with
  | ok u =>
    rw [ofTree_alike hσ hc hpackage hdecls hu]
    rfl
  | error e =>
    -- only an imported path can be at fault, and it is in both texts
    rw [hu] at htree
    obtain ⟨⟨cause, hcause, rfl⟩, -⟩ := htree
    rw [ofTree, mapM_ofSpec_alike hσ (importSpecs_alike hdecls), hcause]
    rfl

/-- **A single result is the same with and without parentheses.**  With parentheses put
    around a type that is the single result of a signature, a text has the same unit, or
    the same error.  The result is one field without a name, with the implicit name of its
    type, or no field if the type has no shape; it is so in both forms. -/
theorem ofText_listed {R : TypeExpr} (h : ListsResult text R text') (filename : String)
    (module : Module) :
    ofText text' filename module =
      (ofText text filename module).map (fun u => { u with text := text' }) ∧
    ∃ fields, (∀ rs, Alone R rs → Field.ofResults text.toList rs = .ok fields) ∧
      (R.holdsInstance = true → fields = []) ∧
      (R.holdsInstance = false →
        ∃ s, Mirrors text.toList R s ∧ fields = [⟨[], s.implicitName, s, .empty⟩]) := by
  obtain ⟨hfile, hT, hR, hbalanced, hlimit⟩ := h
  have hlimit_text : byteLength text.toList ≤ Span.limit := Nat.le_of_add_right_le hlimit
  obtain ⟨file', hfile', hpackage, hdecls, hcomments⟩ :=
    Tree.SourceFile.ofText_wrapped hfile (Tree.wrappableIn_of_parts hT hR) hbalanced hlimit
  rw [← String.toList_ofList (l := enclosed text.toList R.span)] at hfile' hcomments
  have hgives := hR.everywhere (gives_of_mem_parts hfile hT)
  refine ⟨ofText_eq_of_alike hlimit_text hfile hfile' (fun s s' hs => ?_) hcomments hpackage hdecls
    filename module, fields_of_gives hgives.self hlimit_text⟩
  rw [String.toList_ofList]
  exact hs.text

/-! ## Texts with single results -/

/-- The single results in a type down to a depth. -/
def soleResultsWithin : Nat → TypeExpr → List TypeExpr
  | 0, T => T.soleResults
  | n + 1, T => T.soleResults ++ T.parts.flatMap (soleResultsWithin n)

theorem soleResult_of_mem_within {R : TypeExpr} :
    ∀ {n : Nat} {T : TypeExpr}, R ∈ soleResultsWithin n T → SoleResult R T
  | 0, _, h => .here h
  | _ + 1, _, h => by
    rcases List.mem_append.1 h with h | h
    · exact .here h
    · obtain ⟨S, hS, hR⟩ := List.mem_flatMap.1 h
      exact .under hS (soleResult_of_mem_within hR)

theorem exists_soleResult (text : String) {P : TypeExpr → Bool} (n : Nat)
    (h : (Tree.SourceFile.ofText text.toList).toOption.any (fun file =>
      (file.decls.flatMap Tree.Decl.parts).any fun T => (soleResultsWithin n T).any P) = true) :
    ∃ file T R, Tree.SourceFile.ofText text.toList = .ok file ∧
      T ∈ file.decls.flatMap Tree.Decl.parts ∧ SoleResult R T ∧ P R = true := by
  cases hfile : Tree.SourceFile.ofText text.toList with
  | error _ =>
    rw [hfile] at h
    cases h
  | ok file =>
    rw [hfile] at h
    obtain ⟨T, hT, h⟩ := List.any_eq_true.1 h
    obtain ⟨R, hR, hP⟩ := List.any_eq_true.1 h
    exact ⟨file, T, R, rfl, hT, soleResult_of_mem_within hR, hP⟩

/-- A pointer that a field of function type gives back. -/
theorem ofText_listed_pointer :
    let text := "package p\n\ntype S struct \x7b\n\tf func(int) *T\n\x7d\n"
    let text' := "package p\n\ntype S struct \x7b\n\tf func(int) (*T)\n\x7d\n"
    ∃ R u s, ListsResult text R text' ∧ ofText text "p.go" .none = .ok u ∧
      ofText text' "p.go" .none = .ok { u with text := text' } ∧
      Field.ofResults text.toList (.single R) = .ok [⟨[], s.implicitName, s, .empty⟩] ∧
      s.implicitName = "T" := by
  intro text text'
  obtain ⟨file, T, R, hfile, hT, hR, hP⟩ := exists_soleResult text
    (P := fun R => decide (R.span = ⟨40, 42⟩) && !R.holdsInstance &&
      (Field.ofResults text.toList (.single R)).toOption.any fun fields =>
        fields.map (·.implicitName) = ["T"]) 1 (by decide +kernel)
  simp only [Bool.and_eq_true, Bool.not_eq_true', decide_eq_true_eq] at hP
  obtain ⟨⟨hspan, hholds⟩, hname⟩ := hP
  have hlists : ListsResult text R text' := by
    have heq : text' = String.ofList (enclosed text.toList ⟨40, 42⟩) := by decide +kernel
    rw [heq, ← hspan]
    exact .intro hfile hT hR (by rw [hspan]; decide +kernel) (by decide +kernel)
  obtain ⟨hunit, fields, hfields, -, hsome⟩ := ofText_listed hlists "p.go" .none
  obtain ⟨s, -, rfl⟩ := hsome hholds
  have hsingle := hfields _ .single
  rw [hsingle] at hname
  have hok : (ofText text "p.go" .none).toOption.isSome = true := by decide +kernel
  cases hu : ofText text "p.go" .none with
  | error _ =>
    rw [hu] at hok
    cases hok
  | ok u =>
    rw [hu] at hunit
    exact ⟨R, u, s, hlists, rfl, hunit, hsingle, by simpa [Except.toOption] using hname⟩

/-- In the parentheses an array length with brackets of its own ends the brackets of
    `List` for who looks ahead over them, and `List` is read as the name of a parameter. -/
theorem ofText_listed_unbalanced :
    let text := "package p\ntype F func(List[func() [\x7d)]X])\n"
    let text' := "package p\ntype F func(List[func() ([\x7d)]X)])\n"
    (∃ file T R, Tree.SourceFile.ofText text.toList = .ok file ∧
      T ∈ file.decls.flatMap Tree.Decl.parts ∧ SoleResult R T ∧
      text' = String.ofList (enclosed text.toList R.span)) ∧
      (ofText text "f.go" .none).toOption.isSome = true ∧
      (ofText text' "f.go" .none).toOption.isSome = false := by
  intro text text'
  refine ⟨?_, by decide +kernel, by decide +kernel⟩
  obtain ⟨file, T, R, hfile, hT, hR, hspan⟩ := exists_soleResult text
    (P := fun R => decide (R.span = ⟨34, 39⟩)) 2 (by decide +kernel)
  refine ⟨file, T, R, hfile, hT, hR, ?_⟩
  rw [of_decide_eq_true hspan]
  decide +kernel

end SourceUnit

end GoDecls.Model
