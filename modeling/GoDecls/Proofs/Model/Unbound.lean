/-
  References as they are read from a source text: none is bound
  (`SourceUnit.unbound_of_ofText`).
-/
import GoDecls.Proofs.Model.Conversion

namespace GoDecls.Model

/-- None of the references is bound. -/
def Unbound (rs : List Reference) : Prop := ∀ r ∈ rs, r.target = none

theorem Shape.ofName_unbound (pkg : Option Tree.Ident) (name : Tree.Ident) :
    Yields (fun _ => True) (·.Refers (·.target = none)) (Shape.ofName pkg name) := by
  have hunbound : ∀ s, (Shape.reference (.unbound s)).Refers (·.target = none) := by
    intro s r hr
    rw [List.mem_singleton.1 hr]
    rfl
  cases pkg with
  | none =>
    refine .ok ?_
    split
    · exact nofun
    · exact hunbound _
  | some pkg =>
    rw [Shape.ofName]
    split
    · exact .ok (hunbound _)
    · exact .error trivial

/-- No type has a bound reference. -/
theorem everywhere_unbound (text : List Char) (T : Tree.TypeExpr) :
    T.Everywhere (ConvertsHere text (fun _ => True) (·.target = none)) := by
  refine Tree.TypeExpr.everywhere_of_forall (fun S => ?_) T
  cases S with
  | named _ pkg name _ => exact Shape.ofName_unbound pkg name
  | array _ length _ => exact .any _
  | _ => trivial

/-- **A unit of a source text has no bound reference.** -/
theorem SourceUnit.unbound_of_ofText {text filename : String} {module : Module} {u : SourceUnit}
    (h : SourceUnit.ofText text filename module = .ok u) :
    ∀ d ∈ u.declarations, Unbound d.references := by
  obtain ⟨file, -, -, hds⟩ := SourceUnit.file_of_ofText h
  have hconverts : ∀ p ∈ typeSpecs file,
      SpecConverts text.toList (fun _ => True) (·.target = none) p.2 := fun _ _ =>
    ⟨everywhere_unbound _ _, fun _ _ _ _ _ _ => everywhere_unbound _ _⟩
  have hspecs := Declaration.ofSpecs_yields file filename hconverts
  rw [hds] at hspecs
  exact hspecs

end GoDecls.Model
