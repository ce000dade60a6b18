/-
  The unit of a source text next to the tree of the text.

  * `SourceUnit.row_of_ofText`: its declarations mirror the type specs that are kept,
    one by one;
  * `SourceUnit.splits_of_ofText`: the names of the references in them split.
-/
import GoDecls.Proofs.Model.Supported

namespace GoDecls.Model

namespace SourceUnit

variable {text filename : String} {module : Module} {u : SourceUnit} {file : Tree.SourceFile}

/-- The declarations mirror the type specs that are kept. -/
theorem row_of_ofText (hfile : Tree.SourceFile.ofText text.toList = .ok file)
    (hspecs : Declaration.ofSpecs file text.toList filename (typeSpecs file) =
      .ok u.declarations) :
    List.Forall₂ (DeclarationMirrors text.toList file) ((typeSpecs file).filter (·.2.isKept))
      u.declarations := by
  have hsound := sound_of_mem_typeSpecs (Tree.SourceFile.sound_ofText hfile)
  have hrow := Declaration.ofSpecs_row file filename fun p hp =>
    ⟨(isPart_of_isName (hsound p hp).name).ne, specConverts_of_sound (hsound p hp)⟩
  rw [hspecs] at hrow
  exact hrow

/-- The names of the references split. -/
theorem splits_of_ofText (hfile : Tree.SourceFile.ofText text.toList = .ok file)
    (hspecs : Declaration.ofSpecs file text.toList filename (typeSpecs file) =
      .ok u.declarations) :
    ∀ d ∈ u.declarations, ∀ r ∈ d.references, Splits r := by
  have hsound := sound_of_mem_typeSpecs (Tree.SourceFile.sound_ofText hfile)
  have hsplit := Declaration.ofSpecs_yields file filename fun p hp =>
    specConverts_of_sound (hsound p hp)
  rw [hspecs] at hsplit
  exact hsplit

end SourceUnit

end GoDecls.Model
