/-
  Types in parentheses.

  * `Parenthesises text text'`: the second text is the first one with parentheses around a
    type of a declaration that may stand in them;
  * `SourceUnit.ofText_parenthesised`: however many of these are put into a text, its unit
    stays the same;
  * `SourceUnit.ofText_enclosed_func`: but a declared function type in parentheses is
    without the type parameters of its declaration.
-/
import GoDecls.Proofs.Model.Alike
import GoDecls.Proofs.Tree.Enclosed

namespace GoDecls.Model

open Relation (ReflTransGen)
open Text (byteLength)

/-- The second text is the first one with parentheses around a type `S` in it: around a
    declared type, unless it is a function type with type parameters, or a type at any depth
    below one, unless it is an embedded field or the single result of a function.  The
    brackets under the type are balanced, which those in an array length need not be. -/
inductive Parenthesises (text : String) : String → Prop where
  | intro {file : Tree.SourceFile} {S : Tree.TypeExpr}
      (hfile : Tree.SourceFile.ofText text.toList = .ok file)
      (hS : Tree.EnclosableIn S (file.decls.flatMap Tree.Decl.places))
      (hbalanced : Tree.Balanced (tokensUnder text.toList S.span))
      (hlimit : byteLength text.toList + 2 ≤ Span.limit) :
      Parenthesises text (String.ofList (enclosed text.toList S.span))

namespace SourceUnit

variable {text text' filename : String} {module : Module} {u : SourceUnit}

/-- The unit of a text is the unit of the text with parentheses around a type. -/
theorem ofText_of_parenthesises (h : Parenthesises text text')
    (hu : ofText text filename module = .ok u) :
    ofText text' filename module = .ok { u with text := text' } := by
  obtain ⟨hfile, hS, hbalanced, hlimit⟩ := h
  obtain ⟨file', hfile', hpackage, hdecls, hcomments⟩ :=
    Tree.SourceFile.ofText_enclosed hfile hS hbalanced hlimit
  rw [ofText, hfile] at hu
  rw [ofText, String.toList_ofList, hfile']
  refine ofTree_alike (fun s s' hs => ?_) ?_ hpackage hdecls hu
  · rw [String.toList_ofList]
    exact hs.text
  · rw [String.toList_ofList]
    exact hcomments

/-- **Parentheses around types mean nothing.**  With parentheses put around any of its
    types, any number of times, a text that has a unit has the same unit: the same
    declarations, with the same shapes, names, tags and type parameters. -/
theorem ofText_parenthesised (h : ReflTransGen Parenthesises text text')
    (hu : ofText text filename module = .ok u) :
    ofText text' filename module = .ok { u with text := text' } := by
  induction h with
  | refl =>
    obtain rfl := text_of_ofText hu
    exact hu
  | tail _ hstep ih =>
    have hunit := ofText_of_parenthesises hstep ih
    exact hunit

end SourceUnit

/-- Around a declared type, or one right below it, parentheses may be put. -/
theorem Parenthesises.of_any {text text' : String} (s : Span)
    (heq : text' = String.ofList (enclosed text.toList s))
    (h : (Tree.SourceFile.ofText text.toList).toOption.any (fun file =>
      (file.decls.flatMap Tree.Decl.places).any fun p =>
        (p :: p.1.places).any fun q => q.2 && decide (q.1.span = s)) = true)
    (hbalanced : Tree.Balanced (tokensUnder text.toList s))
    (hlimit : byteLength text.toList + 2 ≤ Span.limit) :
    Parenthesises text text' := by
  subst heq
  cases hfile : Tree.SourceFile.ofText text.toList with
  | error e =>
    rw [hfile] at h
    cases h
  | ok file =>
    rw [hfile] at h
    obtain ⟨p, hp, h⟩ := List.any_eq_true.1 h
    obtain ⟨⟨S, own⟩, hq, h⟩ := List.any_eq_true.1 h
    obtain ⟨rfl, h⟩ := Bool.and_eq_true_iff.1 h
    obtain rfl := of_decide_eq_true h
    refine .intro hfile ⟨p, hp, ?_⟩ hbalanced hlimit
    rcases List.mem_cons.1 hq with rfl | hq
    · exact .here
    · exact .under hq .here

/-- A map with comments, its values in parentheses and then the map as well. -/
theorem SourceUnit.ofText_parenthesised_map :
    let text := "package p\n\n// a:\"1\"\ntype M map[string]int // b:\"2\"\n"
    let text' := "package p\n\n// a:\"1\"\ntype M (map[string](int)) // b:\"2\"\n"
    ReflTransGen Parenthesises text text' ∧ ∃ u, ofText text "p.go" .none = .ok u ∧
      ofText text' "p.go" .none = .ok { u with text := text' } ∧
      u.declarations.map (fun d => (d.name, d.tags.entries.map (·.1))) = [("M", ["a", "b"])] := by
  intro text text'
  let between := "package p\n\n// a:\"1\"\ntype M map[string](int) // b:\"2\"\n"
  have hvalues : Parenthesises text between :=
    .of_any ⟨38, 41⟩ (by decide +kernel) (by decide +kernel) (by decide +kernel)
      (by decide +kernel)
  have hmap : Parenthesises between text' :=
    .of_any ⟨27, 43⟩ (by decide +kernel) (by decide +kernel) (by decide +kernel)
      (by decide +kernel)
  have hsteps : ReflTransGen Parenthesises text text' := .tail (.single hvalues) hmap
  have htags : ((ofText text "p.go" .none).toOption.map fun u =>
      u.declarations.map fun d => (d.name, d.tags.entries.map (·.1))) =
        some [("M", ["a", "b"])] := by
    decide +kernel
  cases hu : ofText text "p.go" .none with
  | error e =>
    rw [hu] at htags
    cases htags
  | ok u =>
    rw [hu] at htags
    exact ⟨hsteps, u, rfl, ofText_parenthesised hsteps hu, Option.some.inj htags⟩

/-- The type parameters of a function; other shapes have none. -/
def Shape.typeParams : Shape → List Field
  | .function typeParams _ _ => typeParams
  | _ => []

/-- With parentheses around it a declared function type has lost its type parameters. -/
theorem SourceUnit.ofText_enclosed_func :
    let plain := "package p\ntype F[T any] func(T)\n"
    let enclosed := "package p\ntype F[T any] (func(T))\n"
    let names : SourceUnit → List (List (List String)) := fun u =>
      u.declarations.map fun d => d.type.typeParams.map (·.names)
    (ofText plain "f.go" .none).toOption.map names = some [[["T"]]] ∧
      (ofText enclosed "f.go" .none).toOption.map names = some [[]] := by
  decide +kernel

end GoDecls.Model
