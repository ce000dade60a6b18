/-
  Imports and types in other groups.

  * `Regroups text text'`: in place of declarations the second text has others of the same
    specs, which may be grouped in another way;
  * `SourceUnit.ofText_regrouped`: however often this is done, the text is accepted and has
    the same imports and declarations, or fails on the same import.
-/
import GoDecls.Proofs.Model.Alike
import GoDecls.Proofs.Model.Outcomes
import GoDecls.Proofs.Tree.Spelled

namespace GoDecls.Model

open Relation (ReflTransGen)
open Text (byteLength)
open Tree (SpecKind Regrouped)

/-! ## Specs -/

section

variable {σ : Span → Span → Prop} {ds ds' : List Tree.Decl} {file file' : Tree.SourceFile}

theorem importSpecs_append : importSpecs { file with decls := ds ++ ds' } =
    importSpecs { file with decls := ds } ++ importSpecs { file with decls := ds' } :=
  List.flatMap_append

theorem typeSpecs_append : typeSpecs { file with decls := ds ++ ds' } =
    typeSpecs { file with decls := ds } ++ typeSpecs { file with decls := ds' } :=
  List.flatMap_append

section

variable {rows rows' : List (Tree.DeclHead × List Tree.ImportSpec)}

theorem importSpecs_imports :
    importSpecs { file with decls := rows.map fun r => .imports r.1 r.2 } =
      rows.flatMap (·.2) := by
  rw [importSpecs, List.flatMap_map]

theorem forall₂_importSpecs
    (h : List.Forall₂ (Tree.ImportSpec.Alike σ) (rows.flatMap (·.2)) (rows'.flatMap (·.2))) :
    List.Forall₂ (Tree.ImportSpec.Alike σ)
      (importSpecs { file with decls := rows.map fun r => .imports r.1 r.2 })
      (importSpecs { file' with decls := rows'.map fun r => .imports r.1 r.2 }) := by
  rw [importSpecs_imports, importSpecs_imports]
  exact h

theorem typeSpecs_imports :
    typeSpecs { file with decls := rows.map fun r => .imports r.1 r.2 } = [] := by
  rw [typeSpecs, List.flatMap_map]
  exact List.flatMap_eq_nil_iff.2 fun _ _ => rfl

end

section

variable {rows rows' : List (Tree.DeclHead × List Tree.TypeSpec)}

theorem importSpecs_types :
    importSpecs { file with decls := rows.map fun r => .types r.1 r.2 } = [] := by
  rw [importSpecs, List.flatMap_map]
  exact List.flatMap_eq_nil_iff.2 fun _ _ => rfl

theorem typeSpecs_types :
    typeSpecs { file with decls := rows.map fun r => .types r.1 r.2 } =
      rows.flatMap fun r => r.2.map (r.1, ·) := by
  rw [typeSpecs, List.flatMap_map]

theorem map_snd_rows :
    (rows.flatMap fun r => r.2.map (r.1, ·)).map Prod.snd = rows.flatMap (·.2) := by
  simp [List.map_flatMap, Function.comp_def]

theorem doc_of_mem_rows (h : ∀ r ∈ rows, r.1.doc = none) :
    ∀ p ∈ rows.flatMap fun r => r.2.map (r.1, ·), p.1.doc = none := by
  intro p hp
  obtain ⟨r, hr, hp⟩ := List.mem_flatMap.1 hp
  obtain ⟨_, -, rfl⟩ := List.mem_map.1 hp
  exact h r hr

theorem forall₂_specAlike {ps ps' : List (Tree.DeclHead × Tree.TypeSpec)}
    (h : List.Forall₂ (Tree.TypeSpec.Alike σ True Eq) (ps.map Prod.snd) (ps'.map Prod.snd))
    (hdoc : ∀ p ∈ ps, p.1.doc = none) (hdoc' : ∀ p ∈ ps', p.1.doc = none) :
    List.Forall₂ (SpecAlike σ) ps ps' := by
  rw [List.forall₂_map_left_iff, List.forall₂_map_right_iff] at h
  induction h with
  | nil => exact .nil
  | cons h _ ih =>
    obtain ⟨hp, hps⟩ := List.forall_mem_cons.1 hdoc
    obtain ⟨hp', hps'⟩ := List.forall_mem_cons.1 hdoc'
    exact .cons ⟨hp.trans hp'.symm, h⟩ (ih hps hps')

theorem forall₂_typeSpecs
    (h : List.Forall₂ (Tree.TypeSpec.Alike σ True Eq) (rows.flatMap (·.2)) (rows'.flatMap (·.2)))
    (hdocs : ∀ r ∈ rows ++ rows', r.1.doc = none) :
    List.Forall₂ (SpecAlike σ)
      (typeSpecs { file with decls := rows.map fun r => .types r.1 r.2 })
      (typeSpecs { file' with decls := rows'.map fun r => .types r.1 r.2 }) := by
  obtain ⟨hdocs, hdocs'⟩ := List.forall_mem_append.1 hdocs
  rw [typeSpecs_types, typeSpecs_types]
  refine forall₂_specAlike ?_ (doc_of_mem_rows hdocs) (doc_of_mem_rows hdocs')
  rw [map_snd_rows, map_snd_rows]
  exact h

end

theorem forall₂_of_nil {α β : Type} {R : α → β → Prop} {xs : List α} {ys : List β} (h : xs = [])
    (h' : ys = []) : List.Forall₂ R xs ys := by
  rw [h, h']
  exact .nil

/-- In other groups the imports are the same. -/
theorem importSpecs_regrouped (h : Regrouped σ ds ds') :
    List.Forall₂ (Tree.ImportSpec.Alike σ) (importSpecs { file with decls := ds })
      (importSpecs { file' with decls := ds' }) := by
  cases h with
  | @intro front front' back back' k rows rows' hfront hrows hdocs hback =>
    rw [importSpecs_append, importSpecs_append, importSpecs_append, importSpecs_append]
    refine List.rel_append (importSpecs_alike hfront)
      (List.rel_append ?_ (importSpecs_alike hback))
    cases k with
    | import_ => exact forall₂_importSpecs hrows
    | type => exact forall₂_of_nil importSpecs_types importSpecs_types

/-- In other groups the types are the same. -/
theorem typeSpecs_regrouped (h : Regrouped σ ds ds') :
    List.Forall₂ (SpecAlike σ) (typeSpecs { file with decls := ds })
      (typeSpecs { file' with decls := ds' }) := by
  cases h with
  | @intro front front' back back' k rows rows' hfront hrows hdocs hback =>
    rw [typeSpecs_append, typeSpecs_append, typeSpecs_append, typeSpecs_append]
    refine List.rel_append (typeSpecs_alike hfront)
      (List.rel_append ?_ (typeSpecs_alike hback))
    cases k with
    | import_ => exact forall₂_of_nil typeSpecs_imports typeSpecs_imports
    | type => exact forall₂_typeSpecs hrows hdocs

end

/-! ## Units -/

section

variable {text text' filename : String} {module : Module} {file file' : Tree.SourceFile}

/-- In other groups the unit is the same, but for its text, or there is the same error. -/
theorem SourceUnit.ofTree_regrouped (hlimit : byteLength text.toList ≤ Span.limit)
    (hfile : Tree.SourceFile.ofText text.toList = .ok file) (hcomments : file.comments = [])
    (hcomments' : file'.comments = []) (hpackage : file'.package = file.package)
    (h : Regrouped (Tree.SameAt text.toList text'.toList) file.decls file'.decls) :
    ofTree file' text' filename module =
      (ofTree file text filename module).map fun u => { u with text := text' } := by
  have hσ : SameText (Tree.SameAt text.toList text'.toList) text.toList text'.toList :=
    fun _ _ h => h
  have himports : List.Forall₂ _ (importSpecs file) (importSpecs file') := importSpecs_regrouped h
  have htypes : List.Forall₂ _ (typeSpecs file) (typeSpecs file') := typeSpecs_regrouped h
  have hyields := ofTree_yields filename module hlimit hfile
  cases hunit : ofTree file text filename module with
  | ok u =>
    refine ofTree_specs hσ ?_ hpackage himports htypes hunit
    rw [hcomments, hcomments']
    rfl
  | error e =>
    -- the error is that of an import
    rw [hunit] at hyields
    obtain ⟨⟨cause, hcause, rfl⟩, -⟩ := hyields
    rw [ofTree, mapM_ofSpec_alike hσ himports, hcause]
    rfl

end

/-- The second text is the first one, which has no comments, with other declarations of
    the same specs in the place of declarations: the specs may be grouped in any other way,
    each in a declaration of its own or several between parentheses. -/
inductive Regroups (text : String) : String → Prop where
  | intro {file : Tree.SourceFile} {d : Tree.Decl} {k : SpecKind} {front a back : List Char}
      {ss : List (List Char)} (hfile : Tree.SourceFile.ofText text.toList = .ok file)
      (hcomments : (Lexer.ofText text.toList).run.2.comments = [])
      (hparted : Tree.Parted k text.toList front ss back) (hd : d ∈ file.decls)
      (hstart : d.start = byteLength front) (ha : Tree.Declares k ss a)
      (hlimit : byteLength text.toList ≤ Span.limit)
      (hlimit' : byteLength (front ++ (a ++ back)) ≤ Span.limit) :
      Regroups text (String.ofList (front ++ (a ++ back)))

namespace SourceUnit

variable {text text' : String}

theorem comments_of_ofText {cs : List Char} {file : Tree.SourceFile}
    (hfile : Tree.SourceFile.ofText cs = .ok file)
    (hcomments : (Lexer.ofText cs).run.2.comments = []) : file.comments = [] := by
  obtain ⟨-, hread⟩ := Tree.SourceFile.ofText_eq_ok_iff.1 hfile
  have hgroups := Tree.SourceFile.read_comments
    (Layout.of cs (Lexer.ofText cs).run.1 (Lexer.ofText cs).run.2.comments)
    ⟨(Lexer.ofText cs).run.1, 0, byteLength cs⟩
  rw [hread, hcomments] at hgroups
  exact hgroups

/-- A text in other groups is accepted, and has the same unit or error. -/
theorem ofText_of_regroups (h : Regroups text text') :
    (∃ file', Tree.SourceFile.ofText text'.toList = .ok file') ∧
      ∀ filename module, ofText text' filename module =
        (ofText text filename module).map fun u => { u with text := text' } := by
  obtain @⟨file, d, k, front, a, back, ss, hfile, hcomments, hparted, hd, hstart, ha, hlimit,
    hlimit'⟩ := h
  obtain ⟨file', hfile', hcomments', hpackage, hregrouped⟩ :=
    Tree.SourceFile.regrouped_ofText hfile hcomments hparted hd hstart ha hlimit hlimit'
  refine ⟨⟨file', by rwa [String.toList_ofList]⟩, fun filename module => ?_⟩
  rw [ofText, ofText, String.toList_ofList, hfile', hfile]
  refine ofTree_regrouped hlimit hfile (comments_of_ofText hfile hcomments)
    (comments_of_ofText hfile' hcomments') hpackage ?_
  rwa [String.toList_ofList]

/-- A unit of a text is one with this text. -/
theorem map_with_text (text filename : String) (module : Module) :
    (ofText text filename module).map (fun u => { u with text := text }) =
      ofText text filename module := by
  cases hu : ofText text filename module with
  | error e => rfl
  | ok u =>
    obtain rfl := text_of_ofText hu
    rfl

/-- **Grouped and separate declarations mean the same.**  In a text without comments the
    declarations `r :: rows` of imports or types that stand one behind the other may be
    exchanged for any others of the same specs, each by itself or several between
    parentheses.  However often this is done, the text is accepted, and has the same unit,
    with the same imports and declarations in the same order, or fails on the same
    import. -/
theorem ofText_regrouped {file : Tree.SourceFile}
    (hfile : Tree.SourceFile.ofText text.toList = .ok file)
    (hcomments : (Lexer.ofText text.toList).run.2.comments = [])
    (hlimit : byteLength text.toList ≤ Span.limit) :
    (∀ (k : SpecKind) (ds : List Tree.Decl) (r : Tree.DeclHead × List k.Spec)
        (rows : List (Tree.DeclHead × List k.Spec)) (ds' : List Tree.Decl),
      file.decls = ds ++ ((r :: rows).map (fun r => k.toDecl r.1 r.2) ++ ds') →
      ∃ front ss back, Tree.Parted k text.toList front ss back ∧
        (k.toDecl r.1 r.2).start = byteLength front ∧
        ss.length = ((r :: rows).flatMap (·.2)).length ∧
        ∀ a, Tree.Declares k ss a → byteLength (front ++ (a ++ back)) ≤ Span.limit →
          Regroups text (String.ofList (front ++ (a ++ back)))) ∧
    ∀ text', ReflTransGen Regroups text text' →
      (∃ file', Tree.SourceFile.ofText text'.toList = .ok file') ∧
      ∀ filename module, ofText text' filename module =
        (ofText text filename module).map fun u => { u with text := text' } := by
  constructor
  · intro k ds r rows ds' hdecls
    obtain ⟨front, ss, back, hparted, hstart, hlength⟩ :=
      Tree.SourceFile.exists_parted hfile hcomments hlimit hdecls
    have hd : k.toDecl r.1 r.2 ∈ file.decls := by simp [hdecls]
    exact ⟨front, ss, back, hparted, hstart, hlength, fun a ha hlimit' =>
      .intro hfile hcomments hparted hd hstart ha hlimit hlimit'⟩
  · intro text' hsteps
    induction hsteps with
    | refl => exact ⟨⟨file, hfile⟩, fun filename module => (map_with_text ..).symm⟩
    | @tail between text' _ hstep ih =>
      obtain ⟨-, hunit⟩ := ih
      obtain ⟨hfile', hunit'⟩ := ofText_of_regroups hstep
      refine ⟨hfile', fun filename module => ?_⟩
      calc ofText text' filename module
          = (ofText between filename module).map fun u => { u with text := text' } :=
            hunit' filename module
        _ = ((ofText text filename module).map fun u => { u with text := between }).map fun u =>
              { u with text := text' } := by rw [hunit]
        _ = (ofText text filename module).map fun u => { u with text := text' } := by
            cases ofText text filename module <;> rfl

end SourceUnit

/-- Regrouping can be checked by reading the text and its specs. -/
theorem Regroups.of_any {text text' : String} {k : SpecKind} {a a' : List Char}
    {ss : List (List Char)} (front back : List Char) (htext : text.toList = front ++ (a ++ back))
    (htext' : text' = String.ofList (front ++ (a' ++ back)))
    (hfile : (Tree.SourceFile.ofText text.toList).toOption.any
      (fun file => file.decls.any (·.start = byteLength front)) = true)
    (hcomments : (Lexer.ofText text.toList).run.2.comments = []) (ha : Tree.Declares k ss a)
    (ha' : Tree.Declares k ss a') (hss : ∀ s ∈ ss, k.Spells s) (hback : Tree.DeclEnd back)
    (hlimit : byteLength text.toList ≤ Span.limit)
    (hlimit' : byteLength (front ++ (a' ++ back)) ≤ Span.limit) : Regroups text text' := by
  subst htext'
  cases hread : Tree.SourceFile.ofText text.toList with
  | error e =>
    rw [hread] at hfile
    cases hfile
  | ok file =>
    rw [hread] at hfile
    obtain ⟨d, hd, hstart⟩ := List.any_eq_true.1 hfile
    exact .intro hread hcomments ⟨⟨a, htext, ha⟩, hss, hback⟩ hd (of_decide_eq_true hstart) ha'
      hlimit hlimit'

/-- Two imports are put between parentheses, and then three types are taken from them. -/
theorem SourceUnit.ofText_regrouped_two :
    let text := "package p\nimport \"a\"\nimport c \"b\"\ntype (\n\tA[T any] []T\n\tB = []c.D; E int\n)\n"
    let text' := "package p\nimport (\"a\"; c \"b\")\ntype A[T any] []T; type B = []c.D\ntype E int\n"
    ReflTransGen Regroups text text' ∧ (∃ file, Tree.SourceFile.ofText text.toList = .ok file) ∧
      (∃ file, Tree.SourceFile.ofText text'.toList = .ok file) ∧
      ∃ u, ofText text "p.go" .none = .ok u ∧ ofText text' "p.go" .none = .ok { u with text := text' } ∧
        (u.imports.map (·.name), u.declarations.map (·.name)) = (["a", "c"], ["A", "B", "E"]) := by
  intro text text'
  have hspace : ∀ c ∈ [' '], c ∈ Scan.blanks := by decide
  have htab : ∀ c ∈ ['\n', '\t'], c ∈ separators := by decide
  have hline : Separates ['\n'] := by decide
  have hline_tab : Separates ['\n', '\t'] := by decide
  have hsemi : Separates [';', ' '] := by decide
  have hword : ∀ s : List Char, ∀ c ∈ (' ' :: s).head?, Scan.isWordPart c = false := by
    rintro s _ ⟨⟩
    decide
  -- the imports
  let front := "package p\n".toList
  let types := "\ntype (\n\tA[T any] []T\n\tB = []c.D; E int\n)\n"
  let a := "\"a\"".toList
  let b := "c \"b\"".toList
  have hseparate : Tree.Declares .import_ [a, b] _ :=
    .append ['\n'] (.single [' '] a hspace (hword a)) hline (.single [' '] b hspace (hword b))
  have hgrouped : Tree.Declares .import_ [a, b] _ :=
    .group [' '] hspace (.cons a [';', ' '] hsemi (.last b [] (List.forall_mem_nil _)))
  let between := "package p\nimport (\"a\"; c \"b\")" ++ types
  have himports : Regroups text between := by
    refine .of_any front types.toList ?_ ?_ ?_ ?_ hseparate hgrouped ?_ ?_ ?_ ?_ <;>
      decide +kernel
  -- the types
  let front' := "package p\nimport (\"a\"; c \"b\")\n".toList
  let t := "A[T any] []T".toList
  let s := "B = []c.D".toList
  let r := "E int".toList
  have hgrouped' : Tree.Declares .type [t, s, r] _ :=
    .group [' '] hspace (.skip ['\n', '\t'] htab (.cons t ['\n', '\t'] hline_tab
      (.cons s [';', ' '] hsemi (.cons r ['\n'] hline .nil))))
  have hseparate' : Tree.Declares .type [t, s, r] _ :=
    .append [';', ' '] (.single [' '] t hspace (hword t)) hsemi
      (.append ['\n'] (.single [' '] s hspace (hword s)) hline
        (.single [' '] r hspace (hword r)))
  have htypes : Regroups between text' := by
    refine .of_any front' ['\n'] ?_ ?_ ?_ ?_ hgrouped' hseparate' ?_ ?_ ?_ ?_ <;> decide +kernel
  have hsteps : ReflTransGen Regroups text text' := .tail (.single himports) htypes
  have hnames : ((ofText text "p.go" .none).toOption.map fun u =>
      (u.imports.map (·.name), u.declarations.map (·.name))) =
        some (["a", "c"], ["A", "B", "E"]) := by
    decide +kernel
  cases hu : ofText text "p.go" .none with
  | error e =>
    rw [hu] at hnames
    cases hnames
  | ok u =>
    rw [hu] at hnames
    obtain ⟨file, hfile, -⟩ := ofTree_of_ofText hu
    obtain ⟨hfile', hunits⟩ :=
      (ofText_regrouped hfile (by decide +kernel) (by decide +kernel)).2 text' hsteps
    have hunit := hunits "p.go" .none
    rw [hu] at hunit
    exact ⟨hsteps, ⟨file, hfile⟩, hfile', u, rfl, hunit, Option.some.inj hnames⟩

end GoDecls.Model
