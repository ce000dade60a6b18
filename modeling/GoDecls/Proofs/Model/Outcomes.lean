/-
  How reading the unit of a source text ends (`SourceUnit.ofText_outcomes`).

  In the tree of a text the names are names and, unless the text is too long for its
  spans, the lengths can be read (`Tree.SourceFile.sound_ofText`), and so no declaration
  fails to convert; what is left are the diagnostics of the text and imported paths that
  cannot be unquoted.
-/
import GoDecls.Proofs.Batch.PointsAt
import GoDecls.Proofs.Model.Conversion
import GoDecls.Proofs.Tree.SoundFile

namespace GoDecls.Model

open Batch Scan Text

/-! ## Names -/

/-- A name is a part of a qualified one. -/
theorem isPart_of_isName {s : String} (h : IsName s.toList) : IsPart s := by
  obtain ⟨c, cs, htext, hc, hcs⟩ := h
  constructor
  · rintro rfl
    cases htext
  · rw [htext]
    rintro (_ | ⟨_, hdot⟩)
    · revert hc
      decide
    · have := hcs _ hdot
      revert this
      decide

theorem identifierParts?_of_isPart {s : String} (h : IsPart s) :
    identifierParts? s = some (none, s) := by
  rw [identifierParts?, cutAtDot?_of_dotless h.dotless]
  exact if_neg h.ne

theorem identifierParts?_qualified {pkg name : String} (hp : IsPart pkg) (hn : IsPart name) :
    identifierParts? (pkg ++ "." ++ name) = some (some pkg, name) := by
  rw [identifierParts?, cutAtDot?_append name hp.dotless]
  refine if_neg ?_
  rintro (h | h | h)
  · exact hp.ne h
  · exact hn.ne h
  · exact hn.dotless h

/-- The name of the reference splits into its parts. -/
def Splits (r : Reference) : Prop := (identifierParts? r.name).isSome = true

/-- A reference without a package has a target. -/
theorem Splits.target? {u : SourceUnit} {r : Reference} (h : Splits r) (hpkg : r.package? = none) :
    Batch.target? u r.name = some (u.module.fullName, r.name) := by
  have hcut : cutAtDot? r.name = none := Option.map_eq_none_iff.1 hpkg
  have hne : r.name ≠ "" := by
    intro hempty
    rw [Splits, identifierParts?, hcut, if_pos hempty] at h
    cases h
  rw [Batch.target?, identifierParts?, hcut, if_neg hne]

/-! ## Types -/

variable {text : List Char} {E : ConvertError → Prop}

/-- Names that are names have shapes, whose references split. -/
theorem Shape.ofName_yields {pkg : Option Tree.Ident} {name : Tree.Ident}
    (hp : ∀ i ∈ pkg, IsName i.text.toList) (hn : IsName name.text.toList) :
    Yields E (·.Refers Splits) (Shape.ofName pkg name) := by
  have hn := isPart_of_isName hn
  cases pkg with
  | none =>
    refine .ok ?_
    split
    · exact nofun
    · intro r hr
      rw [List.mem_singleton.1 hr, Splits, Reference.unbound, identifierParts?_of_isPart hn]
      rfl
  | some pkg =>
    have hparts := identifierParts?_qualified (isPart_of_isName (hp pkg rfl)) hn
    rw [Shape.ofName, hparts, Option.isSome_some, if_pos rfl]
    refine .ok fun r hr => ?_
    rw [List.mem_singleton.1 hr, Splits, Reference.unbound, hparts]
    rfl

/-- The text is too long for its spans. -/
def TooLong (text : List Char) : Prop := Span.limit < byteLength text

/-- Under a span with a text it is read, unless the text is too long. -/
theorem sourceText?_eq_none {span : Span} (h : Tree.HasText text span)
    (hnone : sourceText? text span = none) : TooLong text := by
  by_contra hshort
  have hsome := h (Nat.not_lt.1 hshort)
  rw [Option.map_eq_none_iff.1 hnone] at hsome
  cases hsome

/-- Lengths that can be read convert. -/
theorem ArraySize.ofLength_yields {length : Tree.ArrayLength} (h : length.Readable text) :
    Yields (fun _ => TooLong text) (fun _ => True) (ArraySize.ofLength text length) := by
  cases length with
  | ellipsis span => exact .ok trivial
  | expr span e =>
    cases e with
    | ident name => exact .ok trivial
    | selector pkg name => exact .ok trivial
    | literal kind =>
      rw [ArraySize.ofLength]
      split
      · exact .ok trivial
      · next hnone => exact .error (sourceText?_eq_none h hnone)
    | other =>
      rw [ArraySize.ofLength]
      split
      · exact .ok trivial
      · next hnone => exact .error (sourceText?_eq_none h hnone)

theorem convertsHere_of_soundHere {T : Tree.TypeExpr} (h : T.SoundHere text) :
    ConvertsHere text (fun _ => TooLong text) Splits T := by
  cases T with
  | named _ pkg name _ => exact Shape.ofName_yields h.1 h.2
  | array _ length _ => exact ArraySize.ofLength_yields h
  | _ => trivial

theorem specConverts_of_sound {spec : Tree.TypeSpec} (h : spec.Sound text) :
    SpecConverts text (fun _ => TooLong text) Splits spec :=
  ⟨h.type.imp fun _ => convertsHere_of_soundHere, fun ps hps p hp t ht =>
    (h.typeParams ps hps p hp t ht).imp fun _ => convertsHere_of_soundHere⟩

/-! ## Imports -/

/-- The string literal that stands at the place of the path. -/
def IsPathLiteral (text : List Char) (spec : Tree.ImportSpec) (raw : String) : Prop :=
  ∃ l ∈ (Lexer.ofText text).run.1, l.span = spec.path ∧
    (l.token = .string raw ∨ l.token = .rawString raw)

/-- What is read at the place of the path is the literal. -/
theorem IsPathLiteral.sourceText? {spec : Tree.ImportSpec} {raw : String}
    (hlimit : byteLength text ≤ Span.limit) (h : IsPathLiteral text spec raw) :
    sourceText? text spec.path = some raw := by
  obtain ⟨l, hl, hspan, htoken⟩ := h
  have htext : l.token.text? = some raw := by rcases htoken with h | h <;> rw [h] <;> rfl
  have hbound := boundary_of_mem_run hl
  rw [Model.sourceText?, ← hspan, Lexeme.span, Span.text?,
    Span.ofOffsets_of_le (Nat.le_trans hbound.1.le hlimit) (Nat.le_trans hbound.2.le hlimit),
    text_of_mem_run hl htext, Option.map_some, String.ofList_toList]

/-- The literal at the place of the path cannot be unquoted. -/
def BadPath (text : List Char) (spec : Tree.ImportSpec) : Prop :=
  ∃ raw, IsPathLiteral text spec raw ∧ ∃ e, Literal.unquote raw = .error e

/-- A path that is a literal of the text imports, unless it is a bad one. -/
theorem Import.ofSpec_yields {spec : Tree.ImportSpec} (hlimit : byteLength text ≤ Span.limit)
    (h : spec.HasLiteral (Lexer.ofText text).run.1) :
    Yields (fun _ => BadPath text spec) (fun _ => ¬ BadPath text spec)
      (Import.ofSpec text spec) := by
  obtain ⟨l, hl, hstring, hspan⟩ := h
  obtain ⟨raw, hraw⟩ : ∃ raw, IsPathLiteral text spec raw := by
    unfold Token.isString at hstring
    split at hstring
    · next raw htoken => exact ⟨raw, l, hl, hspan, .inl htoken⟩
    · next raw htoken => exact ⟨raw, l, hl, hspan, .inr htoken⟩
    · cases hstring
  have hsource := hraw.sourceText? hlimit
  rw [Import.ofSpec, hsource]
  dsimp only [Option.getD_some]
  cases hunquote : Literal.unquote raw with
  | error e => exact .error ⟨raw, hraw, e, hunquote⟩
  | ok path =>
    refine .ok ?_
    rintro ⟨raw', hraw', e, he⟩
    obtain rfl : raw' = raw := Option.some.inj (hraw'.sourceText? hlimit ▸ hsource)
    rw [hunquote] at he
    cases he

/-- The entries are converted one by one, up to the first error. -/
theorem mapM_yields {ε α β : Type} {E P : α → Prop} {f : α → Except ε β} :
    ∀ {xs : List α}, (∀ x ∈ xs, Yields (fun _ => E x) (fun _ => P x) (f x)) →
      Yields (fun _ => ∃ x ∈ xs, E x) (fun _ => ∀ x ∈ xs, P x) (xs.mapM f)
  | [], _ => .ok nofun
  | x :: xs, h => by
    obtain ⟨hfirst, hrest⟩ := List.forall_mem_cons.1 h
    have hmore := mapM_yields hrest
    rw [List.mapM_cons]
    cases hx : f x with
    | error e =>
      rw [hx] at hfirst
      exact .error ⟨x, List.mem_cons_self, hfirst⟩
    | ok y =>
      rw [hx] at hfirst
      cases hxs : xs.mapM f with
      | error e =>
        rw [hxs] at hmore
        obtain ⟨x', hx', he⟩ := hmore
        exact .error ⟨x', List.mem_cons_of_mem x hx', he⟩
      | ok ys =>
        rw [hxs] at hmore
        exact .ok (List.forall_mem_cons.2 ⟨hfirst, hmore⟩)

/-! ## Units -/

variable {file : Tree.SourceFile} {ts : List Lexeme}

theorem hasLiteral_of_mem_importSpecs (h : ∀ d ∈ file.decls, d.Sound text ts) :
    ∀ spec ∈ importSpecs file, spec.HasLiteral ts := by
  intro spec hspec
  obtain ⟨d, hd, hmem⟩ := List.mem_flatMap.1 hspec
  have hsound := h d hd
  cases d with
  | imports _ specs => exact hsound spec hmem
  | _ => cases hmem

theorem sound_of_mem_typeSpecs (h : ∀ d ∈ file.decls, d.Sound text ts) :
    ∀ p ∈ typeSpecs file, p.2.Sound text := by
  intro p hp
  obtain ⟨d, hd, hmem⟩ := List.mem_flatMap.1 hp
  have hsound := h d hd
  cases d with
  | types _ specs =>
    obtain ⟨spec, hspec, rfl⟩ := List.mem_map.1 hmem
    exact hsound spec hspec
  | _ => cases hmem

/-- Of the tree of a text comes a unit, unless it imports a bad path. -/
theorem SourceUnit.ofTree_yields {text : String} (filename : String) (module : Module)
    (hlimit : byteLength text.toList ≤ Span.limit)
    (h : Tree.SourceFile.ofText text.toList = .ok file) :
    Yields
      (fun e => (∃ cause, (importSpecs file).mapM (Import.ofSpec text.toList) = .error cause ∧
          e = .badImport filename cause) ∧
        ∃ spec ∈ importSpecs file, BadPath text.toList spec)
      (fun u => (∀ spec ∈ importSpecs file, ¬ BadPath text.toList spec) ∧
        ∀ d ∈ u.declarations, ∀ r ∈ d.references, Splits r)
      (ofTree file text filename module) := by
  have hsound := Tree.SourceFile.sound_ofText h
  have himports := mapM_yields fun spec hspec =>
    Import.ofSpec_yields hlimit (hasLiteral_of_mem_importSpecs hsound spec hspec)
  have hdecls := Declaration.ofSpecs_yields file filename fun p hp =>
    specConverts_of_sound (sound_of_mem_typeSpecs hsound p hp)
  rw [ofTree]
  split
  · next cause hcause =>
    rw [hcause] at himports
    exact .error ⟨⟨cause, hcause, rfl⟩, himports⟩
  · next imports hok =>
    rw [hok] at himports
    cases hds : Declaration.ofSpecs file text.toList filename (typeSpecs file) with
    | error e =>
      rw [hds] at hdecls
      obtain ⟨_, _, -, hlong⟩ := hdecls
      exact absurd hlimit (Nat.not_le.2 hlong)
    | ok ds =>
      rw [hds] at hdecls
      exact .ok ⟨himports, hdecls⟩

namespace SourceUnit

variable (text filename : String) (module : Module)

/-- **How reading a source text ends.**  There is no unit if the text has diagnostics
    or imports a path whose literal cannot be unquoted, and never for want of a
    declared type.  In a unit all names of references split, so that each without a
    package has a target. -/
theorem ofText_outcomes (hlimit : byteLength text.toList ≤ Span.limit) :
    (∀ name f cause, ofText text filename module ≠ .error (.badDeclaration name f cause)) ∧
    (∀ f ds, ofText text filename module = .error (.unparsable f ds) ↔
      f = filename ∧ Tree.SourceFile.ofText text.toList = .error ds) ∧
    ((∃ f cause, ofText text filename module = .error (.badImport f cause)) ↔
      ∃ file, Tree.SourceFile.ofText text.toList = .ok file ∧
        ∃ spec ∈ importSpecs file, BadPath text.toList spec) ∧
    (∀ u, ofText text filename module = .ok u → ∀ d ∈ u.declarations, ∀ r ∈ d.references,
      (identifierParts? r.name).isSome = true ∧
      (r.package? = none → target? u r.name = some (u.module.fullName, r.name))) := by
  rw [ofText]
  cases htree : Tree.SourceFile.ofText text.toList with
  | error ds =>
    refine ⟨by rintro _ _ _ ⟨⟩, fun f ds' => ?_, ?_, by rintro _ ⟨⟩⟩
    · simp [eq_comm]
    · simp
  | ok file =>
    have h := ofTree_yields filename module hlimit htree
    dsimp only
    cases hunit : ofTree file text filename module with
    | error e =>
      rw [hunit] at h
      obtain ⟨⟨cause, -, rfl⟩, hbad⟩ := h
      exact ⟨by rintro _ _ _ ⟨⟩, by simp,
        ⟨fun _ => ⟨file, rfl, hbad⟩, fun _ => ⟨filename, cause, rfl⟩⟩, by rintro _ ⟨⟩⟩
    | ok u =>
      rw [hunit] at h
      refine ⟨by rintro _ _ _ ⟨⟩, by simp, ⟨?_, ?_⟩, ?_⟩
      · rintro ⟨_, _, ⟨⟩⟩
      · rintro ⟨_, ⟨⟩, spec, hspec, hbad⟩
        exact absurd hbad (h.1 spec hspec)
      · rintro _ ⟨⟩ d hd r hr
        exact ⟨h.2 d hd r hr, (h.2 d hd r hr).target?⟩

/-- A text whose one declaration refers to a package and to its own module. -/
theorem ofText_outcomes_map :
    let text := "package p\n\ntype T [2]map[q.B]C\n"
    byteLength text.toList ≤ Span.limit ∧ ∃ u, ofText text "p.go" ⟨"m", ""⟩ = .ok u ∧
      (u.declarations.flatMap (·.references)).map (·.name) = ["q.B", "C"] ∧
      ∀ d ∈ u.declarations, ∀ r ∈ d.references, (identifierParts? r.name).isSome = true ∧
        (r.package? = none → target? u r.name = some (u.module.fullName, r.name)) := by
  intro text
  have hlimit : byteLength text.toList ≤ Span.limit := by decide +kernel
  have hnames : ((ofText text "p.go" ⟨"m", ""⟩).toOption.map fun u =>
      (u.declarations.flatMap (·.references)).map (·.name)) = some ["q.B", "C"] := by
    decide +kernel
  cases hu : ofText text "p.go" ⟨"m", ""⟩ with
  | error e =>
    rw [hu] at hnames
    cases hnames
  | ok u =>
    rw [hu] at hnames
    have hrefs := (ofText_outcomes text "p.go" ⟨"m", ""⟩ hlimit).2.2.2 u hu
    exact ⟨hlimit, u, rfl, Option.some.inj hnames, hrefs⟩

end SourceUnit

end GoDecls.Model
