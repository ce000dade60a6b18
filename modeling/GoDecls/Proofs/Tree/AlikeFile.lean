/-
  Declarations that are the same but for places.

  * `Decl.Alike σ k γ d d'`: the declarations are the same but for places, as types are
    by `TypeExpr.Alike σ k`; the numbers of the comment groups they have are related
    by `γ`.  Doc comments of specs are left out: nothing is made of them;
  * `Decl.Alike.unplaced`: then they are equal without places and comments.
-/
import GoDecls.Proofs.Tree.Alike

namespace GoDecls.Tree

/-! ## Declarations without places -/

/-- The type parameters of one constraint without their places. -/
def TypeParam.unplaced (p : TypeParam) : TypeParam :=
  ⟨.zero, p.names.map (·.unplaced), p.constraint.map (·.unplaced)⟩

/-- The type parameters without places. -/
def TypeParams.unplaced (ps : TypeParams) : TypeParams := ⟨.zero, ps.params.map (·.unplaced)⟩

/-- The name of an import without its place. -/
def ImportName.unplaced : ImportName → ImportName
  | .dot _ => .dot .zero
  | .blank _ => .blank .zero
  | .named name => .named name.unplaced

/-- The import without places and comments. -/
def ImportSpec.unplaced (s : ImportSpec) : ImportSpec := ⟨none, s.name.map (·.unplaced), .zero⟩

/-- The declared type without places and comments. -/
def TypeSpec.unplaced (s : TypeSpec) : TypeSpec :=
  ⟨none, none, s.name.unplaced, s.typeParams.map (·.unplaced), unplacedMark s.assign,
    s.type.unplaced⟩

/-- The head of a declaration without places and comments. -/
def DeclHead.unplaced (h : DeclHead) : DeclHead :=
  ⟨none, .zero, h.parens.map fun _ => (.zero, .zero)⟩

/-- The declaration without places and comments. -/
def Decl.unplaced : Decl → Decl
  | .func _ => .func .zero
  | .imports head specs => .imports head.unplaced (specs.map (·.unplaced))
  | .consts head => .consts head.unplaced
  | .types head specs => .types head.unplaced (specs.map (·.unplaced))
  | .vars head => .vars head.unplaced

/-! ## Declarations that are alike -/

section

variable (σ : Span → Span → Prop) (k : Prop) (γ : Option Nat → Option Nat → Prop)

/-- The names are the same, the constraints alike. -/
structure TypeParam.Alike (p p' : TypeParam) : Prop where
  names : SameNames p.names p'.names
  constraint : List.Forall₂ (Term.Alike σ k) p.constraint p'.constraint

/-- The lists have type parameters that are alike. -/
def TypeParams.Alike (ps ps' : TypeParams) : Prop :=
  List.Forall₂ (TypeParam.Alike σ k) ps.params ps'.params

/-- The names are the same, and the paths stand at places with `σ`. -/
structure ImportSpec.Alike (s s' : ImportSpec) : Prop where
  name : s'.name.map (·.unplaced) = s.name.map (·.unplaced)
  path : σ s.path s'.path

/-- The names are the same, the type parameters and types alike.  A function type with
    type parameters is one itself: parentheses would take them from it. -/
structure TypeSpec.Alike (s s' : TypeSpec) : Prop where
  name : s'.name.text = s.name.text
  typeParams : Option.Rel (TypeParams.Alike σ k) s.typeParams s'.typeParams
  assign : s'.assign.isSome = s.assign.isSome
  type : s.type.Alike σ k s'.type
  top : s.typeParams.isSome = true → s.type.isFunc = true → s'.type.isFunc = true
  comment : γ s.comment s'.comment

/-- The heads have both parentheses or none. -/
structure DeclHead.Alike (h h' : DeclHead) : Prop where
  doc : γ h.doc h'.doc
  parens : h'.parens.isSome = h.parens.isSome

/-- The declarations are of the same kind, and alike. -/
inductive Decl.Alike : Decl → Decl → Prop where
  | func {s s' : Span} : Decl.Alike (.func s) (.func s')
  | imports {h h' : DeclHead} {specs specs' : List ImportSpec} (head : h.Alike γ h')
      (hspecs : List.Forall₂ (ImportSpec.Alike σ) specs specs') :
      Decl.Alike (.imports h specs) (.imports h' specs')
  | consts {h h' : DeclHead} (head : h.Alike γ h') : Decl.Alike (.consts h) (.consts h')
  | types {h h' : DeclHead} {specs specs' : List TypeSpec} (head : h.Alike γ h')
      (hspecs : List.Forall₂ (TypeSpec.Alike σ k γ) specs specs') :
      Decl.Alike (.types h specs) (.types h' specs')
  | vars {h h' : DeclHead} (head : h.Alike γ h') : Decl.Alike (.vars h) (.vars h')

end

section

variable {σ : Span → Span → Prop} {γ : Option Nat → Option Nat → Prop}

theorem TypeParam.Alike.unplaced {p p' : TypeParam} (h : p.Alike σ False p') :
    p'.unplaced = p.unplaced := by
  rw [TypeParam.unplaced, TypeParam.unplaced, h.names.unplaced,
    map_eq_of_forall₂ h.constraint fun _ _ _ ht => ht.unplaced]

theorem TypeParams.Alike.unplaced {ps ps' : TypeParams} (h : ps.Alike σ False ps') :
    ps'.unplaced = ps.unplaced := by
  rw [TypeParams.unplaced, TypeParams.unplaced, map_eq_of_forall₂ h fun _ _ _ hp => hp.unplaced]

theorem ImportSpec.Alike.unplaced {s s' : ImportSpec} (h : s.Alike σ s') :
    s'.unplaced = s.unplaced := by
  rw [ImportSpec.unplaced, ImportSpec.unplaced, h.name]

theorem TypeSpec.Alike.unplaced {s s' : TypeSpec} (h : s.Alike σ False γ s') :
    s'.unplaced = s.unplaced := by
  have hparams : s'.typeParams.map TypeParams.unplaced = s.typeParams.map TypeParams.unplaced := by
    have hrel := h.typeParams
    generalize s.typeParams = ps, s'.typeParams = ps' at hrel
    cases hrel with
    | none => rfl
    | some hps => exact congrArg some hps.unplaced
  rw [TypeSpec.unplaced, TypeSpec.unplaced, Ident.unplaced_congr h.name, hparams,
    unplacedMark_congr h.assign, h.type.unplaced]

theorem DeclHead.Alike.unplaced {h h' : DeclHead} (hh : h.Alike γ h') :
    h'.unplaced = h.unplaced := by
  obtain ⟨-, hparens⟩ := hh
  obtain ⟨_, _, parens⟩ := h
  obtain ⟨_, _, parens'⟩ := h'
  cases parens <;> cases parens' <;> first | rfl | cases hparens

/-- **Declarations that are alike are equal without places and comments.** -/
theorem Decl.Alike.unplaced {d d' : Decl} (h : d.Alike σ False γ d') :
    d'.unplaced = d.unplaced := by
  cases h with
  | func => rfl
  | imports head hspecs =>
    rw [Decl.unplaced, Decl.unplaced, head.unplaced,
      map_eq_of_forall₂ hspecs fun _ _ _ hs => hs.unplaced]
  | consts head => rw [Decl.unplaced, Decl.unplaced, head.unplaced]
  | types head hspecs =>
    rw [Decl.unplaced, Decl.unplaced, head.unplaced,
      map_eq_of_forall₂ hspecs fun _ _ _ hs => hs.unplaced]
  | vars head => rw [Decl.unplaced, Decl.unplaced, head.unplaced]

end

end GoDecls.Tree
