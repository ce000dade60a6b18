/-
  Trees that are the same but for places.

  * `TypeExpr.Alike σ k T T'`: the types are the same but for places; what a tree keeps
    the place of alone, a tag or an array length, stands at places with `σ`.  If `k`
    holds, the second type may have parentheses around types and around single results;
  * `TypeExpr.Alike.unplaced`: without such parentheses the types are equal without
    their places;
  * `Param.toFields_alike`: lists of parameters that are alike have the same fields.
-/
import Mathlib.Data.List.Forall2
import GoDecls.Proofs.Tree.Entries
import GoDecls.Proofs.Tree.Everywhere

namespace GoDecls.Tree

/-! ## Rows -/

theorem map_eq_of_forall₂ {α β γ : Type} {r : α → β → Prop} {f : α → γ} {g : β → γ} :
    ∀ {xs : List α} {ys : List β}, List.Forall₂ r xs ys →
    (∀ x, ∀ y ∈ ys, r x y → g y = f x) → ys.map g = xs.map f
  | [], [], .nil, _ => rfl
  | x :: xs, y :: ys, .cons hxy h, hr => by
    rw [List.map_cons, List.map_cons, hr x y List.mem_cons_self hxy,
      map_eq_of_forall₂ h fun x y hy => hr x y (List.mem_cons_of_mem _ hy)]

theorem any_eq_of_forall₂ {α β : Type} {r : α → β → Prop} {f : α → Bool} {g : β → Bool}
    {xs : List α} {ys : List β} (h : List.Forall₂ r xs ys) (hr : ∀ x y, r x y → g y = f x) :
    ys.any g = xs.any f := by
  induction h with
  | nil => rfl
  | cons h _ ih => rw [List.any_cons, List.any_cons, hr _ _ h, ih]

/-! ## Types -/

/-- The names are the same. -/
def SameNames (is js : List Ident) : Prop := js.map (·.text) = is.map (·.text)

theorem SameNames.unplaced {is js : List Ident} (h : SameNames is js) :
    js.map (·.unplaced) = is.map (·.unplaced) := by
  have := congrArg (List.map fun s => (⟨s, .zero⟩ : Ident)) h
  rwa [List.map_map, List.map_map] at this

/-- The lengths are the same, and stand at places with `σ` if they are expressions. -/
inductive ArrayLength.Alike (σ : Span → Span → Prop) : ArrayLength → ArrayLength → Prop where
  | ellipsis {s s' : Span} : ArrayLength.Alike σ (.ellipsis s) (.ellipsis s')
  | expr {s s' : Span} {e : LengthExpr} (h : σ s s') : ArrayLength.Alike σ (.expr s e) (.expr s' e)

mutual

/-- The types are the same but for places and, if `k`, for parentheses that the second
    one has around types and around single results. -/
inductive TypeExpr.Alike (σ : Span → Span → Prop) (k : Prop) : TypeExpr → TypeExpr → Prop where
  | named {s s' : Span} {pkg pkg' : Option Ident} {name name' : Ident} {args args' : List TypeExpr}
      (hpkg : pkg'.map (·.text) = pkg.map (·.text)) (hname : name'.text = name.text)
      (hargs : List.Forall₂ (TypeExpr.Alike σ k) args args') :
      TypeExpr.Alike σ k (.named s pkg name args) (.named s' pkg' name' args')
  | pointer {s s' star star' : Span} {T T' : TypeExpr} (h : TypeExpr.Alike σ k T T') :
      TypeExpr.Alike σ k (.pointer s star T) (.pointer s' star' T')
  | array {s s' : Span} {length length' : ArrayLength} {T T' : TypeExpr}
      (hlength : length.Alike σ length') (h : TypeExpr.Alike σ k T T') :
      TypeExpr.Alike σ k (.array s length T) (.array s' length' T')
  | slice {s s' : Span} {T T' : TypeExpr} (h : TypeExpr.Alike σ k T T') :
      TypeExpr.Alike σ k (.slice s T) (.slice s' T')
  | map {s s' : Span} {K K' V V' : TypeExpr} (hk : TypeExpr.Alike σ k K K')
      (hv : TypeExpr.Alike σ k V V') : TypeExpr.Alike σ k (.map s K V) (.map s' K' V')
  | chan {s s' : Span} {dir : ChanDir} {T T' : TypeExpr} (h : TypeExpr.Alike σ k T T') :
      TypeExpr.Alike σ k (.chan s dir T) (.chan s' dir T')
  | struct {s s' : Span} {fields fields' : List Field}
      (h : List.Forall₂ (Field.Alike σ k) fields fields') :
      TypeExpr.Alike σ k (.struct s fields) (.struct s' fields')
  | interface {s s' : Span} {elems elems' : List InterfaceElem}
      (h : List.Forall₂ (InterfaceElem.Alike σ k) elems elems') :
      TypeExpr.Alike σ k (.interface s elems) (.interface s' elems')
  | func {s s' : Span} {sig sig' : Signature} (h : Signature.Alike σ k sig sig') :
      TypeExpr.Alike σ k (.func s sig) (.func s' sig')
  | paren {s s' : Span} {T T' : TypeExpr} (h : TypeExpr.Alike σ k T T') :
      TypeExpr.Alike σ k (.paren s T) (.paren s' T')
  | enclosed {s' : Span} {T T' : TypeExpr} (hk : k) (h : TypeExpr.Alike σ k T T') :
      TypeExpr.Alike σ k T (.paren s' T')

/-- The fields have the same names and types that are alike. -/
inductive Field.Alike (σ : Span → Span → Prop) (k : Prop) : Field → Field → Prop where
  | intro {f f' : Field} (names : SameNames f.names f'.names)
      (ellipsis : f'.ellipsis.isSome = f.ellipsis.isSome) (type : TypeExpr.Alike σ k f.type f'.type)
      (tag : Option.Rel σ f.tag f'.tag) (embedded : f'.embedded = f.embedded) :
      Field.Alike σ k f f'

/-- The members are methods of the same name, or unions, that are alike. -/
inductive InterfaceElem.Alike (σ : Span → Span → Prop) (k : Prop) :
    InterfaceElem → InterfaceElem → Prop where
  | method {name name' : Ident} {sig sig' : Signature} (hname : name'.text = name.text)
      (h : Signature.Alike σ k sig sig') :
      InterfaceElem.Alike σ k (.method name sig) (.method name' sig')
  | union {terms terms' : List Term} (h : List.Forall₂ (Term.Alike σ k) terms terms') :
      InterfaceElem.Alike σ k (.union terms) (.union terms')

/-- The terms have both `~` or none, and types that are alike. -/
inductive Term.Alike (σ : Span → Span → Prop) (k : Prop) : Term → Term → Prop where
  | intro {t t' : Term} (tilde : t'.tilde.isSome = t.tilde.isSome)
      (type : TypeExpr.Alike σ k t.type t'.type) : Term.Alike σ k t t'

/-- The signatures have parameters and results that are alike. -/
inductive Signature.Alike (σ : Span → Span → Prop) (k : Prop) : Signature → Signature → Prop where
  | intro {s s' : Signature} (params : FieldList.Alike σ k s.params s'.params)
      (results : Results.Alike σ k s.results s'.results) : Signature.Alike σ k s s'

/-- The results are of the same form, and alike; or, if `k`, the second ones are the single
    one in parentheses, a list of one field. -/
inductive Results.Alike (σ : Span → Span → Prop) (k : Prop) : Results → Results → Prop where
  | none : Results.Alike σ k .none .none
  | single {T T' : TypeExpr} (h : TypeExpr.Alike σ k T T') :
      Results.Alike σ k (.single T) (.single T')
  | list {l l' : FieldList} (h : FieldList.Alike σ k l l') : Results.Alike σ k (.list l) (.list l')
  | listed {T T' : TypeExpr} {o s e : Span} (hk : k) (h : TypeExpr.Alike σ k T T') :
      Results.Alike σ k (.single T) (.list ⟨o, [Param.anonymous s Option.none T'], e⟩)

/-- The lists have fields that are alike. -/
inductive FieldList.Alike (σ : Span → Span → Prop) (k : Prop) : FieldList → FieldList → Prop where
  | intro {l l' : FieldList} (h : List.Forall₂ (Field.Alike σ k) l.fields l'.fields) :
      FieldList.Alike σ k l l'

end

variable {σ : Span → Span → Prop} {k : Prop}

/-- The type is `func(…)`. -/
def TypeExpr.isFunc : TypeExpr → Bool
  | .func _ _ => true
  | _ => false

theorem TypeExpr.Alike.isFunc {T T' : TypeExpr} (h : T.Alike σ False T') (hT : T.isFunc = true) :
    T'.isFunc = true := by
  cases h with
  | func _ => rfl
  | enclosed hk _ => exact hk.elim
  | _ => cases hT

/-! ## Types without places -/

theorem unplacedMark_congr {s s' : Option Span} (h : s'.isSome = s.isSome) :
    unplacedMark s' = unplacedMark s := by
  cases s <;> cases s' <;> first | rfl | cases h

theorem Ident.unplaced_congr {i j : Ident} (h : j.text = i.text) : j.unplaced = i.unplaced := by
  rw [unplaced, unplaced, h]

theorem map_unplaced_congr {i j : Option Ident} (h : j.map (·.text) = i.map (·.text)) :
    j.map (·.unplaced) = i.map (·.unplaced) := by
  have := congrArg (Option.map fun s => (⟨s, .zero⟩ : Ident)) h
  rwa [Option.map_map, Option.map_map] at this

theorem ArrayLength.Alike.unplaced {l l' : ArrayLength} (h : l.Alike σ l') :
    l'.unplaced = l.unplaced := by
  cases h <;> rfl

/-- What is alike to the type is equal to it without places. -/
def TypeExpr.UnplacedAs (T' : TypeExpr) : Prop :=
  ∀ (σ : Span → Span → Prop) (T : TypeExpr), T.Alike σ False T' → T'.unplaced = T.unplaced

theorem Field.unplaced_eq (f : Field) : f.unplaced = ⟨.zero, f.names.map (·.unplaced),
    unplacedMark f.ellipsis, f.type.unplaced, unplacedMark f.tag, f.embedded⟩ := by
  obtain ⟨_, _, _, _, _, _⟩ := f
  rw [unplaced]

theorem Field.Alike.unplaced_of {f f' : Field} (h : f.Alike σ False f')
    (ih : f'.type.UnplacedAs) : f'.unplaced = f.unplaced := by
  obtain ⟨names, ellipsis, type, tag, embedded⟩ := h
  have htag : f'.tag.isSome = f.tag.isSome := by
    generalize f.tag = t, f'.tag = t' at tag
    cases tag <;> rfl
  rw [Field.unplaced_eq, Field.unplaced_eq, names.unplaced, unplacedMark_congr ellipsis,
    ih σ _ type, unplacedMark_congr htag, embedded]

theorem unplaced_fields_of_alike {fs fs' : List Field}
    (h : List.Forall₂ (Field.Alike σ False) fs fs') (ih : ∀ T ∈ fs'.map (·.type), T.UnplacedAs) :
    fs'.map (·.unplaced) = fs.map (·.unplaced) :=
  map_eq_of_forall₂ h fun _ _ hf' hff' => hff'.unplaced_of (ih _ (List.mem_map_of_mem hf'))

theorem FieldList.Alike.unplaced_of {l l' : FieldList} (h : l.Alike σ False l')
    (ih : ∀ T ∈ l'.types, T.UnplacedAs) : l'.unplaced = l.unplaced := by
  obtain ⟨h⟩ := h
  obtain ⟨_, _, _⟩ := l
  obtain ⟨_, _, _⟩ := l'
  simp only [FieldList.unplaced, unplacedFields_eq_map, unplaced_fields_of_alike h ih]

theorem Signature.Alike.unplaced_of {s s' : Signature} (h : s.Alike σ False s')
    (ih : ∀ T ∈ s'.types, T.UnplacedAs) : s'.unplaced = s.unplaced := by
  obtain ⟨params, results⟩ := h
  obtain ⟨hparams, hresults⟩ := List.forall_mem_append.1 ih
  have hsame : s'.results.unplaced = s.results.unplaced := by
    generalize s.results = r, s'.results = r' at results hresults
    cases results with
    | none => rfl
    | single h => simp only [Results.unplaced, hresults _ List.mem_cons_self σ _ h]
    | list h => simp only [Results.unplaced, h.unplaced_of hresults]
    | listed hk _ => exact hk.elim
  obtain ⟨_, _, _⟩ := s
  obtain ⟨_, _, _⟩ := s'
  simp only [Signature.unplaced, params.unplaced_of hparams, hsame]

theorem InterfaceElem.Alike.unplaced_of {e e' : InterfaceElem} (h : e.Alike σ False e')
    (ih : ∀ T ∈ e'.types, T.UnplacedAs) : e'.unplaced = e.unplaced := by
  cases h with
  | method hname h =>
    simp only [InterfaceElem.unplaced, Ident.unplaced_congr hname, h.unplaced_of ih]
  | union h =>
    simp only [InterfaceElem.unplaced, unplacedTerms_eq_map]
    rw [map_eq_of_forall₂ h]
    rintro ⟨_, _⟩ ⟨_, _⟩ ht' ⟨tilde, type⟩
    simp only [Term.unplaced, unplacedMark_congr tilde, ih _ (List.mem_map_of_mem ht') σ _ type]

theorem TypeExpr.unplacedAs (T' : TypeExpr) : T'.UnplacedAs := by
  induction TypeExpr.everywhere_of_forall (P := fun _ => True) (fun _ => trivial) T' with
  | @intro T' _ _ ih =>
    intro σ T h
    cases h with
    | named hpkg hname hargs =>
      simp only [TypeExpr.unplaced, unplacedTypes_eq_map, map_unplaced_congr hpkg,
        Ident.unplaced_congr hname]
      rw [map_eq_of_forall₂ hargs fun S S' hS' => ih S' hS' σ S]
    | array hlength h =>
      simp only [TypeExpr.unplaced, hlength.unplaced, ih _ (List.mem_singleton_self _) σ _ h]
    | map hk hv =>
      simp only [TypeExpr.unplaced, ih _ List.mem_cons_self σ _ hk,
        ih _ (List.mem_cons_of_mem _ List.mem_cons_self) σ _ hv]
    | struct h =>
      simp only [TypeExpr.unplaced, unplacedFields_eq_map, unplaced_fields_of_alike h ih]
    | interface h =>
      simp only [TypeExpr.unplaced, unplacedElems_eq_map]
      rw [map_eq_of_forall₂ h fun e e' he' hee' =>
        hee'.unplaced_of fun S hS => ih S (List.mem_flatMap.2 ⟨e', he', hS⟩)]
    | func h => simp only [TypeExpr.unplaced, h.unplaced_of ih]
    | pointer h | slice h | chan h | paren h =>
      simp only [TypeExpr.unplaced, ih _ (List.mem_singleton_self _) σ _ h]
    | enclosed hk _ => exact hk.elim

/-- **Types that are alike are equal without places.** -/
theorem TypeExpr.Alike.unplaced {T T' : TypeExpr} (h : T.Alike σ False T') :
    T'.unplaced = T.unplaced := T'.unplacedAs σ T h

theorem Term.Alike.unplaced {t t' : Term} (h : t.Alike σ False t') : t'.unplaced = t.unplaced := by
  obtain ⟨tilde, type⟩ := h
  obtain ⟨_, _⟩ := t
  obtain ⟨_, _⟩ := t'
  simp only [Term.unplaced, unplacedMark_congr tilde, type.unplaced]

/-! ## Lists of parameters -/

namespace Param

/-- The entries are of the same form, and alike. -/
inductive Alike (σ : Span → Span → Prop) (k : Prop) : Param → Param → Prop where
  | bare {name name' : Ident} (h : name'.text = name.text) : Alike σ k (.bare name) (.bare name')
  | typed {s s' : Span} {name name' : Option Ident} {ellipsis ellipsis' : Option Span}
      {T T' : TypeExpr} (hname : name'.map (·.text) = name.map (·.text))
      (hellipsis : ellipsis'.isSome = ellipsis.isSome) (h : T.Alike σ k T') :
      Alike σ k (.typed s name ellipsis T) (.typed s' name' ellipsis' T')

variable {ps ps' : List Param} {p p' : Param} {fs : List Field}

theorem Alike.isNamed (h : p.Alike σ k p') : p'.isNamed = p.isNamed := by
  cases h with
  | bare _ => rfl
  | @typed _ _ name name' _ _ _ _ hname _ _ =>
    cases name <;> cases name' <;> first | rfl | cases hname

theorem anonymous_alike {s s' : Span} {ellipsis ellipsis' : Option Span} {T T' : TypeExpr}
    (hellipsis : ellipsis'.isSome = ellipsis.isSome) (h : T.Alike σ k T') :
    (anonymous s ellipsis T).Alike σ k (anonymous s' ellipsis' T') :=
  .intro rfl hellipsis h .none rfl

theorem Alike.toAnonymous (h : p.Alike σ k p') : p.toAnonymous.Alike σ k p'.toAnonymous := by
  cases h with
  | bare h => exact anonymous_alike rfl (.named rfl h .nil)
  | typed _ hellipsis h => exact anonymous_alike hellipsis h

theorem toNamed_alike (h : List.Forall₂ (Alike σ k) ps ps') :
    ∀ {pending pending' : List Ident} {fs : List Field}, SameNames pending pending' →
    toNamed pending ps = .ok fs →
    ∃ fs', toNamed pending' ps' = .ok fs' ∧ List.Forall₂ (Field.Alike σ k) fs fs' := by
  induction h with
  | nil =>
    intro pending pending' fs hp hfs
    cases pending with
    | nil =>
      obtain rfl := List.map_eq_nil_iff.1 hp
      cases hfs
      exact ⟨[], rfl, .nil⟩
    | cons i is =>
      rw [toNamed, List.getLast?_eq_some_getLast (List.cons_ne_nil i is)] at hfs
      cases hfs
  | @cons _ _ qs _ h _ ih =>
    intro pending pending' fs hp hfs
    cases h with
    | bare h =>
      rw [toNamed] at hfs ⊢
      refine ih ?_ hfs
      rw [SameNames, List.map_append, List.map_append, hp, List.map_singleton, List.map_singleton,
        h]
    | @typed s s' name name' _ _ _ _ hname hellipsis h =>
      rw [toNamed] at hfs ⊢
      cases hmore : toNamed [] qs with
      | error _ =>
        rw [hmore] at hfs
        cases hfs
      | ok more =>
        obtain ⟨more', hmore', hsame⟩ := ih rfl hmore
        rw [hmore] at hfs
        cases hfs
        rw [hmore']
        refine ⟨_, rfl, .cons (.intro ?_ hellipsis h .none rfl) hsame⟩
        have hnames : name'.toList.map (·.text) = name.toList.map (·.text) := by
          cases name <;> cases name' <;> simp_all
        rw [SameNames, List.map_append, List.map_append, hp, hnames]

/-- **Entries that are alike have fields that are alike.** -/
theorem toFields_alike (h : List.Forall₂ (Alike σ k) ps ps') (hfs : toFields ps = .ok fs) :
    ∃ fs', toFields ps' = .ok fs' ∧ List.Forall₂ (Field.Alike σ k) fs fs' := by
  unfold toFields at hfs ⊢
  rw [any_eq_of_forall₂ h fun _ _ => Alike.isNamed]
  split at hfs
  · next hn => exact if_pos hn ▸ toNamed_alike h rfl hfs
  · next hn =>
    cases hfs
    rw [if_neg hn]
    refine ⟨_, rfl, ?_⟩
    rw [List.forall₂_map_left_iff, List.forall₂_map_right_iff]
    exact h.imp fun _ _ => Alike.toAnonymous

end Param

end GoDecls.Tree
