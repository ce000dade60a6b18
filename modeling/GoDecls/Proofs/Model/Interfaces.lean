/-
  Interfaces that are not marked incomplete.

  The mark stands for unions and for types behind `~`.  An embedded instance of a
  generic type has no shape either, and it goes missing without a mark
  (`SourceUnit.ofText_embedded_instance`).

  * `Mirrors.eq_interface`: the shape of an interface is an interface, whose mark says
    whether a union is among the elements;
  * `InterfaceElem.isKept_eq`: of what is no union only embedded instances are dropped;
  * `SourceUnit.complete_interfaces`: the members of an interface without the mark are
    its elements in order, but for embedded instances.
-/
import GoDecls.Proofs.Model.Supported

namespace GoDecls.Tree

/-- The element is an embedded type that holds an instance. -/
def InterfaceElem.embedsInstance : InterfaceElem → Bool
  | .method _ _ => false
  | .union terms => (soleType? terms).any (·.holdsInstance)

/-- The elements of an interface; other types have none. -/
def TypeExpr.elems : TypeExpr → List InterfaceElem
  | .interface _ elems => elems
  | _ => []

/-- Of elements that are no unions those are kept that do not embed an instance. -/
theorem InterfaceElem.isKept_eq {e : InterfaceElem} (h : e.isUnion = false) :
    e.isKept = !e.embedsInstance := by
  cases e with
  | method name sig => rfl
  | union terms =>
    rw [isUnion] at h
    rw [isKept, keepsTerms, embedsInstance]
    cases hT : soleType? terms with
    | none =>
      rw [hT] at h
      cases h
    | some T => rfl

theorem TypeExpr.eq_interface_of_elems {T : TypeExpr} (h : T.elems ≠ []) :
    ∃ span, T = .interface span T.elems := by
  cases T with
  | interface span elems => exact ⟨span, rfl⟩
  | _ => exact absurd rfl h

end GoDecls.Tree

namespace GoDecls.Model

variable {text : List Char} {span : Span} {elems : List Tree.InterfaceElem}

/-- The members of an interface without a mark; other shapes have none. -/
def Shape.members? : Shape → Option (List Field)
  | .interface methods false => some methods
  | _ => none

/-- The names of the members of an interface whose shape is without a mark. -/
def memberNames? (text : List Char) (T : Tree.TypeExpr) : Option (List (List String)) :=
  ((Shape.ofType text T).toOption.join.bind Shape.members?).map (·.map Field.effectiveNames)

theorem Shape.eq_interface_of_members? {s : Shape} {ms : List Field}
    (h : s.members? = some ms) : s = .interface ms false := by
  cases s with
  | interface methods incomplete =>
    cases incomplete <;> cases h
    rfl
  | _ => cases h

/-- What has names of members is an interface with these members. -/
theorem exists_of_memberNames? {T : Tree.TypeExpr} {names : List (List String)}
    (h : memberNames? text T = some names) :
    ∃ ms, Shape.ofType text T = .ok (some (.interface ms false)) ∧
      ms.map Field.effectiveNames = names := by
  obtain ⟨ms, hmembers, hnames⟩ := Option.map_eq_some_iff.1 h
  obtain ⟨s, hs, hms⟩ := Option.bind_eq_some_iff.1 hmembers
  cases hshape : Shape.ofType text T with
  | error e =>
    rw [hshape] at hs
    cases hs
  | ok x =>
    rw [hshape] at hs
    obtain rfl : x = some s := hs
    exact ⟨ms, by rw [Shape.eq_interface_of_members? hms], hnames⟩

/-- A text whose one declared type is an interface without a mark. -/
theorem exists_of_interfaces (text : List Char) (n : Nat) (names : List (List String))
    (h : (Tree.SourceFile.ofText text).toOption.map (fun file => (typeSpecs file).map fun p =>
      (p.2.type.elems.length, memberNames? text p.2.type)) = some [(n, some names)]) :
    ∃ file, Tree.SourceFile.ofText text = .ok file ∧ ∃ p ∈ typeSpecs file,
      p.2.type.elems.length = n ∧
      ∃ ms, Shape.ofType text p.2.type = .ok (some (.interface ms false)) ∧
        ms.map Field.effectiveNames = names := by
  cases hfile : Tree.SourceFile.ofText text with
  | error ds =>
    rw [hfile] at h
    cases h
  | ok file =>
    rw [hfile] at h
    obtain ⟨p, hp, hlength⟩ := List.map_eq_singleton_iff.1 (Option.some.inj h)
    obtain ⟨hlength, hnames⟩ := Prod.mk.inj hlength
    exact ⟨file, rfl, p, hp ▸ List.mem_singleton_self p, hlength, exists_of_memberNames? hnames⟩

theorem Mirrors.eq_interface {s : Shape} (h : Mirrors text (.interface span elems) s) :
    ∃ ms, s = .interface ms (elems.any (·.isUnion)) ∧
      List.Forall₂ (ElemMirrors text) (elems.filter (·.isKept)) ms := by
  cases h with
  | interface h => exact ⟨_, rfl, h⟩

/-- What an interface without a mark holds. -/
theorem Gives.complete {E : ConvertError → Prop} {ms : List Field}
    (h : Gives text E (.interface span elems))
    (hms : Shape.ofType text (.interface span elems) = .ok (some (.interface ms false))) :
    (∀ e ∈ elems, e.isUnion = false) ∧
      List.Forall₂ (ElemMirrors text) (elems.filter (!·.embedsInstance)) ms := by
  rw [Gives, hms] at h
  obtain ⟨ms', heq, hrow⟩ := (PresentUnless.prop h _ rfl).eq_interface
  obtain ⟨rfl, hmark⟩ := Shape.interface.inj heq
  have hunion : ∀ e ∈ elems, e.isUnion = false := fun e he =>
    Bool.eq_false_iff.2 (List.any_eq_false.1 hmark.symm e he)
  rw [List.filter_congr fun e he => Tree.InterfaceElem.isKept_eq (hunion e he)] at hrow
  exact ⟨hunion, hrow⟩

/-- **An interface that is not marked has all members but embedded instances.**  Every
    interface in a source file whose shape has no mark is without unions and types behind
    `~`.  Its members are its elements in order, a method under its name with its function
    type and an embedded type as an embedded field, except for embedded types that hold
    an instance; if there is none of these, there are as many members as elements. -/
theorem SourceUnit.complete_interfaces {text : String} {file : Tree.SourceFile}
    (h : Tree.SourceFile.ofText text.toList = .ok file) :
    ∀ p ∈ typeSpecs file, p.2.Everywhere fun S => ∀ span elems ms, S = .interface span elems →
      Shape.ofType text.toList S = .ok (some (.interface ms false)) →
      (∀ e ∈ elems, e.isUnion = false) ∧
      List.Forall₂ (ElemMirrors text.toList) (elems.filter (!·.embedsInstance)) ms ∧
      (ms.length = elems.length ↔ ∀ e ∈ elems, e.embedsInstance = false) := by
  intro p hp
  have hsound := sound_of_mem_typeSpecs (Tree.SourceFile.sound_ofText h) p hp
  refine (everywhere_gives (specConverts_of_sound hsound)).imp ?_
  rintro _ hgives span elems ms rfl hms
  obtain ⟨hunion, hrow⟩ := hgives.complete hms
  refine ⟨hunion, hrow, ?_⟩
  rw [← hrow.length_eq, List.length_filter_eq_length_iff]
  simp only [Bool.not_eq_true']

/-- An interface without a mark with a method and two embedded types, one of which is
    dropped. -/
theorem SourceUnit.complete_interfaces_generic :
    let text := "package p\n\ntype I interface \x7b\n\tm(a int) error\n\tG[int]\n\tq.E\n\x7d\n"
    ∃ file, Tree.SourceFile.ofText text.toList = .ok file ∧ ∃ p ∈ typeSpecs file,
      ∃ ms, Shape.ofType text.toList p.2.type = .ok (some (.interface ms false)) ∧
        p.2.type.elems.length = 3 ∧ ms.map Field.effectiveNames = [["m"], ["E"]] ∧
        List.Forall₂ (ElemMirrors text.toList) (p.2.type.elems.filter (!·.embedsInstance)) ms := by
  intro text
  obtain ⟨file, hfile, p, hp, hlength, ms, hms, hnames⟩ :=
    exists_of_interfaces text.toList 3 [["m"], ["E"]] (by decide +kernel)
  obtain ⟨span, htype⟩ := Tree.TypeExpr.eq_interface_of_elems
    (List.ne_nil_of_length_eq_add_one hlength)
  have hcomplete := (complete_interfaces hfile p hp).type.self span _ ms htype hms
  exact ⟨file, hfile, p, hp, ms, hms, hlength, hnames, hcomplete.2.1⟩

/-- An interface of one element, an embedded instance, has no member and is not marked. -/
theorem SourceUnit.ofText_embedded_instance :
    let text := "package p\ntype I interface \x7b List[int] \x7d\n"
    ∃ file, Tree.SourceFile.ofText text.toList = .ok file ∧ ∃ p ∈ typeSpecs file, ∃ span elem,
      p.2.type = .interface span [elem] ∧
        Shape.ofType text.toList p.2.type = .ok (some (.interface [] false)) := by
  intro text
  obtain ⟨file, hfile, p, hp, hlength, ms, hms, hnames⟩ :=
    exists_of_interfaces text.toList 1 [] (by decide +kernel)
  obtain ⟨span, htype⟩ := Tree.TypeExpr.eq_interface_of_elems
    (List.ne_nil_of_length_eq_add_one hlength)
  obtain ⟨elem, helem⟩ := List.length_eq_one_iff.1 hlength
  obtain rfl := List.map_eq_nil_iff.1 hnames
  exact ⟨file, hfile, p, hp, span, elem, helem ▸ htype, hms⟩

end GoDecls.Model
