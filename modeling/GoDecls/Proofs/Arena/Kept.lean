/-
  What is read back from a store is read back from every later store.

  The readers are made of steps that may fail, and `Kept` says of two such steps
  that what the first gives the second gives too.  It passes through every way in
  which the readers put their steps together; so it holds of all of them, for any
  depth that is no smaller.
-/
import GoDecls.Proofs.Arena.Growth

namespace GoDecls.Arena

open Tree

variable {α β γ : Type}

/-- What the first gives, the second gives. -/
def Kept (o p : Option α) : Prop := ∀ a, o = some a → p = some a

namespace Kept

theorem refl (o : Option α) : Kept o o := fun _ h => h

theorem bind {o p : Option α} {f f' : α → Option β} (h : Kept o p)
    (hf : ∀ a, Kept (f a) (f' a)) : Kept (o.bind f) (p.bind f') := by
  intro b hb
  obtain ⟨a, ha, hb⟩ := Option.bind_eq_some_iff.1 hb
  exact Option.bind_eq_some_iff.2 ⟨a, h a ha, hf a b hb⟩

theorem map {o p : Option α} (h : Kept o p) (f : α → β) : Kept (o.map f) (p.map f) := by
  intro b hb
  obtain ⟨a, ha, rfl⟩ := Option.map_eq_some_iff.1 hb
  rw [h a ha, Option.map_some]

theorem mapM {f f' : α → Option β} (hf : ∀ a, Kept (f a) (f' a)) (as : List α) :
    Kept (as.mapM f) (as.mapM f') := by
  induction as with
  | nil => exact refl _
  | cons a as ih =>
    rw [List.mapM_cons, List.mapM_cons]
    exact (hf a).bind fun _ => ih.bind fun _ => refl _

end Kept

namespace Store

variable {s t : Store} {rec rec' : (k : Kind) → NodeId k → Option (Value k)}

theorem Steps.kept_node? (g : Steps s t) {k : Kind} (i : NodeId k) :
    Kept (s.node? i) (t.node? i) := fun _ => g.node?

/-- A list, item by item. -/
theorem Steps.kept_mapM (g : Steps s t) {b : Buffer} {f f' : Item b → Option α}
    (hf : ∀ item, Kept (f item) (f' item)) (r : ListRef b) :
    Kept ((s.list? r).bind (List.mapM f)) ((t.list? r).bind (List.mapM f')) :=
  Kept.bind (fun _ => g.list?) (Kept.mapM hf)

section

variable (g : Steps s t) (hr : ∀ k i, Kept (rec k i) (rec' k i))
include hr

theorem kept_lengthOf? (length : LengthRef) :
    Kept (lengthOf? rec length) (lengthOf? rec' length) := by
  cases length with
  | ellipsis span => exact .refl _
  | expr i => exact hr _ i

theorem kept_termOf? (term : TermItem) : Kept (termOf? rec term) (termOf? rec' term) :=
  (hr .type term.type).map _

theorem kept_typeParamsOf? (params : Option (NodeId .typeParams)) :
    Kept (typeParamsOf? rec params) (typeParamsOf? rec' params) := by
  cases params with
  | none => exact .refl _
  | some i => exact (hr _ i).map _

include g

theorem kept_fieldOf? (node : FieldNode) (span : Span) :
    Kept (s.fieldOf? rec node span) (t.fieldOf? rec' node span) :=
  Kept.bind (fun _ => g.list?) fun _ => (hr .type node.type).map _

theorem kept_fieldsOf? (fs : FieldsRef) : Kept (s.fieldsOf? rec fs) (t.fieldsOf? rec' fs) :=
  (g.kept_mapM (hr .field) fs.fields).map _

theorem kept_resultsOf? (results : ResultsRef) :
    Kept (s.resultsOf? rec results) (t.resultsOf? rec' results) := by
  cases results with
  | none => exact .refl _
  | single type => exact (hr _ type).map _
  | list fields => exact (kept_fieldsOf? g hr fields).map _

theorem kept_signatureOf? (node : SignatureNode) (span : Span) :
    Kept (s.signatureOf? rec node span) (t.signatureOf? rec' node span) :=
  (kept_fieldsOf? g hr _).bind fun _ => (kept_resultsOf? g hr _).map _

theorem kept_termsOf? (r : ListRef .terms) : Kept (s.termsOf? rec r) (t.termsOf? rec' r) :=
  g.kept_mapM (kept_termOf? hr) r

theorem kept_elemOf? (elem : ElemItem) : Kept (s.elemOf? rec elem) (t.elemOf? rec' elem) := by
  cases elem with
  | method name sig => exact (hr _ sig).map _
  | union terms => exact (kept_termsOf? g hr terms).map _

theorem kept_typeOf? (node : TypeNode) (span : Span) :
    Kept (s.typeOf? rec node span) (t.typeOf? rec' node span) := by
  cases node with
  | named pkg name args => exact (g.kept_mapM (hr .type) args).map _
  | pointer star elem => exact (hr _ elem).map _
  | array length elem => exact (kept_lengthOf? hr length).bind fun _ => (hr _ elem).map _
  | slice elem => exact (hr _ elem).map _
  | map key value => exact (hr _ key).bind fun _ => (hr _ value).map _
  | chan dir elem => exact (hr _ elem).map _
  | struct fields => exact (g.kept_mapM (hr .field) fields).map _
  | interface elems => exact (g.kept_mapM (kept_elemOf? g hr) elems).map _
  | func sig => exact (hr _ sig).map _
  | paren inner => exact (hr _ inner).map _

theorem kept_typeParamOf? (node : TypeParamNode) (span : Span) :
    Kept (s.typeParamOf? rec node span) (t.typeParamOf? rec' node span) :=
  Kept.bind (fun _ => g.list?) fun _ => (kept_termsOf? g hr _).map _

theorem kept_nodeOf? {k : Kind} (node : Node k) (span : Span) :
    Kept (s.nodeOf? rec k node span) (t.nodeOf? rec' k node span) := by
  cases k with
  | type => exact kept_typeOf? g hr node span
  | expr => exact .refl _
  | signature => exact kept_signatureOf? g hr node span
  | field => exact kept_fieldOf? g hr node span
  | typeParams => exact (g.kept_mapM (hr .typeParam) node).map _
  | typeParam => exact kept_typeParamOf? g hr node span
  | comment => exact .refl _
  | group => exact (g.kept_mapM (hr .comment) node).map _

end

theorem Steps.kept_groupNumber? (g : Steps s t) (i : Option (NodeId .group)) :
    Kept (s.groupNumber? i) (t.groupNumber? i) := by
  cases i with
  | none => exact .refl _
  | some i => exact (g.kept_node? i).map _

theorem Steps.kept_importOf? (g : Steps s t) (item : ImportItem) :
    Kept (s.importOf? item) (t.importOf? item) := (g.kept_groupNumber? _).map _

section

variable (g : Steps s t) (hr : ∀ k i, Kept (rec k i) (rec' k i))
include g hr

theorem kept_typeSpecOf? (item : TypeItem) :
    Kept (s.typeSpecOf? rec item) (t.typeSpecOf? rec' item) :=
  (g.kept_groupNumber? _).bind fun _ => (g.kept_groupNumber? _).bind fun _ =>
    (kept_typeParamsOf? hr _).bind fun _ => (hr .type item.type).map _

theorem kept_specOf? (spec : SpecItem) : Kept (s.specOf? rec spec) (t.specOf? rec' spec) := by
  cases spec with
  | imported item => exact (g.kept_importOf? item).map _
  | type item => exact (kept_typeSpecOf? g hr item).map _

theorem kept_declOf? (decl : DeclItem) : Kept (s.declOf? rec decl) (t.declOf? rec' decl) := by
  cases decl with
  | func span => exact .refl _
  | gen kind head specs =>
    exact (g.kept_groupNumber? _).bind fun _ =>
      (g.kept_mapM (kept_specOf? g hr) specs).bind fun _ => .refl _

theorem kept_itemOf? {b : Buffer} (item : Item b) :
    Kept (s.itemOf? rec b item) (t.itemOf? rec' b item) := by
  cases b with
  | idents => exact .refl _
  | specs => exact kept_specOf? g hr item
  | decls => exact kept_declOf? g hr item
  | terms => exact kept_termOf? hr item
  | elems => exact kept_elemOf? g hr item
  | types | fields | typeParams | comments | groups => exact hr _ item

end

/-- A node is read back from every later store, from any depth that is no smaller. -/
theorem Steps.kept_valueAt? (g : Steps s t) {m n : Nat} (h : m ≤ n) (k : Kind) (i : NodeId k) :
    Kept (s.valueAt? m k i) (t.valueAt? n k i) := by
  induction m generalizing n k i with
  | zero => exact fun _ h => by cases h
  | succ m ih =>
    obtain ⟨n, rfl⟩ : ∃ n', n = n' + 1 := ⟨n - 1, by omega⟩
    exact (g.kept_node? i).bind fun p =>
      kept_nodeOf? g (fun k i => ih (Nat.le_of_succ_le_succ h) k i) p.1 p.2

/-- A node is read back from every later store. -/
theorem Steps.kept_value? (g : Steps s t) (k : Kind) (i : NodeId k) :
    Kept (s.value? k i) (t.value? k i) :=
  g.kept_valueAt? g.size_le k i

/-- A list is read back from every later store. -/
theorem Steps.kept_listOf? (g : Steps s t) {b : Buffer} (r : ListRef b) :
    Kept (s.listOf? r) (t.listOf? r) :=
  g.kept_mapM (kept_itemOf? g g.kept_value?) r

end Store

end GoDecls.Arena
