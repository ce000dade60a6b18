/-
  How large a store gets: no arena and no buffer has more entries than tokens were
  read (`typeIn_costs`).

  `Costs s n w o` is an account of a reader that was given `n` tokens: for each arena
  and each buffer, what it has grown by, what the result still owes to it (`w`), and
  the tokens that are left come to `n` at the most.  A list that is not yet in its
  buffer is owed there, and a type owes nothing but leaves the token over that no
  other arena needs.
-/
import GoDecls.Proofs.Arena.Growth
import GoDecls.Arena.Types

namespace GoDecls

open Tree Arena Store

namespace Arena

/-- What is counted: the nodes of a kind, or the items of a buffer. -/
inductive Count where
  | nodes (k : Kind)
  | items (b : Buffer)
deriving DecidableEq

/-- The number of nodes of a kind, or of items of a buffer. -/
def Store.count (s : Store) : Count → Nat
  | .nodes k => (s.nodes k).length
  | .items b => (s.lists b).length

/-- So much to one of the arenas and buffers, and nothing to the others. -/
def owed (n : Nat) (a x : Count) : Nat := if x = a then n else 0

/-- What the members of a list owe together. -/
def total {γ : Type} (due : γ → Nat) : List γ → Nat
  | [] => 0
  | c :: cs => due c + total due cs

section

variable {s : Store} {n : Nat} {a b x : Count}

@[simp] theorem owed_zero : owed 0 a x = 0 := by simp [owed]

/-- A list owes for its first item and for the others. -/
theorem owed_cons {α : Type} {i : α} {is : List α} :
    owed (i :: is).length a x = owed 1 a x + owed is.length a x := by
  rw [List.length_cons]
  unfold owed; split <;> omega

theorem owed_add {m : Nat} : owed (m + n) a x = owed m a x + owed n a x := by
  unfold owed; split <;> rfl

theorem owed_le : owed n a x ≤ n := by
  unfold owed; split <;> omega

/-- No two are one. -/
theorem owed_add_le (h : a ≠ b) : owed 1 a x + owed 1 b x ≤ 1 := by
  unfold owed
  split
  · next hx => exact Nat.le_of_eq (by rw [if_neg (hx ▸ h)])
  · split <;> omega

@[simp] theorem count_alloc {k : Kind} {node : Node k} {span : Span} :
    (s.alloc node span).2.count x = s.count x + owed 1 (.nodes k) x := by
  cases x with
  | nodes j =>
    by_cases hj : j = k
    · subst hj; simp [Store.count, alloc, owed]
    · simp [Store.count, alloc, owed, hj]
  | items b => simp [Store.count, alloc, owed]

@[simp] theorem count_push {b : Buffer} {items : List (Item b)} :
    (s.push items).2.count x = s.count x + owed items.length (.items b) x := by
  cases x with
  | nodes k => simp [Store.count, push, owed]
  | items j =>
    by_cases hj : j = b
    · subst hj; simp [Store.count, push, owed]
    · simp [Store.count, push, owed, hj]

/-- Things that are added one after the other, and are owed to a list, cost what each
    of them does. -/
theorem count_storeAll {β γ : Type} {f : γ → Store → β × Store} {due : γ → Nat} {cs : List γ}
    (hf : ∀ c ∈ cs, ∀ s, (f c s).2.count x + owed 1 a x ≤ s.count x + due c) :
    (storeAll f cs s).2.count x + owed (storeAll f cs s).1.length a x ≤
      s.count x + total due cs := by
  induction cs generalizing s with
  | nil => simp [storeAll, total]
  | cons c cs ih =>
    obtain ⟨hc, hcs⟩ := List.forall_mem_cons.1 hf
    have := hc s
    have := ih hcs (s := (f c s).2)
    simp only [storeAll, owed_cons, total]
    omega

end

/-! ## Accounts -/

variable {α β γ : Type} {s t : Store} {c d : Cursor} {n m : Nat}
  {w v : β → Count → Nat} {w' : γ → Count → Nat}

/-- What was added, what is owed, and the tokens that are left come to `n`. -/
def Costs (s : Store) (n : Nat) (w : β → Count → Nat) : Outcome (β × Store) c → Prop
  | .ok r d _ => ∀ x, r.2.count x + w r.1 x + d.left ≤ s.count x + n
  | .error .. => True

namespace Costs

theorem lift {o : Outcome (β × Store) d} (h : Costs s n w o) (k : d.left ≤ c.left) :
    Costs s n w (o.lift k) := by
  cases o <;> exact h

theorem after {o : Outcome (β × Store) d} (h : Costs s n w o) (k : d.left < c.left) :
    Costs s n w (o.after k) := h.lift _

/-- With more tokens, and from a smaller store. -/
theorem weaken {o : Outcome (β × Store) c} (h : Costs t m v o)
    (hw : ∀ b x, t.count x + m + w b x ≤ s.count x + n + v b x) : Costs s n w o := by
  cases o with
  | ok r d k =>
    intro x
    have := h x
    have := hw r.1 x
    omega
  | error => trivial

theorem andThen {o : Outcome (β × Store) c}
    {f : (r : β × Store) → (d : Cursor) → d.left < c.left → Outcome (γ × Store) c}
    (h : Costs t m v o)
    (hf : ∀ r d k, (∀ x, r.2.count x + v r.1 x + d.left ≤ t.count x + m) →
      Costs s n w' (f r d k)) : Costs s n w' (o.andThen f) := by
  cases o with
  | ok r d k => exact hf r d k h
  | error => trivial

theorem bind {o : Outcome (β × Store) c}
    {f : (r : β × Store) → (d : Cursor) → d.left < c.left → Outcome (γ × Store) d}
    (h : Costs t m v o)
    (hf : ∀ r d k, (∀ x, r.2.count x + v r.1 x + d.left ≤ t.count x + m) →
      Costs s n w' (f r d k)) : Costs s n w' (o.bind f) :=
  h.andThen fun r d k hr => (hf r d k hr).after k

theorem map {o : Outcome (β × Store) c} {f : β × Store → Cursor → γ × Store}
    (h : Costs t m v o)
    (hf : ∀ r d x, r.2.count x + v r.1 x + d.left ≤ t.count x + m →
      (f r d).2.count x + w' (f r d).1 x + d.left ≤ s.count x + n) :
    Costs s n w' (o.map f) :=
  h.andThen fun r d _ hr x => hf r d x (hr x)

theorem sameThen (o : Outcome α c)
    {f : α → (d : Cursor) → d.left < c.left → Outcome (γ × Store) c}
    (hf : ∀ a d m, Costs s n w' (f a d m)) : Costs s n w' (o.andThen f) := by
  cases o with
  | ok a d m => exact hf a d m
  | error => trivial

theorem sameBind (o : Outcome α c)
    {f : α → (d : Cursor) → d.left < c.left → Outcome (γ × Store) d}
    (hf : ∀ a d m, Costs s n w' (f a d m)) : Costs s n w' (o.bind f) :=
  sameThen o fun a d m => (hf a d m).after m

theorem sameMap (o : Outcome α c) {f : α → Cursor → γ × Store}
    (hf : ∀ a d x, d.left < c.left → (f a d).2.count x + w' (f a d).1 x + d.left ≤ s.count x + n) :
    Costs s n w' (o.map f) :=
  sameThen o fun a d m x => hf a d x m

end Costs

/-! ## What types and entries leave and owe -/

/-- A type needs its token for itself only: it is left over for all other arenas and
    for all buffers. -/
def spare (x : Count) : Nat := 1 - owed 1 (.nodes .type) x

theorem owed_add_spare (x : Count) : owed 1 (.nodes .type) x + spare x = 1 := by
  have := owed_le (n := 1) (a := .nodes .type) (x := x)
  unfold spare; omega

theorem owed_le_spare {a : Count} (h : a ≠ .nodes .type) (x : Count) : owed 1 a x ≤ spare x := by
  have := owed_add_le (x := x) h
  have := owed_add_spare x
  omega

/-- A new type and the token it leaves over come to one. -/
theorem count_storeType {node : TypeNode} {start : Nat} {e : Cursor} {x : Count} :
    (storeType node start e s).2.count x + spare x = s.count x + 1 := by
  rw [← owed_add_spare x, ← Nat.add_assoc]
  exact congrArg (· + spare x) count_alloc

/-- A list of terms is owed, and the token of its first type is left over. -/
def termsDue (terms : List TermItem) (x : Count) : Nat :=
  owed terms.length (.items .terms) x + (spare x - owed 1 (.items .terms) x)

/-- An entry of a list of parameters owes a field and the item of a list, its name
    and, if it is bare, its type. -/
def Entry.due (e : Entry) (x : Count) : Nat :=
  owed 1 (.nodes .field) x + owed 1 (.items .fields) x +
    match e with
    | .bare _ => owed 1 (.nodes .type) x + owed 1 (.items .idents) x
    | .typed _ name _ _ => owed name.toList.length (.items .idents) x

/-- What the entries of a list owe. -/
def entriesDue (es : List Entry) (x : Count) : Nat := total (·.due x) es

theorem entriesDue_nil {x : Count} : entriesDue [] x = 0 := rfl

theorem entriesDue_cons {e : Entry} {es : List Entry} {x : Count} :
    entriesDue (e :: es) x = e.due x + entriesDue es x := rfl

theorem owed_le_termsDue (terms : List TermItem) {a : Count} (ht : a ≠ .nodes .type)
    (hi : a ≠ .items .terms) (x : Count) :
    owed terms.length (.items .terms) x + owed 1 a x ≤ termsDue terms x := by
  have := owed_le_spare ht x
  have := owed_le_spare (a := .items .terms) (by decide) x
  have := owed_add_le (x := x) hi
  have := owed_add_spare x
  unfold termsDue
  omega

namespace Entry

theorem due_bare_le (name : Ident) (x : Count) : (Entry.bare name).due x ≤ 1 := by
  have := owed_add_le (a := .nodes .field) (b := .items .fields) (x := x) (by decide)
  have := owed_add_le (a := .nodes .field) (b := .nodes .type) (x := x) (by decide)
  have := owed_add_le (a := .nodes .field) (b := .items .idents) (x := x) (by decide)
  have := owed_add_le (a := .items .fields) (b := .nodes .type) (x := x) (by decide)
  have := owed_add_le (a := .items .fields) (b := .items .idents) (x := x) (by decide)
  have := owed_add_le (a := .nodes .type) (b := .items .idents) (x := x) (by decide)
  simp only [due]
  omega

theorem due_typed_le (span : Span) (ellipsis : Option Span) (type : NodeId .type) (x : Count) :
    (Entry.typed span none ellipsis type).due x ≤ spare x := by
  have := owed_add_le (a := .nodes .field) (b := .items .fields) (x := x) (by decide)
  have := owed_le_spare (a := .nodes .field) (by decide) x
  have := owed_le_spare (a := .items .fields) (by decide) x
  simp only [due, Option.toList_none, List.length_nil, owed_zero]
  omega

theorem due_named_le (span : Span) (name : Ident) (ellipsis : Option Span) (type : NodeId .type)
    (x : Count) : (Entry.typed span (some name) ellipsis type).due x ≤ spare x + 1 := by
  have h := due_typed_le span ellipsis type x
  have := owed_le (n := 1) (a := .items .idents) (x := x)
  simp only [due, Option.toList_none, Option.toList_some, List.length_nil, List.length_singleton,
    owed_zero] at h ⊢
  omega

theorem count_storeAnonymous (e : Entry) (s : Store) (x : Count) :
    (e.storeAnonymous s).2.count x + owed 1 (.items .fields) x ≤ s.count x + e.due x := by
  cases e with
  | bare name => simp only [storeAnonymous, count_alloc, due]; omega
  | typed span name ellipsis type => simp only [storeAnonymous, count_alloc, due]; omega

theorem count_storeNamed (es : List Entry) (s : Store) (pending : List Ident)
    {r : List (NodeId .field) × Store} (h : storeNamed pending es s = .ok r) (x : Count) :
    r.2.count x + owed r.1.length (.items .fields) x ≤
      s.count x + entriesDue es x + owed pending.length (.items .idents) x := by
  induction es generalizing s pending r with
  | nil =>
    rw [storeNamed] at h
    split at h
    · cases h
      simp only [List.length_nil, owed_zero]; omega
    · cases h
  | cons e es ih =>
    cases e with
    | bare name =>
      have := ih s (pending ++ [name]) h
      simp only [List.length_append, List.length_singleton, owed_add] at this
      simp only [entriesDue_cons, due]
      omega
    | typed span name ellipsis type =>
      rw [storeNamed] at h
      generalize hmore : storeNamed [] es _ = o at h
      cases o with
      | error => cases h
      | ok more =>
        cases h
        have := ih _ [] hmore
        simp only [count_alloc, count_push, List.length_append, List.length_nil, owed_add,
          owed_zero] at this
        simp only [entriesDue_cons, due, owed_cons]
        omega

/-- The fields of a list cost what its entries owe. -/
theorem count_storeFields {es : List Entry} {r : List (NodeId .field) × Store}
    (h : storeFields es s = .ok r) (x : Count) :
    r.2.count x + owed r.1.length (.items .fields) x ≤ s.count x + entriesDue es x := by
  unfold storeFields at h
  split at h
  · simpa using count_storeNamed es s [] h x
  · cases h
    exact count_storeAll fun e _ s => count_storeAnonymous e s x

end Entry

end Arena

/-! ## The readers -/

namespace Tree.Cursor

open Arena.Costs

/-- Each name of a list is a token. -/
theorem names_left (c : Cursor) (what : String) {d : Cursor} {names : List Ident}
    {m : d.left < c.left} (h : c.names what = .ok names d m) : names.length + d.left ≤ c.left := by
  rw [Cursor.names] at h
  cases hname : c.ident what with
  | error => rw [hname] at h; cases h
  | ok name e k =>
    rw [hname, Outcome.andThen] at h
    split at h
    · cases hmore : e.advance.names what with
      | error => rw [hmore] at h; cases h
      | ok more f l =>
        rw [hmore] at h
        cases h
        have := names_left e.advance what hmore
        have := e.advance_le
        rw [List.length_cons]; omega
    · cases h
      rw [List.length_singleton]; omega
termination_by c.left
decreasing_by exact Nat.lt_of_le_of_lt e.advance_le k

mutual

theorem typeIn_costs (c : Cursor) (s : Store) : Costs s c.left (fun _ => spare) (c.typeIn s) := by
  have hle := c.advance_le
  have hlt {t : Token} (h : c.token? = some t) := advance_lt h
  rw [typeIn]
  split
  · exact namedTypeIn_costs c s
  · exact ((arrayTypeIn_costs c.advance s _).lift _).weaken fun _ x => by omega
  · refine Costs.map (t := s) (m := c.left) (v := fun fs x => owed fs.length (.items .fields) x + 1)
      (Costs.lift (sameBind _ fun _ d m => ?_) _) fun r e x hr => ?_
    · exact (structFieldsIn_costs d s).weaken fun _ x => by omega
    · rw [count_storeType, count_push]
      omega
  · refine Costs.map (t := s) (m := c.left) (v := fun es x => owed es.length (.items .elems) x + 1)
      (Costs.lift (sameBind _ fun _ d m => ?_) _) fun r e x hr => ?_
    · exact (interfaceElemsIn_costs d s).weaken fun _ x => by omega
    · rw [count_storeType, count_push]
      omega
  · next h =>
    have := hlt h
    exact ((typeIn_costs c.advance s).lift _).map fun r d x hr => by
      rw [count_storeType]; omega
  · refine Costs.lift (sameBind _ fun _ d _ => (typeIn_costs d s).bind fun key e _ hkey => ?_) _
    exact sameBind _ fun _ f _ => (typeIn_costs f key.2).map fun value g x hr => by
      rw [count_storeType]
      have := hkey x
      omega
  · next h =>
    have := hlt h
    have := c.advance.advance_le
    split
    · exact ((typeIn_costs c.advance.advance s).lift _).map fun r d x hr => by
        rw [count_storeType]; omega
    · exact ((typeIn_costs c.advance s).lift _).map fun r d x hr => by
        rw [count_storeType]; omega
  · exact Costs.lift (sameBind _ fun _ d _ => (typeIn_costs d s).map fun r e x hr => by
      rw [count_storeType]; omega) _
  · next h =>
    have := hlt h
    exact ((signatureIn_costs c.advance s _).lift _).map fun r d x hr => by
      rw [count_storeType]; omega
  · next h =>
    have := hlt h
    refine Costs.lift ((typeIn_costs c.advance s).bind fun inner d _ hinner => ?_) _
    exact sameMap _ fun _ e x _ => by
      rw [count_storeType]
      have := hinner x
      omega
  · trivial
termination_by 6 * c.left + 1
decreasing_by
  all_goals first | omega | (have h := left_pos ‹_›; simp only [left_advance] at *; omega)

theorem namedTypeIn_costs (c : Cursor) (s : Store) :
    Costs s c.left (fun _ => spare) (c.namedTypeIn s) := by
  rw [namedTypeIn]
  refine sameThen _ fun name d m => ?_
  split
  · have := d.advance_le
    exact (((typeArgsIn_costs d.advance s).lift _).after _).map fun args e x hr => by
      rw [count_storeType, count_push]; omega
  · intro x
    rw [count_storeType]; omega
termination_by 6 * c.left + 0
decreasing_by rw [left_advance]; omega

theorem typeArgsIn_costs (c : Cursor) (s : Store) :
    Costs s c.left (fun ids => owed ids.length (.items .types)) (c.typeArgsIn s) := by
  have hspare := owed_le_spare (a := .items .types) (by decide)
  rw [typeArgsIn]
  split
  · intro x
    have := c.advance_le
    simp only [List.length_nil, owed_zero]; omega
  · refine (typeIn_costs c s).bind fun arg d _ harg => ?_
    split
    · have := d.advance_le
      exact ((typeArgsIn_costs d.advance arg.2).lift _).map fun r e x hr => by
        simp only [owed_cons]
        have := harg x
        have := hspare x
        omega
    · exact sameMap _ fun _ e x _ => by
        have := harg x
        have := hspare x
        simp only [List.length_singleton]; omega
termination_by 6 * c.left + 2
decreasing_by all_goals omega

theorem arrayTypeIn_costs (c : Cursor) (s : Store) (start : Nat) :
    Costs s c.left (fun _ => spare) (c.arrayTypeIn start s) := by
  have hle := c.advance_le
  rw [arrayTypeIn]
  split
  · next h =>
    have := advance_lt h
    exact ((typeIn_costs c.advance s).lift _).map fun r d x hr => by
      rw [count_storeType]; omega
  · split
    · next h =>
      have ht := h.1
      exact ((arrayElemIn_costs c.advance s start _).lift _).weaken fun _ x => by omega
    · refine sameBind _ fun length d _ => (arrayElemIn_costs d _ start _).weaken fun _ x => ?_
      cases length with
      | ellipsis span => simp only [storeLength]; omega
      | expr span e =>
        have := owed_le (n := 1) (a := .nodes .expr) (x := x)
        simp only [storeLength, count_alloc]; omega
termination_by 6 * c.left + 1
decreasing_by all_goals omega

theorem arrayElemIn_costs (c : Cursor) (s : Store) (start : Nat) (length : LengthRef) :
    Costs s c.left (fun _ => spare) (c.arrayElemIn start length s) := by
  rw [arrayElemIn]
  exact sameBind _ fun _ d _ => (typeIn_costs d s).map fun r e x hr => by
    rw [count_storeType]; omega
termination_by 6 * c.left + 0
decreasing_by omega

theorem structFieldsIn_costs (c : Cursor) (s : Store) :
    Costs s c.left (fun fs => owed fs.length (.items .fields)) (c.structFieldsIn s) := by
  have hle := c.advance_le
  rw [structFieldsIn]
  split
  · trivial
  · intro x
    simp only [List.length_nil, owed_zero]; omega
  · exact ((structFieldsIn_costs c.advance s).lift _).weaken fun _ x => by omega
  · refine (fieldIn_costs c s).bind fun field d _ hfield => ?_
    split
    · exact (structFieldsIn_costs d field.2).map fun r e x hr => by
        simp only [owed_cons]
        have := hfield x
        omega
    · refine sameBind _ fun _ e _ => (structFieldsIn_costs e field.2).map fun r f x hr => ?_
      simp only [owed_cons]
      have := hfield x
      omega
termination_by 6 * c.left + 3
decreasing_by all_goals first | omega | (have h := left_pos ‹_›; rw [left_advance]; omega)

theorem fieldIn_costs (c : Cursor) (s : Store) :
    Costs s c.left (fun _ => owed 1 (.items .fields)) (c.fieldIn s) := by
  -- the field and the item of a list are paid with the token that the type leaves over
  have hspare (x : Count) :
      owed 1 (.nodes .field) x + owed 1 (.items .fields) x ≤ spare x := by
    have := owed_le_spare (a := .nodes .field) (by decide) x
    have := owed_le_spare (a := .items .fields) (by decide) x
    have := owed_add_le (a := .nodes .field) (b := .items .fields) (x := x) (by decide)
    have := owed_add_spare x
    omega
  rw [fieldIn]
  split
  · trivial
  · refine (typeIn_costs c s).andThen fun type d _ htype x => ?_
    have := htype x
    have := hspare x
    have := d.tag?_le
    simp only [count_alloc]
    omega
  · cases hnames : c.names "field name" with
    | error => trivial
    | ok names d m =>
      have hn := names_left c _ hnames
      refine Costs.after ((typeIn_costs d _).andThen fun type e _ htype => ?_) m
      intro x
      have htype := htype x
      have := hspare x
      have := e.tag?_le
      have := owed_le (n := names.length) (a := .items .idents) (x := x)
      simp only [count_alloc, count_push] at htype ⊢
      omega
termination_by 6 * c.left + 2
decreasing_by all_goals omega

theorem interfaceElemsIn_costs (c : Cursor) (s : Store) :
    Costs s c.left (fun es => owed es.length (.items .elems)) (c.interfaceElemsIn s) := by
  have hle := c.advance_le
  rw [interfaceElemsIn]
  split
  · trivial
  · intro x
    simp only [List.length_nil, owed_zero]; omega
  · exact ((interfaceElemsIn_costs c.advance s).lift _).weaken fun _ x => by omega
  · refine (interfaceElemIn_costs c s).bind fun elem d _ helem => ?_
    split
    · exact (interfaceElemsIn_costs d elem.2).map fun r e x hr => by
        simp only [owed_cons]
        have := helem x
        omega
    · refine sameBind _ fun _ e _ => (interfaceElemsIn_costs e elem.2).map fun r f x hr => ?_
      simp only [owed_cons]
      have := helem x
      omega
termination_by 6 * c.left + 5
decreasing_by all_goals first | omega | (have h := left_pos ‹_›; rw [left_advance]; omega)

theorem interfaceElemIn_costs (c : Cursor) (s : Store) :
    Costs s c.left (fun _ => owed 1 (.items .elems)) (c.interfaceElemIn s) := by
  rw [interfaceElemIn]
  split
  · refine sameBind _ fun name d _ => (signatureIn_costs d s _).map fun sig e x hr => ?_
    have := owed_le (n := 1) (a := .items .elems) (x := x)
    simp only
    omega
  · refine (unionIn_costs c s).map fun terms d x hr => ?_
    simp only [count_push]
    have := owed_le_termsDue terms.1 (a := .items .elems) (by decide) (by decide) x
    omega
termination_by 6 * c.left + 4
decreasing_by all_goals omega

theorem unionIn_costs (c : Cursor) (s : Store) : Costs s c.left termsDue (c.unionIn s) := by
  have hspare := owed_le_spare (a := .items .terms) (by decide)
  rw [unionIn]
  refine (termIn_costs c s).andThen fun term d m hterm => ?_
  split
  · have := d.advance_le
    refine (((unionIn_costs d.advance term.2).lift _).after _).map fun terms e x hr => ?_
    have := hterm x
    have := hspare x
    simp only [termsDue, owed_cons] at hr ⊢
    omega
  · intro x
    have := hterm x
    have := hspare x
    simp only [termsDue, List.length_singleton]
    omega
termination_by 6 * c.left + 3
decreasing_by all_goals omega

theorem termIn_costs (c : Cursor) (s : Store) : Costs s c.left (fun _ => spare) (c.termIn s) := by
  have hle := c.advance_le
  rw [termIn]
  split
  · exact ((typeIn_costs c.advance s).lift _).map fun type d x hr => by
      simp only; omega
  · exact (typeIn_costs c s).map fun type d x hr => hr
termination_by 6 * c.left + 2
decreasing_by all_goals omega

theorem signatureIn_costs (c : Cursor) (s : Store) (start : Nat) :
    Costs s c.left (fun _ _ => 0) (c.signatureIn start s) := by
  have hone (x : Count) := owed_le (n := 1) (a := .nodes .signature) (x := x)
  rw [signatureIn]
  refine (fieldListIn_costs c s).andThen fun params d m hparams => ?_
  split
  · refine ((fieldListIn_costs d params.2).after _).map fun results e x hr => ?_
    have := hone x
    have := hparams x
    simp only [count_alloc]
    omega
  · split
    · refine ((typeIn_costs d params.2).after _).map fun result e x hr => ?_
      have := hone x
      have := hparams x
      simp only [count_alloc]
      omega
    · intro x
      have := hone x
      have := hparams x
      simp only [count_alloc]
      omega
termination_by 6 * c.left + 1
decreasing_by all_goals omega

theorem fieldListIn_costs (c : Cursor) (s : Store) :
    Costs s c.left (fun _ _ => 1) (c.fieldListIn s) := by
  rw [fieldListIn]
  refine sameBind _ fun lparen d _ => (paramsIn_costs d s).andThen fun entries e m hentries => ?_
  split
  · next fields hfields =>
    intro x
    have := Entry.count_storeFields hfields x
    have := hentries x
    simp only [count_push]
    omega
  · trivial
termination_by 6 * c.left + 0
decreasing_by omega

theorem paramsIn_costs (c : Cursor) (s : Store) :
    Costs s c.left (fun p => entriesDue p.1) (c.paramsIn s) := by
  have hle := c.advance_le
  rw [paramsIn]
  split
  · intro x
    simp only [entriesDue_nil]; omega
  · refine (paramIn_costs c s).bind fun entry d _ hentry => ?_
    split
    · have := d.advance_le
      refine ((paramsIn_costs d.advance entry.2).lift _).map fun more e x hr => ?_
      have := hentry x
      simp only [entriesDue_cons]
      omega
    · refine sameMap _ fun _ e x _ => ?_
      have := hentry x
      simp only [entriesDue_cons, entriesDue_nil]
      omega
termination_by 6 * c.left + 4
decreasing_by all_goals omega

theorem paramIn_costs (c : Cursor) (s : Store) : Costs s c.left Entry.due (c.paramIn s) := by
  rw [paramIn]
  split
  · refine sameMap _ fun name d x _ => ?_
    have := Entry.due_bare_le name x
    simp only
    omega
  · split
    · refine sameBind _ fun name d _ => (paramTypeIn_costs d s).map fun type e x hr => ?_
      have := Entry.due_named_le (e.spanFrom c.start) name type.1.1 type.1.2 x
      simp only
      omega
    · refine (paramTypeIn_costs c s).map fun type d x hr => ?_
      have := Entry.due_typed_le (d.spanFrom c.start) type.1.1 type.1.2 x
      simp only
      omega
termination_by 6 * c.left + 3
decreasing_by all_goals omega

theorem paramTypeIn_costs (c : Cursor) (s : Store) :
    Costs s c.left (fun _ => spare) (c.paramTypeIn s) := by
  have hle := c.advance_le
  rw [paramTypeIn]
  split
  · exact ((typeIn_costs c.advance s).lift _).map fun type d x hr => by
      simp only; omega
  · exact (typeIn_costs c s).map fun type d x hr => hr
termination_by 6 * c.left + 2
decreasing_by all_goals omega

end

end Tree.Cursor

end GoDecls
