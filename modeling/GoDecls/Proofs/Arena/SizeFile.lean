/-
  How large the store of a file gets: no arena and no buffer has more entries than
  the text has characters (`StoredFile.count_le`).

  Every piece of the text gives no more tokens and comments than it has characters,
  and the end of the text one more token; the package clause makes up for that one.
-/
import GoDecls.Arena.File
import GoDecls.Proofs.Arena.Size
import GoDecls.Proofs.Comment.Groups
import GoDecls.Proofs.Token.Semicolons

namespace GoDecls

open Tree Arena Store Scan Lexer

/-! ## Tokens and comments of a text -/

namespace Lexer

variable {c : Char} {cs : List Char} {pos : Nat} {l : Lexer}

/-- A comment has more than one character. -/
theorem length_drop_comment {k : CommentKind} (h : (Segment.front pos c cs).comment? = some k) :
    (cs.drop (scan c cs).2).length < cs.length := by
  have hpiece := scan_isPiece c cs
  simp only [Segment.front] at h
  generalize scan c cs = p at h hpiece ⊢
  obtain ⟨kind, n⟩ := p
  cases hpiece with
  | comment hc hcomment =>
    unfold scanComment at hcomment
    split at hcomment
    · cases hcomment
      simp only [List.length_drop, List.length_cons]; omega
    · split at hcomment <;> cases hcomment <;>
        simp only [List.length_drop, List.length_cons] <;> omega
    · cases hcomment
  | quoted hquoted => rcases scanQuoted_kind hquoted with hk | hk | hk <;> cases hk <;> cases h
  | punct hpunct =>
    obtain ⟨_, hk⟩ := scanPunct_kind hpunct
    cases hk
    cases h
  | _ => cases h

/-- A text has no more tokens and comments than characters, but for the semicolon at
    its end. -/
theorem run_length_le (l : Lexer) :
    l.run.1.length + l.run.2.comments.length ≤ l.comments.length + l.rest.length + 1 := by
  induction l using induction_on with
  | nil l h =>
    rw [run_of_nil h, run_last_of_nil h]
    split <;> simp only [List.length_singleton, List.length_nil] <;> omega
  | piece l c cs h ih =>
    rw [run_of_cons h, run_last_of_cons h, List.length_append, h, List.length_cons]
    have hrest := congrArg List.length (l.read_rest c cs)
    have hcomments := congrArg List.length (l.read_comments c cs)
    have hone : (l.read c cs).1.toList.length ≤ 1 := Option.length_toList_le
    have hdrop : (cs.drop (scan c cs).2).length ≤ cs.length := by
      rw [List.length_drop]; omega
    rw [List.length_append, Segment.remark?, Option.map_map] at hcomments
    cases hc : (Segment.front l.pos c cs).comment? with
    | none =>
      simp only [hc, Option.map_none, Option.toList_none, List.length_nil] at hcomments
      omega
    | some k =>
      have := length_drop_comment hc
      simp only [hc, Option.map_some, Option.toList_some, List.length_singleton] at hcomments
      omega

end Lexer

/-! ## Declarations -/

namespace Tree.Cursor

open Arena.Costs

variable {c : Cursor} {s : Store} {notes : Notes}

theorem typeParamIn_costs :
    Costs s c.left (fun _ => owed 1 (.items .typeParams)) (c.typeParamIn s) := by
  unfold typeParamIn
  cases hnames : c.names "type parameter name" with
  | error => trivial
  | ok names d m =>
    have hn := names_left c _ hnames
    refine Costs.after ((unionIn_costs d s).map fun terms e x hr => ?_) m
    have := owed_le (n := names.length) (a := .items .idents) (x := x)
    -- the group and the item of a list are paid with what the constraint leaves over
    have := owed_le_termsDue terms.1 (a := .nodes .typeParam) (by decide) (by decide) x
    have := owed_le_termsDue terms.1 (a := .items .typeParams) (by decide) (by decide) x
    have := owed_add_le (a := .nodes .typeParam) (b := .items .typeParams) (x := x) (by decide)
    simp only [count_alloc, count_push]
    omega

theorem typeParamListIn_costs (c : Cursor) (s : Store) :
    Costs s c.left (fun ps => owed ps.length (.items .typeParams)) (c.typeParamListIn s) := by
  rw [typeParamListIn]
  split
  · intro x
    have := c.advance_le
    simp only [List.length_nil, owed_zero]; omega
  · refine typeParamIn_costs.bind fun p d k hp => ?_
    split
    · have := d.advance_le
      exact ((typeParamListIn_costs d.advance p.2).lift _).map fun ps e x hr => by
        simp only [owed_cons]
        have := hp x
        omega
    · exact sameMap _ fun _ e x _ => by
        have := hp x
        simp only [List.length_singleton]; omega
termination_by c.left
decreasing_by omega

theorem typeParamsIn_costs : Costs s c.left (fun _ _ => 0) (c.typeParamsIn s) := by
  unfold typeParamsIn
  refine sameBind _ fun _ d _ => (typeParamListIn_costs d s).map fun ps e x hr => ?_
  have := owed_le (n := 1) (a := .nodes .typeParams) (x := x)
  simp only [count_alloc, count_push]
  omega

theorem importSpecIn_costs (doc : Option (NodeId .group)) :
    Costs s c.left (fun _ _ => 1) (c.importSpecIn doc s) :=
  sameMap _ fun _ d x hlt => by
    simp only; omega

theorem typeSpecTailIn_costs (doc : Option (NodeId .group)) (name : Ident)
    (params : Option (NodeId .typeParams)) :
    Costs s c.left (fun _ _ => 0) (c.typeSpecTailIn notes doc name params s) := by
  have hle := c.advance_le
  unfold typeSpecTailIn
  split
  · exact ((typeIn_costs c.advance s).lift _).map fun type d x hr => by
      simp only; omega
  · exact (typeIn_costs c s).map fun type d x hr => by
      simp only; omega

theorem typeSpecIn_costs (doc : Option (NodeId .group)) :
    Costs s c.left (fun _ _ => 1) (c.typeSpecIn notes doc s) := by
  unfold typeSpecIn
  refine sameBind _ fun name d _ => ?_
  split
  · exact typeParamsIn_costs.bind fun ps e _ hps =>
      (typeSpecTailIn_costs doc name (some ps.1)).weaken fun _ x => by
        have := hps x
        omega
  · exact (typeSpecTailIn_costs doc name none).weaken fun _ x => by omega

section

variable {β : Type}

theorem specsIn_costs {spec : (c : Cursor) → Store → Outcome (β × Store) c}
    (hspec : ∀ c s, Costs s c.left (fun _ _ => 1) (spec c s)) (c : Cursor) (s : Store) :
    Costs s c.left (fun p => owed p.1.length (.items .specs)) (specsIn spec c s) := by
  have hle := c.advance_le
  have hone {x : Count} := owed_le (n := 1) (a := .items .specs) (x := x)
  rw [specsIn]
  split
  · trivial
  · intro x
    simp only [List.length_nil, owed_zero]; omega
  · exact ((specsIn_costs hspec c.advance s).lift _).weaken fun _ x => by omega
  · refine (hspec c s).bind fun item d _ hitem => ?_
    split
    · exact (specsIn_costs hspec d item.2).map fun more e x hr => by
        simp only [owed_cons]
        have := hitem x
        have := hone (x := x)
        omega
    · refine sameBind _ fun _ e _ => (specsIn_costs hspec e item.2).map fun more f x hr => ?_
      simp only [owed_cons]
      have := hitem x
      have := hone (x := x)
      omega
termination_by c.left
decreasing_by all_goals first | omega | (have h := left_pos ‹_›; rw [left_advance]; omega)

theorem endDecl_costs {r : β × Store} {d : Cursor} {n : Nat} {w : β → Count → Nat}
    {k : d.left < c.left} (h : ∀ x, r.2.count x + w r.1 x + d.left ≤ s.count x + n) :
    Costs s n w (endDecl r d k) := by
  have hle := d.advance_le
  unfold endDecl
  split
  · exact h
  · intro x
    have := h x
    omega
  · trivial

/-- The keyword of a declaration is left over. -/
theorem specDeclIn_costs
    {spec : Option (NodeId .group) → (c : Cursor) → Store → Outcome (β × Store) c}
    (hspec : ∀ doc c s, Costs s c.left (fun _ _ => 1) (spec doc c s)) {t : Token}
    (ht : c.token? = some t) :
    Costs s c.left (fun p x => owed p.2.length (.items .specs) x + 1)
      (c.specDeclIn notes spec s) := by
  have hlt := advance_lt ht
  have hle := c.advance.advance_le
  unfold specDeclIn
  dsimp only
  split
  · refine (((specsIn_costs (fun e => hspec _ e) c.advance.advance s).lift _).lift _).andThen
      fun more e m hmore => endDecl_costs fun x => ?_
    have := hmore x
    simp only
    omega
  · refine ((hspec none c.advance s).lift _).andThen fun item e m hitem =>
      endDecl_costs fun x => ?_
    have := hitem x
    have := owed_le (n := 1) (a := .items .specs) (x := x)
    simp only [List.length_singleton]
    omega

end

theorem declIn_costs : Costs s c.left (fun _ _ => 1) (c.declIn notes s) := by
  unfold declIn
  dsimp only
  split
  · next h =>
    refine (specDeclIn_costs (fun doc c s => importSpecIn_costs doc) h).map fun p d x hr => ?_
    simp only [count_push, List.length_map]
    omega
  · next h =>
    refine (specDeclIn_costs (fun doc c s => typeSpecIn_costs doc) h).map fun p d x hr => ?_
    simp only [count_push, List.length_map]
    omega
  · next h =>
    intro x
    have := skipDecl_lt h
    simp only; omega
  · next h =>
    intro x
    have := skipDecl_lt h
    simp only; omega
  · next h =>
    intro x
    have := skipDecl_lt h
    simp only; omega
  · trivial

theorem declsIn_costs (notes : Notes) (c : Cursor) (s : Store) (x : Count) :
    (c.declsIn notes s).1.2.count x +
      owed (c.declsIn notes s).1.1.length (.items .decls) x ≤ s.count x + c.left := by
  have hle := c.advance_le
  have hdecl : Costs s c.left (fun _ _ => 1) (c.declIn notes s) := declIn_costs
  rw [declsIn]
  split
  · simp only [List.length_nil, owed_zero]; omega
  · have := declsIn_costs notes c.advance s x
    omega
  · generalize c.declIn notes s = o at hdecl ⊢
    cases o with
    | ok r d k =>
      have hdecl : r.2.count x + 1 + d.left ≤ s.count x + c.left := hdecl x
      have := declsIn_costs notes d r.2 x
      have := owed_le (n := 1) (a := .items .decls) (x := x)
      simp only [owed_cons]
      omega
    | error fault stop k =>
      have := declsIn_costs notes stop.recover s x
      have hrecover : stop.recover.left ≤ stop.left := stop.skip_le _
      simp only
      omega
termination_by c.left
decreasing_by all_goals first | assumption | exact advance_lt ‹_› | exact recover_lt ‹_› ‹_›

end Tree.Cursor

/-! ## Files -/

namespace Arena

variable {s : Store} {x : Count}

theorem total_const {γ : Type} (n : Nat) (cs : List γ) : total (fun _ => n) cs = cs.length * n := by
  induction cs with
  | nil => rw [List.length_nil, Nat.zero_mul]; rfl
  | cons c cs ih => rw [total, ih, List.length_cons, Nat.succ_mul, Nat.add_comm]

theorem total_comments (gs : List CommentGroup) :
    total (·.comments.length) gs = (gs.flatMap CommentGroup.comments).length := by
  induction gs with
  | nil => rfl
  | cons g gs ih => rw [total, ih, List.flatMap_cons, List.length_append]

/-- A group and its place in the list of the file cost no more than it has comments. -/
theorem count_storeGroup {g : CommentGroup} (hg : g.comments ≠ []) (s : Store) :
    (storeGroup g s).2.count x + owed 1 (.items .groups) x ≤ s.count x + g.comments.length := by
  have hpos := List.length_pos_iff.2 hg
  have hcomment (c : Comment) (t : Store) : (storeComment c t).2.count x +
      owed 1 (.items .comments) x ≤
        t.count x + (owed 1 (.nodes .comment) x + owed 1 (.items .comments) x) := by
    rw [storeComment, count_alloc, Nat.add_assoc]
  have hcomments := count_storeAll (s := s) fun c (_ : c ∈ g.comments) t => hcomment c t
  rw [total_const] at hcomments
  simp only [storeGroup, count_alloc, count_push]
  -- comments, their list, groups and theirs are counted apart
  cases x with
  | nodes k => cases k <;> simp [owed] at hcomments ⊢ <;> omega
  | items b => cases b <;> simp [owed] at hcomments ⊢ <;> omega

namespace StoredFile

/-- Once it is read, a file has taken up no more than its comments and tokens, without
    the package clause. -/
theorem count_read {layout : Layout} {c : Cursor} (hl : ∀ g ∈ layout.groups, g.comments ≠ [])
    (h : (read layout c).2 = []) : (read layout c).1.store.count x + 1 ≤
      (layout.groups.flatMap CommentGroup.comments).length + c.left := by
  have hgroups := count_storeAll (s := .empty) (x := x) fun g hg s => count_storeGroup (hl g hg) s
  rw [total_comments] at hgroups
  have hempty : Store.empty.count x = 0 := by cases x <;> rfl
  unfold read at h ⊢
  dsimp only at h ⊢
  cases hpackage : c.packageClause with
  | ok p next k =>
    have hdecls := next.declsIn_costs ⟨layout, (storeAll storeGroup layout.groups .empty).1⟩
      (storeAll storeGroup layout.groups .empty).2 x
    simp only [ofDecls, count_push]
    omega
  | error fault stop k =>
    rw [hpackage] at h
    cases h

/-- **The store of a file has no arena and no buffer with more entries than the text
    has characters.** -/
theorem count_le {text : List Char} {p : StoredFile} (h : ofText text = .ok p) (x : Count) :
    p.store.count x ≤ text.length := by
  have hrun := (Lexer.ofText text).run_length_le
  have hgroups : (Layout.of text (Lexer.ofText text).run.1
      (Lexer.ofText text).run.2.comments).groups.flatMap CommentGroup.comments =
        (Lexer.ofText text).run.2.comments := Layout.flatMap_group _ _
  unfold ofText at h
  dsimp only at h
  split at h
  · split at h
    · next hnone =>
      cases h
      have hread := count_read (x := x) (Layout.comments_ne_nil _ _) (List.isEmpty_iff.1 hnone)
      rw [hgroups] at hread
      simp only [Cursor.left] at hread
      simp only [Lexer.ofText, List.length_nil] at hrun hread ⊢
      omega
    · cases h
  · cases h

end StoredFile

end Arena

end GoDecls
