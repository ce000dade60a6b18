/-
  What comment groups belong to.

  * `Role`: a node that a group can belong to, by the position where it begins or ends;
  * `Role.Fits l g r`: the group `g` is one for the role `r`, by lines and tokens alone
    (`Layout.Documents`, `Layout.Annotates`);
  * `Layout.attached?_eq_some_iff`: the group that a layout finds for a role at a token
    is the only one for it;
  * `Role.eq_of_fits`: a group is not one for two roles.
-/
import GoDecls.Proofs.Comment.Groups

namespace GoDecls

/-- A node that a comment group can belong to. -/
inductive Role where
  /-- what begins at a position -/
  | doc (start : Nat)
  /-- what ends at a position -/
  | line (stop : Nat)
deriving DecidableEq, Repr

namespace Layout

/-- The group documents what begins at `p`: it ends on the line above, no token begins
    between the two, and it does not begin on the line where the token before it ends. -/
structure Documents (l : Layout) (g : CommentGroup) (p : Nat) : Prop where
  above : l.line g.span.stop + 1 = l.line p
  adjacent : ¬ l.TokenWithin g.span.stop p
  own : ¬ l.TrailsToken g.span.start

/-- The group stands beside what ends at `p`: it begins behind, on the same line, and no
    token begins between the two. -/
structure Annotates (l : Layout) (g : CommentGroup) (p : Nat) : Prop where
  behind : p ≤ g.span.start
  adjacent : ¬ l.TokenWithin p g.span.start
  beside : l.line g.span.start = l.line p

theorem documents_iff_and {l : Layout} {g : CommentGroup} {p : Nat} : l.Documents g p ↔
    l.line g.span.stop + 1 = l.line p ∧ ¬ l.TokenWithin g.span.stop p ∧
      ¬ l.TrailsToken g.span.start :=
  ⟨fun h => ⟨h.above, h.adjacent, h.own⟩, fun ⟨habove, hadjacent, hown⟩ =>
    ⟨habove, hadjacent, hown⟩⟩

theorem annotates_iff_and {l : Layout} {g : CommentGroup} {p : Nat} : l.Annotates g p ↔
    p ≤ g.span.start ∧ ¬ l.TokenWithin p g.span.start ∧ l.line g.span.start = l.line p :=
  ⟨fun h => ⟨h.behind, h.adjacent, h.beside⟩, fun ⟨hbehind, hadjacent, hbeside⟩ =>
    ⟨hbehind, hadjacent, hbeside⟩⟩

/-- The number of the group that is found for a role. -/
def attached? (l : Layout) : Role → Option Nat
  | .doc p => l.docFor? p
  | .line p => l.lineCommentAfter? p

end Layout

namespace Role

/-- The token is the first or the last of what has the role. -/
def At (t : Span) : Role → Prop
  | doc p => t.start = p
  | line p => t.stop = p

/-- The group is one for the role. -/
def Fits (l : Layout) (g : CommentGroup) : Role → Prop
  | doc p => l.Documents g p
  | line p => l.Annotates g p

/-- What has the role begins or ends with a token. -/
def OnToken (l : Layout) (r : Role) : Prop := ∃ t ∈ l.tokens, r.At t

end Role

/-! ## First and last of some in a list -/

section

variable {α : Type} {P : α → Bool} {xs : List α} {x : α} {i : Nat}

theorem getElem?_of_mem_zipIdx (h : (x, i) ∈ xs.zipIdx) : xs[i]? = some x :=
  List.mk_mem_zipIdx_iff_getElem?.1 h

/-- The last with a property, and where it is. -/
theorem getLast?_filter_zipIdx (ys : List α) {zs : List α} (hx : P x = true)
    (hzs : ∀ z ∈ zs, P z = false) :
    ((ys ++ x :: zs).zipIdx.filter (P ·.1)).getLast? = some (x, ys.length) := by
  have hnone : (zs.zipIdx (ys.length + 1)).filter (P ·.1) = [] := by
    refine List.filter_eq_nil_iff.2 fun p hp => ?_
    rw [hzs p.1 (List.fst_mem_of_mem_zipIdx hp)]
    exact Bool.false_ne_true
  rw [List.zipIdx_append, List.zipIdx_cons, List.filter_append, Nat.zero_add,
    List.filter_cons_of_pos (by exact hx), hnone, List.getLast?_concat]

/-- The first with a property, and where it is. -/
theorem find?_zipIdx {ys : List α} (zs : List α) (hx : P x = true)
    (hys : ∀ y ∈ ys, P y = false) :
    (ys ++ x :: zs).zipIdx.find? (P ·.1) = some (x, ys.length) := by
  have hnone : ys.zipIdx.find? (P ·.1) = none := by
    refine List.find?_eq_none.2 fun p hp => ?_
    rw [hys p.1 (List.fst_mem_of_mem_zipIdx hp)]
    exact Bool.false_ne_true
  rw [List.zipIdx_append, List.zipIdx_cons, List.find?_append, hnone, Nat.zero_add,
    List.find?_cons_of_pos (by exact hx)]
  rfl

theorem exists_append_of_getElem? (h : xs[i]? = some x) :
    ∃ ys zs, xs = ys ++ x :: zs ∧ ys.length = i := by
  obtain ⟨hi, rfl⟩ := List.getElem?_eq_some_iff.1 h
  refine ⟨xs.take i, xs.drop (i + 1), ?_, List.length_take_of_le (Nat.le_of_lt hi)⟩
  rw [List.getElem_cons_drop, List.take_append_drop]

end

namespace Layout

variable {l : Layout} {g h : CommentGroup} {gs gs' : List CommentGroup} {cs : List Comment}
  {i p : Nat}

/-! ## Neighbours -/

theorem Documents.stop_lt (hdoc : l.Documents g p) : g.span.stop < p :=
  lt_of_line_lt (by rw [← hdoc.above]; exact Nat.lt_succ_self _)

/-- What is documented does not begin behind the next group: that would have joined the
    one that documents it. -/
theorem Documents.le_of_apart {first last next last' : Comment} (hg : l.IsRun g first last)
    (hh : l.IsRun h next last') (hapart : l.Apart g h) (hdoc : l.Documents g p) :
    p ≤ h.span.start := by
  by_contra hlt
  have hstop : g.span.stop = last.span.stop := by rw [hg.span]
  have hstart : h.span.start = next.span.start := by rw [hh.span]
  have hline := l.line_mono (Nat.le_of_not_le hlt)
  refine hapart first last next hg.head hg.getLast hh.head ?_
  rw [hstart] at hline hlt
  constructor
  · intro hwithin
    exact hdoc.adjacent (hwithin.mono (Nat.le_of_eq hstop) (Nat.le_of_not_le hlt))
  · have := hdoc.above
    rw [hstop] at this
    omega
  · intro htrails
    refine absurd ?_ hdoc.own
    rwa [hg.span]

/-- What a group is beside does not end before the group before: that would have joined
    it. -/
theorem Annotates.lt_of_apart {first last next last' : Comment} (hg : l.IsRun g first last)
    (hh : l.IsRun h next last') (hapart : l.Apart g h) (hle : g.span.start ≤ g.span.stop)
    (hline : l.Annotates h p) : g.span.start < p := by
  by_contra hlt
  have hstop : g.span.stop = last.span.stop := by rw [hg.span]
  have hstart : h.span.start = next.span.start := by rw [hh.span]
  have hsame : l.line next.span.start ≤ l.line last.span.stop := by
    have hp := hline.beside
    have := l.line_mono (Nat.le_trans (Nat.le_of_not_lt hlt) hle)
    rw [← hstop, ← hstart]
    omega
  refine hapart first last next hg.head hg.getLast hh.head ⟨?_, by omega, fun _ => hsame⟩
  rw [← hstop, ← hstart]
  intro hwithin
  exact hline.adjacent (hwithin.mono (by omega) (Nat.le_refl _))

section

variable (hl : l.TokensInOrder) (hparted : l.Parted l.groups) (hgroups : l.Grouped cs)

include hparted in
theorem neighbours (hsplit : l.groups = gs ++ g :: h :: gs') :
    (∃ first last, l.IsRun g first last) ∧ (∃ first last, l.IsRun h first last) ∧
      l.Apart g h := by
  obtain ⟨hruns, hapart⟩ := hparted
  rw [hsplit] at hruns hapart
  exact ⟨hruns g (by simp), hruns h (by simp), (List.isChain_append_cons_cons.1 hapart).2.1⟩

include hparted hgroups in
/-- All groups behind the one that documents a node begin behind the node. -/
theorem Documents.le_of_behind (hsplit : l.groups = gs ++ g :: gs') (hdoc : l.Documents g p) :
    ∀ h ∈ gs', p ≤ h.span.start := by
  cases gs' with
  | nil => exact List.forall_mem_nil _
  | cons h gs' =>
    obtain ⟨⟨_, _, hrun⟩, ⟨_, _, hrun'⟩, hapart⟩ := neighbours hparted hsplit
    have hnext := hdoc.le_of_apart hrun hrun' hapart
    have hle := hgroups.le h (hsplit ▸ by simp)
    have hordered := hgroups.ordered
    rw [hsplit] at hordered
    obtain ⟨-, hback, -⟩ := List.pairwise_append.1 hordered
    have hmore := (List.pairwise_cons.1 (List.pairwise_cons.1 hback).2).1
    refine List.forall_mem_cons.2 ⟨hnext, fun h' hh' => ?_⟩
    exact Nat.le_trans hnext (Nat.le_trans hle (hmore h' hh'))

include hparted hgroups in
/-- All groups before the one that is beside a node begin before the end of the node. -/
theorem Annotates.lt_of_before (hsplit : l.groups = gs ++ g :: gs') (hline : l.Annotates g p) :
    ∀ h ∈ gs, h.span.start < p := by
  rcases List.eq_nil_or_concat' gs with rfl | ⟨gs, h, rfl⟩
  · exact List.forall_mem_nil _
  · have hordered := hgroups.ordered
    have hle (h' : CommentGroup) (hh' : h' ∈ gs ++ [h]) : h'.span.start ≤ h'.span.stop :=
      hgroups.le h' (hsplit ▸ List.mem_append_left _ hh')
    rw [List.append_assoc] at hsplit
    obtain ⟨⟨_, _, hrun⟩, ⟨_, _, hrun'⟩, hapart⟩ := neighbours hparted hsplit
    have hnext := hline.lt_of_apart hrun hrun' hapart (hle h (by simp))
    rw [hsplit] at hordered
    have hmore := (List.pairwise_append.1 hordered).2.2
    refine List.forall_mem_append.2 ⟨fun h' hh' => ?_, List.forall_mem_singleton.2 hnext⟩
    have hstart := hle h' (List.mem_append_left _ hh')
    have hstop := hmore h' hh' h List.mem_cons_self
    omega

/-! ## The group that is found -/

include hparted in
theorem trailing_iff (hg : g ∈ l.groups) : g.trailing = true ↔ l.TrailsToken g.span.start := by
  obtain ⟨first, last, hrun⟩ := hparted.runs g hg
  rw [hrun.span]
  exact hrun.trailing

include hparted hgroups

theorem docFor?_eq_some_iff :
    l.docFor? p = some i ↔ ∃ g, l.groups[i]? = some g ∧ l.Documents g p := by
  constructor
  · intro hfound
    unfold docFor? at hfound
    split at hfound
    · cases hfound
    · next g j hlast =>
      have hmem := (List.mem_filter.1 (List.mem_of_getLast? hlast)).1
      split at hfound
      · next hcond =>
        obtain rfl := Option.some.inj hfound
        simp only [Bool.and_eq_true, Bool.not_eq_true', tokenBetween_eq_false_iff,
          beq_iff_eq] at hcond
        obtain ⟨⟨⟨htrailing, -⟩, habove⟩, hadjacent⟩ := hcond
        refine ⟨g, getElem?_of_mem_zipIdx hmem, habove, hadjacent, fun h => ?_⟩
        rw [(trailing_iff hparted (List.fst_mem_of_mem_zipIdx hmem)).2 h] at htrailing
        cases htrailing
      · cases hfound
  · rintro ⟨g, hg, hdoc⟩
    obtain ⟨gs, gs', hsplit, rfl⟩ := exists_append_of_getElem? hg
    have hmem := List.mem_of_getElem? hg
    have hstop := hdoc.stop_lt
    have hstart := Nat.lt_of_le_of_lt (hgroups.le g hmem) hstop
    have hbehind := hdoc.le_of_behind hparted hgroups hsplit
    have htrailing : g.trailing = false := by
      rw [← Bool.not_eq_true, trailing_iff hparted hmem]
      exact hdoc.own
    have hfound := getLast?_filter_zipIdx (P := fun g : CommentGroup => decide (g.span.start < p))
      gs (decide_eq_true hstart) fun h hh => decide_eq_false (Nat.not_lt.2 (hbehind h hh))
    unfold docFor?
    rw [hsplit, hfound]
    refine if_pos ?_
    simp only [htrailing, hdoc.above, tokenBetween_eq_false_iff.2 hdoc.adjacent, Nat.le_of_lt hstop,
      Bool.not_false, Bool.true_and, decide_true, beq_self_eq_true]

include hl in
theorem lineCommentAfter?_eq_some_iff {t : Span} (ht : t ∈ l.tokens) (hp : t.stop = p) :
    l.lineCommentAfter? p = some i ↔ ∃ g, l.groups[i]? = some g ∧ l.Annotates g p := by
  constructor
  · intro hfound
    unfold lineCommentAfter? at hfound
    split at hfound
    · cases hfound
    · next g j hfirst =>
      have hmem := List.mem_of_find?_eq_some hfirst
      have hbehind := List.find?_some hfirst
      split at hfound
      · next hcond =>
        obtain rfl := Option.some.inj hfound
        simp only [Bool.and_eq_true, Bool.not_eq_true', tokenBetween_eq_false_iff,
          beq_iff_eq] at hcond
        exact ⟨g, getElem?_of_mem_zipIdx hmem, of_decide_eq_true hbehind, hcond.2, hcond.1.2⟩
      · cases hfound
  · rintro ⟨g, hg, hline⟩
    obtain ⟨gs, gs', hsplit, rfl⟩ := exists_append_of_getElem? hg
    have hmem := List.mem_of_getElem? hg
    have hbefore := hline.lt_of_before hparted hgroups hsplit
    have htrailing : g.trailing = true := by
      refine (trailing_iff hparted hmem).2 ⟨t, ht, ?_, ?_, ?_⟩
      · exact Nat.lt_of_lt_of_le (hp ▸ hl.extent t ht) hline.behind
      · exact hp ▸ hline.adjacent
      · rw [hp, hline.beside]
    have hfound := find?_zipIdx (P := fun g : CommentGroup => decide (p ≤ g.span.start))
      gs' (decide_eq_true hline.behind) fun h hh =>
        decide_eq_false (Nat.not_le.2 (hbefore h hh))
    unfold lineCommentAfter?
    rw [hsplit, hfound]
    refine if_pos ?_
    simp only [htrailing, hline.beside, tokenBetween_eq_false_iff.2 hline.adjacent, Bool.not_false,
      Bool.and_self, beq_self_eq_true]

include hl in
/-- **The group that is found is the only one there is.** -/
theorem attached?_eq_some_iff {r : Role} (hr : r.OnToken l) :
    l.attached? r = some i ↔ ∃ g, l.groups[i]? = some g ∧ r.Fits l g := by
  obtain ⟨t, ht, hat⟩ := hr
  cases r with
  | doc p => exact docFor?_eq_some_iff hparted hgroups
  | line p => exact lineCommentAfter?_eq_some_iff hl hparted hgroups ht hat

end

end Layout

/-! ## One role for a group -/

section

open Layout

variable {l : Layout} {g : CommentGroup} {p q : Nat}

theorem Layout.Documents.not_lt (hp : l.Documents g p) (hq : l.Documents g q)
    (ht : (Role.doc p).OnToken l) : ¬ p < q := by
  obtain ⟨t, ht, rfl⟩ := ht
  intro hlt
  exact hq.adjacent ⟨t, ht, Nat.le_of_lt hp.stop_lt, hlt⟩

theorem Layout.Annotates.not_lt (hl : l.TokensInOrder) (hp : l.Annotates g p)
    (hq : l.Annotates g q) (ht : (Role.line p).OnToken l) (hu : (Role.line q).OnToken l) :
    ¬ p < q := by
  obtain ⟨t, ht, rfl⟩ := ht
  obtain ⟨u, hu, rfl⟩ := hu
  intro hlt
  have hbehind := hq.behind
  have hextent := hl.extent u hu
  have hextent' := hl.extent t ht
  rcases hl.apart ht hu with rfl | h | h
  · exact Nat.lt_irrefl _ hlt
  · exact hp.adjacent ⟨u, hu, h, by omega⟩
  · omega

/-- What documents a node is not beside another. -/
theorem Layout.Documents.not_annotates (hl : l.TokensInOrder) (hp : l.Documents g p)
    (hq : l.Annotates g q) (hu : (Role.line q).OnToken l) : False := by
  obtain ⟨u, hu, rfl⟩ := hu
  refine hp.own ⟨u, hu, ?_, hq.adjacent, hq.beside.symm⟩
  exact Nat.lt_of_lt_of_le (hl.extent u hu) hq.behind

/-- **A group is not one for two roles.** -/
theorem Role.eq_of_fits (hl : l.TokensInOrder) {r r' : Role} (hr : r.OnToken l)
    (hr' : r'.OnToken l) (h : r.Fits l g) (h' : r'.Fits l g) : r = r' := by
  cases r with
  | doc p =>
    cases r' with
    | doc q =>
      have hle := Layout.Documents.not_lt h h' hr
      have hge := Layout.Documents.not_lt h' h hr'
      rw [show p = q by omega]
    | line q => exact (Layout.Documents.not_annotates hl h h' hr').elim
  | line p =>
    cases r' with
    | doc q => exact (Layout.Documents.not_annotates hl h' h hr).elim
    | line q =>
      have hle := Layout.Annotates.not_lt hl h h' hr hr'
      have hge := Layout.Annotates.not_lt hl h' h hr' hr
      rw [show p = q by omega]

end

end GoDecls
