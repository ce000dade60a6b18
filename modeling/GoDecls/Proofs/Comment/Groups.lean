/-
  Comments in groups.

  * `Layout.Follows l first c d`: the comment `d` comes closely enough behind `c` to be
    in a group with it that begins with `first`.  This is where groups end: inside of
    one each comment follows the one before (`Layout.IsRun`), and the first of the next
    does not follow the last (`Layout.Apart`);
  * `Layout.Grouped l cs`: the groups of the layout are those of the comments;
  * `Layout.grouped_run`: in the layout of a text without lexical faults they are.
-/
import GoDecls.Proofs.Comment.Lines
import GoDecls.Proofs.Token.Account
import Mathlib.Data.List.Chain

namespace GoDecls

open Text Scan

namespace Layout

variable {l : Layout} {g h : CommentGroup} {gs : List CommentGroup} {c d : Comment}
  {cs : List Comment} {text : List Char}

/-! ## Comments that belong together -/

/-- Behind `c`, in a group that begins with `first`, the comment `d` belongs to the
    group: no token begins between the two, and `d` begins on the line below at the
    latest, or on the same line if `first` trails a token. -/
structure Follows (l : Layout) (first c d : Comment) : Prop where
  adjacent : ¬ l.TokenWithin c.span.stop d.span.start
  below : l.line d.span.start ≤ l.line c.span.stop + 1
  beside : l.TrailsToken first.span.start → l.line d.span.start ≤ l.line c.span.stop

/-- The group is what its comments make of it: each follows the one before, and it
    covers them from the first to the last. -/
structure IsRun (l : Layout) (g : CommentGroup) (first last : Comment) : Prop where
  head : g.comments.head? = some first
  getLast : g.comments.getLast? = some last
  span : g.span = ⟨first.span.start, last.span.stop⟩
  trailing : g.trailing = true ↔ l.TrailsToken first.span.start
  follow : g.comments.IsChain (l.Follows first)
  clear : ¬ l.TokenWithin first.span.start last.span.stop

/-- The first comment of the second group does not follow the last of the first. -/
def Apart (l : Layout) (g h : CommentGroup) : Prop :=
  ∀ first last next, g.comments.head? = some first → g.comments.getLast? = some last →
    h.comments.head? = some next → ¬ l.Follows first last next

/-- Tokens and comments stand in order and apart, at positions that spans can hold. -/
structure CommentsInOrder (l : Layout) (cs : List Comment) : Prop extends l.TokensInOrder where
  comments : cs.Pairwise (·.span.stop ≤ ·.span.start)
  le : ∀ c ∈ cs, c.span.start ≤ c.span.stop
  held : ∀ c ∈ cs, c.span.stop ≤ Span.limit
  apart : ∀ c ∈ cs, ¬ l.TokenWithin c.span.start c.span.stop

theorem CommentsInOrder.tail (hl : l.CommentsInOrder (c :: cs)) : l.CommentsInOrder cs where
  ordered := hl.ordered
  extent := hl.extent
  comments := (List.pairwise_cons.1 hl.comments).2
  le d hd := hl.le d (List.mem_cons_of_mem _ hd)
  held d hd := hl.held d (List.mem_cons_of_mem _ hd)
  apart d hd := hl.apart d (List.mem_cons_of_mem _ hd)

/-! ## Building groups -/

theorem IsRun.joins_iff {first last : Comment} (hg : l.IsRun g first last) :
    l.joins g c = true ↔ l.Follows first last c := by
  have hstop : g.span.stop = last.span.stop := by rw [hg.span]
  simp only [joins, Bool.and_eq_true, Bool.not_eq_true', decide_eq_true_eq, hstop,
    tokenBetween_eq_false_iff]
  by_cases ht : g.trailing = true
  · rw [if_pos ht]
    constructor
    · rintro ⟨hnone, hline⟩
      exact ⟨hnone, Nat.le_succ_of_le hline, fun _ => hline⟩
    · intro h
      exact ⟨h.adjacent, h.beside (hg.trailing.1 ht)⟩
  · rw [if_neg ht]
    constructor
    · rintro ⟨hnone, hline⟩
      exact ⟨hnone, hline, fun h => absurd (hg.trailing.2 h) ht⟩
    · intro h
      exact ⟨h.adjacent, h.below⟩

theorem isRun_single (hl : l.CommentsInOrder (c :: cs)) : l.IsRun (l.single c) c c where
  head := rfl
  getLast := rfl
  span := by
    have hstop := hl.held c List.mem_cons_self
    exact Span.ofOffsets_of_le (Nat.le_trans (hl.le c List.mem_cons_self) hstop) hstop
  trailing := hl.trails_iff
  follow := List.isChain_singleton c
  clear := hl.apart c List.mem_cons_self

theorem IsRun.extend {first last : Comment} (hg : l.IsRun g first last)
    (hle : first.span.start ≤ c.span.start) (hl : l.CommentsInOrder (c :: cs))
    (hc : l.Follows first last c) : l.IsRun (extend g c) first c where
  head := by
    rw [Layout.extend, List.head?_append, hg.head]
    rfl
  getLast := by simp [Layout.extend]
  span := by
    have hstop := hl.held c List.mem_cons_self
    have hstart := Nat.le_trans hle (hl.le c List.mem_cons_self)
    rw [Layout.extend, hg.span]
    exact Span.ofOffsets_of_le (Nat.le_trans hstart hstop) hstop
  trailing := hg.trailing
  follow := by
    refine List.IsChain.append hg.follow (List.isChain_singleton c) fun x hx y hy => ?_
    rw [hg.getLast] at hx
    cases hx
    cases hy
    exact hc
  clear := by
    intro h
    rcases h.split last.span.stop with h | h
    · exact hg.clear h
    · rcases h.split c.span.start with h | h
      · exact hc.adjacent h
      · exact hl.apart c List.mem_cons_self h

/-- Every group is a run, and each begins where the one before ends. -/
structure Parted (l : Layout) (gs : List CommentGroup) : Prop where
  runs : ∀ g ∈ gs, ∃ first last, l.IsRun g first last
  apart : gs.IsChain l.Apart

/-- The groups behind an open one; the open group becomes the first. -/
theorem parted_groupFrom {first last : Comment} (hg : l.IsRun g first last)
    (hl : l.CommentsInOrder cs) (hcs : ∀ c ∈ cs, first.span.start ≤ c.span.start) :
    l.Parted (l.groupFrom g cs) ∧
      ∀ h ∈ (l.groupFrom g cs).head?, h.comments.head? = some first := by
  induction cs generalizing g first last with
  | nil =>
    refine ⟨⟨List.forall_mem_singleton.2 ⟨first, last, hg⟩, List.isChain_singleton g⟩, ?_⟩
    rintro _ ⟨⟩
    exact hg.head
  | cons c cs ih =>
    have hc := hcs c List.mem_cons_self
    have hbehind := List.pairwise_cons.1 hl.comments
    unfold groupFrom
    split
    · next hjoins =>
      have hrun := hg.extend hc hl (hg.joins_iff.1 hjoins)
      exact ih hrun hl.tail fun d hd => hcs d (List.mem_cons_of_mem c hd)
    · next hjoins =>
      have hle : ∀ d ∈ cs, c.span.start ≤ d.span.start := fun d hd =>
        Nat.le_trans (hl.le c List.mem_cons_self) (hbehind.1 d hd)
      obtain ⟨⟨hruns, hapart⟩, hnext⟩ := ih (isRun_single hl) hl.tail hle
      refine ⟨⟨List.forall_mem_cons.2 ⟨⟨first, last, hg⟩, hruns⟩, ?_⟩, ?_⟩
      · refine hapart.cons fun h hh first' last' next hfirst hlast hhead hfollows => ?_
        rw [hg.head] at hfirst
        rw [hg.getLast] at hlast
        rw [hnext h hh] at hhead
        cases hfirst
        cases hlast
        cases hhead
        exact hjoins (hg.joins_iff.2 hfollows)
      · rintro _ ⟨⟩
        exact hg.head

theorem parted_group (hl : l.CommentsInOrder cs) : l.Parted (l.group cs) := by
  cases cs with
  | nil => exact ⟨List.forall_mem_nil _, List.isChain_nil⟩
  | cons c cs =>
    refine (parted_groupFrom (isRun_single hl) hl.tail fun d hd => ?_).1
    exact Nat.le_trans (hl.le c List.mem_cons_self) ((List.pairwise_cons.1 hl.comments).1 d hd)

/-- What is a group depends on lines and tokens alone. -/
theorem group_withGroups (l : Layout) (gs : List CommentGroup) (cs : List Comment) :
    ({ l with groups := gs } : Layout).group cs = l.group cs := by
  have open_ (g : CommentGroup) (cs : List Comment) :
      ({ l with groups := gs } : Layout).groupFrom g cs = l.groupFrom g cs := by
    induction cs generalizing g with
    | nil => rfl
    | cons c cs ih =>
      rw [groupFrom, groupFrom, ih, ih]
      rfl
  cases cs with
  | nil => rfl
  | cons c cs => exact open_ _ _

theorem groups_of (text : List Char) (ts : List Lexeme) (cs : List Comment) :
    (Layout.of text ts cs).groups = (Layout.of text ts cs).group cs :=
  (group_withGroups _ _ cs).symm

/-- Every comment is in one group. -/
theorem flatMap_group (l : Layout) (cs : List Comment) :
    (l.group cs).flatMap CommentGroup.comments = cs := by
  have open_ (g : CommentGroup) (cs : List Comment) :
      (l.groupFrom g cs).flatMap CommentGroup.comments = g.comments ++ cs := by
    induction cs generalizing g with
    | nil => simp [groupFrom]
    | cons c cs ih =>
      unfold groupFrom
      split
      · rw [ih, extend, List.append_assoc]; rfl
      · rw [List.flatMap_cons, ih]; rfl
  cases cs with
  | nil => rfl
  | cons c cs => exact open_ _ _

/-- No group is without comments. -/
theorem comments_ne_nil (l : Layout) (cs : List Comment) :
    ∀ g ∈ l.group cs, g.comments ≠ [] := by
  have open_ (g : CommentGroup) (cs : List Comment) (hg : g.comments ≠ []) :
      ∀ g' ∈ l.groupFrom g cs, g'.comments ≠ [] := by
    induction cs generalizing g with
    | nil => exact List.forall_mem_singleton.2 hg
    | cons c cs ih =>
      unfold groupFrom
      split
      · exact ih _ (by simp [extend])
      · exact List.forall_mem_cons.2 ⟨hg, ih _ (List.cons_ne_nil _ _)⟩
  cases cs with
  | nil => exact List.forall_mem_nil _
  | cons c cs => exact open_ _ _ (List.cons_ne_nil _ _)

/-- The group with the comment at a place of the text. -/
theorem exists_group_of_append {before after : List Comment}
    (h : gs.flatMap CommentGroup.comments = before ++ c :: after) :
    ∃ gs₁ g gs₂ front back, gs = gs₁ ++ g :: gs₂ ∧ g.comments = front ++ c :: back ∧
      before = gs₁.flatMap CommentGroup.comments ++ front ∧
      after = back ++ gs₂.flatMap CommentGroup.comments := by
  induction gs generalizing before with
  | nil => simp at h
  | cons g gs ih =>
    rw [List.flatMap_cons] at h
    rcases List.append_eq_append_iff.1 h with ⟨mid, rfl, hmid⟩ | ⟨mid, hg, hmid⟩
    · obtain ⟨gs₁, g', gs₂, front, back, rfl, hg', rfl, rfl⟩ := ih hmid
      refine ⟨g :: gs₁, g', gs₂, front, back, rfl, hg', ?_, rfl⟩
      rw [List.flatMap_cons, List.append_assoc]
    · cases mid with
      | nil =>
        rw [List.append_nil] at hg
        obtain ⟨gs₁, g', gs₂, front, back, rfl, hg', hfront, rfl⟩ :=
          ih (hmid.symm.trans (List.nil_append _).symm)
        refine ⟨g :: gs₁, g', gs₂, front, back, rfl, hg', ?_, rfl⟩
        rw [List.flatMap_cons, List.append_assoc, ← hfront, List.append_nil, hg]
      | cons d mid =>
        cases hmid
        exact ⟨[], g, gs, before, mid, rfl, hg, rfl, rfl⟩

/-! ## The groups of a text -/

/-- The groups of the layout are those of the comments. -/
structure Grouped (l : Layout) (cs : List Comment) : Prop where
  all : l.groups.flatMap CommentGroup.comments = cs
  /-- A group has comments and reaches from the first to the last. -/
  span : ∀ g ∈ l.groups, ∃ first last, g.comments.head? = some first ∧
    g.comments.getLast? = some last ∧ g.span = ⟨first.span.start, last.span.stop⟩
  le : ∀ g ∈ l.groups, g.span.start ≤ g.span.stop
  ordered : l.groups.Pairwise (·.span.stop ≤ ·.span.start)
  clear : ∀ g ∈ l.groups, ¬ l.TokenWithin g.span.start g.span.stop
  /-- In the group of a comment the next one is the next comment that there is, just if
      that follows. -/
  joined : ∀ before c d after, cs = before ++ c :: d :: after →
    ∃ gs₁ g gs₂ front back first, l.groups = gs₁ ++ g :: gs₂ ∧ g.comments = front ++ c :: back ∧
      before = gs₁.flatMap CommentGroup.comments ++ front ∧ g.comments.head? = some first ∧
      (back.head? = some d ↔ l.Follows first c d)

theorem Parted.joined (hgs : l.Parted gs) {before after : List Comment}
    (hall : gs.flatMap CommentGroup.comments = before ++ c :: d :: after) :
    ∃ gs₁ g gs₂ front back first, gs = gs₁ ++ g :: gs₂ ∧ g.comments = front ++ c :: back ∧
      before = gs₁.flatMap CommentGroup.comments ++ front ∧ g.comments.head? = some first ∧
      (back.head? = some d ↔ l.Follows first c d) := by
  obtain ⟨gs₁, g, gs₂, front, back, rfl, hg, hbefore, hafter⟩ := exists_group_of_append hall
  obtain ⟨first, last, hrun⟩ := hgs.runs g (List.mem_append_right _ List.mem_cons_self)
  refine ⟨gs₁, g, gs₂, front, back, first, rfl, hg, hbefore, hrun.head, ?_⟩
  cases back with
  | cons d' back =>
    obtain ⟨rfl, -⟩ := List.cons.inj hafter
    have hfollow := hrun.follow
    rw [hg, List.isChain_append_cons_cons] at hfollow
    exact iff_of_true rfl hfollow.2.1
  | nil =>
    refine iff_of_false nofun ?_
    have hlast : g.comments.getLast? = some c := by simp [hg]
    -- the next comment is the first of the next group, and that is apart
    cases gs₂ with
    | nil => cases hafter
    | cons g' gs₂ =>
      obtain ⟨next, _, hrun'⟩ := hgs.runs g' (by simp)
      have hapart := (List.isChain_append_cons_cons.1 hgs.apart).2.1
      obtain ⟨cs', hcs'⟩ := List.head?_eq_some_iff.1 hrun'.head
      rw [List.flatMap_cons, hcs'] at hafter
      obtain ⟨rfl, -⟩ := List.cons.inj hafter
      exact hapart first c d hrun.head hlast hrun'.head

/-- Groups of comments in order are in order. -/
theorem Parted.ordered (hgs : l.Parted gs)
    (hcs : (gs.flatMap CommentGroup.comments).Pairwise (·.span.stop ≤ ·.span.start)) :
    gs.Pairwise (·.span.stop ≤ ·.span.start) := by
  refine (List.pairwise_flatMap.1 hcs).2.imp_of_mem fun {g h} hg hh hle => ?_
  obtain ⟨_, last, hrun⟩ := hgs.runs g hg
  obtain ⟨first, _, hrun'⟩ := hgs.runs h hh
  rw [hrun.span, hrun'.span]
  exact hle last (List.mem_of_getLast? hrun.getLast) first (List.mem_of_head? hrun'.head)

theorem IsRun.le {first last : Comment} (hg : l.IsRun g first last)
    (hle : ∀ c ∈ g.comments, c.span.start ≤ c.span.stop)
    (hcs : g.comments.Pairwise (·.span.stop ≤ ·.span.start)) : g.span.start ≤ g.span.stop := by
  obtain ⟨cs, hhead⟩ := List.head?_eq_some_iff.1 hg.head
  have hfirst := hle first (List.mem_of_head? hg.head)
  have hlast := List.mem_of_getLast? hg.getLast
  rw [hg.span]
  rw [hhead] at hcs hlast
  rcases List.mem_cons.1 hlast with rfl | hmem
  · exact hfirst
  · have hbehind := (List.pairwise_cons.1 hcs).1 last hmem
    have := hle last (List.mem_of_getLast? hg.getLast)
    simp only
    omega

theorem grouped_of_parted (hgs : l.Parted l.groups) (hcs : l.CommentsInOrder cs)
    (hall : l.groups.flatMap CommentGroup.comments = cs) : l.Grouped cs where
  all := hall
  span g hg := by
    obtain ⟨first, last, hrun⟩ := hgs.runs g hg
    exact ⟨first, last, hrun.head, hrun.getLast, hrun.span⟩
  le g hg := by
    obtain ⟨first, last, hrun⟩ := hgs.runs g hg
    have hmem : ∀ c ∈ g.comments, c ∈ cs := fun c hc => hall ▸ List.mem_flatMap.2 ⟨g, hg, hc⟩
    have hpairwise := (List.pairwise_flatMap.1 (hall ▸ hcs.comments)).1 g hg
    exact hrun.le (fun c hc => hcs.le c (hmem c hc)) hpairwise
  ordered := hgs.ordered (hall ▸ hcs.comments)
  clear g hg := by
    obtain ⟨first, last, hrun⟩ := hgs.runs g hg
    rw [hrun.span]
    exact hrun.clear
  joined _ _ _ _ h := hgs.joined (hall.trans h)

/-- A comment with an end is no token. -/
theorem token?_eq_none_of_comment? {s : Segment} {k : CommentKind} (hk : s.comment? = some k)
    (hfault : s.fault? = none) : s.token? = none := by
  unfold Segment.comment? at hk
  rw [Segment.token?, hfault]
  split at hk
  · next h => rw [h]; rfl
  · next h => rw [h]; rfl
  · cases hk

theorem mem_tokens_of_run {t : Span} :
    t ∈ (Layout.of text (Lexer.ofText text).run.1 cs).tokens ↔
      ∃ s ∈ segments 0 text, s.token?.isSome = true ∧ t = ⟨s.start, s.stop⟩ := by
  have hmem : t ∈ (Layout.of text (Lexer.ofText text).run.1 cs).tokens ↔
      ∃ u, (u ∈ (Lexer.ofText text).run.1 ∧ u.isInserted = false) ∧ ⟨u.start, u.stop⟩ = t := by
    simp [Layout.of]
  rw [hmem]
  constructor
  · rintro ⟨u, hu, rfl⟩
    obtain ⟨s, hs, hlexeme⟩ := mem_run.1 hu
    obtain ⟨v, hv, rfl⟩ := Option.map_eq_some_iff.1 hlexeme
    exact ⟨s, hs, by rw [hv]; rfl, rfl⟩
  · rintro ⟨s, hs, hsome, rfl⟩
    obtain ⟨v, hv⟩ := Option.isSome_iff_exists.1 hsome
    exact ⟨_, mem_run.2 ⟨s, hs, by rw [Segment.lexeme?, hv]; rfl⟩, rfl⟩

theorem tokensInOrder_run (text : List Char) (cs : List Comment) :
    (Layout.of text (Lexer.ofText text).run.1 cs).TokensInOrder where
  ordered := List.pairwise_map.2 ((Lexer.ofText text).run_ordered.1.filter _)
  extent t ht := by
    obtain ⟨s, -, -, rfl⟩ := mem_tokens_of_run.1 ht
    exact s.start_lt_stop

end Layout

theorem mem_comments_of_run : c ∈ (Lexer.ofText text).run.2.comments ↔
    ∃ s ∈ segments 0 text, ∃ k, s.comment? = some k ∧ c = ⟨k, .ofOffsets s.start s.stop⟩ := by
  have hcomments : (Lexer.ofText text).run.2.comments =
      ((segments 0 text).filterMap Segment.remark?).map Remark.comment :=
    (Lexer.ofText text).run_comments
  rw [hcomments, List.mem_map]
  constructor
  · rintro ⟨n, hn, rfl⟩
    obtain ⟨s, hs, k, hk, rfl⟩ := mem_remarks.1 hn
    exact ⟨s, hs, k, hk, rfl⟩
  · rintro ⟨s, hs, k, hk, rfl⟩
    exact ⟨_, mem_remarks.2 ⟨s, hs, k, hk, rfl⟩, rfl⟩

theorem fault?_eq_none_of_run (h : (Lexer.ofText text).run.2.diagnostics = []) {s : Segment}
    (hs : s ∈ segments 0 text) : s.fault? = none := by
  rw [Lexer.run_diagnostics] at h
  have := List.filterMap_eq_nil_iff.1 (List.append_eq_nil_iff.1 h).2 s hs
  simpa [Segment.diagnostic?] using this

namespace Layout

theorem commentsInOrder_run (h : (Lexer.ofText text).run.2.diagnostics = []) :
    (Layout.of text (Lexer.ofText text).run.1 (Lexer.ofText text).run.2.comments).CommentsInOrder
      (Lexer.ofText text).run.2.comments := by
  have hcomments : (Lexer.ofText text).run.2.comments =
      ((segments 0 text).filterMap Segment.remark?).map Remark.comment :=
    (Lexer.ofText text).run_comments
  constructor
  case toTokensInOrder => exact tokensInOrder_run text _
  case comments =>
    rw [hcomments, List.pairwise_map, List.pairwise_filterMap]
    refine (segments_ordered 0 text).imp fun hle n hn n' hn' => ?_
    obtain ⟨_, -, rfl⟩ := Option.map_eq_some_iff.1 hn
    obtain ⟨_, -, rfl⟩ := Option.map_eq_some_iff.1 hn'
    simp only [Remark.comment, Span.ofOffsets]
    omega
  case le =>
    intro c hc
    obtain ⟨s, -, _, -, rfl⟩ := mem_comments_of_run.1 hc
    have := s.start_lt_stop
    simp only [Span.ofOffsets]
    omega
  case held =>
    intro c hc
    obtain ⟨s, -, _, -, rfl⟩ := mem_comments_of_run.1 hc
    exact Nat.min_le_right _ _
  case apart =>
    rintro c hc ⟨t, ht, hstart, hstop⟩
    obtain ⟨s, hs, k, hk, rfl⟩ := mem_comments_of_run.1 hc
    obtain ⟨s', hs', hsome, rfl⟩ := mem_tokens_of_run.1 ht
    simp only [Span.ofOffsets] at hstart hstop
    rcases segments_apart hs' hs with rfl | hapart
    · rw [token?_eq_none_of_comment? hk (fault?_eq_none_of_run h hs)] at hsome
      cases hsome
    · have := s'.start_lt_stop
      omega

/-- The groups of the layout of a text are those of its comments. -/
theorem grouped_layout (h : (Lexer.ofText text).run.2.diagnostics = []) :
    (Layout.of text (Lexer.ofText text).run.1 (Lexer.ofText text).run.2.comments).Grouped
      (Lexer.ofText text).run.2.comments := by
  have hcs := commentsInOrder_run h
  have hgroups := groups_of text (Lexer.ofText text).run.1 (Lexer.ofText text).run.2.comments
  refine grouped_of_parted (hgroups ▸ parted_group hcs) hcs ?_
  rw [hgroups, flatMap_group]

/-- The line of a place is the number of line feeds before it. -/
theorem line_layout {front back : List Char} (h : text = front ++ back) {ts : List Lexeme} :
    (Layout.of text ts cs).line (byteLength front) = front.count '\n' := by
  subst h
  have := countP_lineFeedsFrom 0 front back
  rwa [Nat.zero_add] at this

/-- **Comment groups partition the comments.**  In the layout of a text without lexical
    faults the groups are those of its comments, and the line of a place is the number of
    line feeds before it. -/
theorem grouped_run (h : (Lexer.ofText text).run.2.diagnostics = []) :
    (Layout.of text (Lexer.ofText text).run.1 (Lexer.ofText text).run.2.comments).Grouped
        (Lexer.ofText text).run.2.comments ∧
      ∀ front back, text = front ++ back →
        (Layout.of text (Lexer.ofText text).run.1 (Lexer.ofText text).run.2.comments).line
          (byteLength front) = front.count '\n' :=
  ⟨grouped_layout h, fun _ _ htext => line_layout htext⟩

/-- A group behind a token ends with its line, also if a comment in it takes the line
    further. -/
theorem grouped_run_trailing :
    let text := "package p // a\n// b\n// c\n\n/* d */ type T /* e */ /* f\n*/ // g\n// h\n".toList
    let run := (Lexer.ofText text).run
    run.2.diagnostics = [] ∧
      ((Layout.of text run.1 run.2.comments).groups.map fun g => (g.comments.length, g.trailing)) =
        [(1, true), (2, false), (1, false), (3, true), (1, false)] ∧
      (Layout.of text run.1 run.2.comments).Grouped run.2.comments := by
  intro text run
  have hfaults : run.2.diagnostics = [] := by decide +kernel
  exact ⟨hfaults, by decide +kernel, (grouped_run hfaults).1⟩

end Layout

end GoDecls
