/-
  Comment groups of a text with a token of one byte put in.

  * `Span.moved n`: where a stretch stands with one byte more at `n`;
  * `Layout.Gains l l' n closing`: the second layout is that of the text with such a
    token, right before a token or, if `closing`, right behind one;
  * `Layout.Gains.group_moved`: then the comments form the same groups, and these
    document and annotate the same tokens (`documents_iff`, `annotates_iff`): the new
    token is between two places just if the one next to it is.
-/
import GoDecls.Proofs.Comment.Attached

namespace GoDecls

/-- Where what begins at `p` begins with one byte more at `n`. -/
def movedStart (n p : Nat) : Nat := if p < n then p else p + 1

/-- Where what ends at `p` ends with one byte more at `n`. -/
def movedStop (n p : Nat) : Nat := if p ≤ n then p else p + 1

/-- The stretch with one byte more at `n`. -/
def Span.moved (n : Nat) (s : Span) : Span := ⟨movedStart n s.start, movedStop n s.stop⟩

/-- The comment with one byte more at `n`. -/
def Comment.moved (n : Nat) (c : Comment) : Comment := { c with span := c.span.moved n }

/-- The group with one byte more at `n`. -/
def CommentGroup.moved (n : Nat) (g : CommentGroup) : CommentGroup :=
  { g with comments := g.comments.map (·.moved n), span := g.span.moved n }

section

variable {n a b : Nat}

theorem movedStart_lt_iff : movedStart n a < movedStart n b ↔ a < b := by
  unfold movedStart
  split <;> split <;> omega

theorem movedStart_lt_movedStop (h : a < b) : movedStart n a < movedStop n b := by
  unfold movedStart movedStop
  split <;> split <;> omega

theorem movedStop_le_movedStart_iff : movedStop n a ≤ movedStart n b ↔ a ≤ b := by
  unfold movedStart movedStop
  split <;> split <;> omega

theorem movedStart_of_le (h : n ≤ a) : movedStart n a = a + 1 := if_neg (Nat.not_lt.2 h)

theorem movedStop_of_lt (h : n < a) : movedStop n a = a + 1 := if_neg (Nat.not_le.2 h)

theorem movedStart_of_lt (h : a < n) : movedStart n a = a := if_pos h

theorem movedStop_of_le (h : a ≤ n) : movedStop n a = a := if_pos h

/-- A stretch before the byte stands where it stood. -/
theorem moved_before (hab : a < b) (hb : b ≤ n) : (Span.mk a b).moved n = ⟨a, b⟩ := by
  rw [Span.moved, movedStart_of_lt (Nat.lt_of_lt_of_le hab hb), movedStop_of_le hb]

/-- A stretch behind the byte stands one byte further on. -/
theorem moved_behind (hab : a < b) (ha : n ≤ a) : (Span.mk a b).moved n = ⟨a + 1, b + 1⟩ := by
  rw [Span.moved, movedStart_of_le ha, movedStop_of_lt (Nat.lt_of_le_of_lt ha hab)]

theorem moved_ofOffsets (hab : a < b) (hb : movedStop n b ≤ Span.limit) :
    (Span.ofOffsets a b).moved n = .ofOffsets (movedStart n a) (movedStop n b) := by
  have hheld : b ≤ Span.limit ∧ movedStart n a ≤ Span.limit := by
    unfold movedStart
    unfold movedStop at hb
    split at hb <;> split <;> omega
  rw [Span.ofOffsets_of_le (by omega) hheld.1, Span.ofOffsets_of_le hheld.2 hb]
  rfl

end

namespace Layout

/-- The second layout is that of the text with a token of one byte more at `n`: right
    before a token or, if `closing`, right behind one. -/
structure Gains (l l' : Layout) (n : Nat) (closing : Bool) : Prop where
  inOrder : l.TokensInOrder
  inOrder' : l'.TokensInOrder
  lineBefore : ∀ p ≤ n, l'.line p = l.line p
  lineBehind : ∀ p, n ≤ p → l'.line (p + 1) = l.line p
  tokens : ∀ t, t ∈ l'.tokens ↔ t = ⟨n, n + 1⟩ ∨ ∃ u ∈ l.tokens, t = u.moved n
  opens : closing = false → ∃ t ∈ l.tokens, t.start = n
  closes : closing = true → ∃ t ∈ l.tokens, t.stop = n

/-- No token stands across the position. -/
def Clear (l : Layout) (p : Nat) : Prop := ∀ t ∈ l.tokens, t.stop ≤ p ∨ p ≤ t.start

theorem TokensInOrder.clear_stop {l : Layout} (hl : l.TokensInOrder) {t : Span}
    (ht : t ∈ l.tokens) : l.Clear t.stop := by
  intro u hu
  have := hl.extent t ht
  have := hl.extent u hu
  rcases hl.apart hu ht with rfl | hle | hle
  · exact .inl (Nat.le_refl _)
  · exact .inl (by omega)
  · exact .inr hle

/-- The comment has extent, and no token stands where it does. -/
structure Outside (l : Layout) (c : Comment) : Prop where
  extent : c.span.start < c.span.stop
  apart : ∀ t ∈ l.tokens, t.stop ≤ c.span.start ∨ c.span.stop ≤ t.start

section

variable {l : Layout} {c : Comment}

theorem Outside.clear_start (hc : l.Outside c) : l.Clear c.span.start := fun t ht =>
  (hc.apart t ht).imp id fun hle => Nat.le_trans (Nat.le_of_lt hc.extent) hle

theorem Outside.clear_stop (hc : l.Outside c) : l.Clear c.span.stop := fun t ht =>
  (hc.apart t ht).imp (fun hle => Nat.le_trans hle (Nat.le_of_lt hc.extent)) id

/-- The groups of the layout are those of the comments, and no token stands where one of
    these does. -/
structure Arranged (l : Layout) (cs : List Comment) : Prop where
  parted : l.Parted l.groups
  grouped : l.Grouped cs
  outside : ∀ c ∈ cs, l.Outside c

theorem Arranged.exists_run {cs : List Comment} (hl : l.Arranged cs) {g : CommentGroup}
    (hg : g ∈ l.groups) :
    ∃ first last, l.IsRun g first last ∧ l.Outside first ∧ l.Outside last := by
  obtain ⟨first, last, hrun⟩ := hl.parted.runs g hg
  have hmem {c : Comment} (hc : c ∈ g.comments) : l.Outside c :=
    hl.outside c (hl.grouped.all ▸ List.mem_flatMap.2 ⟨g, hg, hc⟩)
  exact ⟨first, last, hrun, hmem (List.mem_of_head? hrun.head),
    hmem (List.mem_of_getLast? hrun.getLast)⟩

/-- What holds of a group that has moved just if another property held of it is found at the
    same places. -/
theorem Arranged.exists_moved_iff {cs : List Comment} (hl : l.Arranged cs) {i : Nat}
    {P P' : CommentGroup → Prop} (hsame : ∀ g first last, l.IsRun g first last →
      l.Outside first → l.Outside last → (P' (g.moved n) ↔ P g)) :
    (∃ g, (l.groups.map (·.moved n))[i]? = some g ∧ P' g) ↔ ∃ g, l.groups[i]? = some g ∧ P g := by
  rw [List.getElem?_map]
  constructor
  · rintro ⟨_, hmoved, hP'⟩
    obtain ⟨g, hi, rfl⟩ := Option.map_eq_some_iff.1 hmoved
    obtain ⟨first, last, hrun, hfirst, hlast⟩ := hl.exists_run (List.mem_of_getElem? hi)
    exact ⟨g, hi, (hsame g first last hrun hfirst hlast).1 hP'⟩
  · rintro ⟨g, hi, hP⟩
    obtain ⟨first, last, hrun, hfirst, hlast⟩ := hl.exists_run (List.mem_of_getElem? hi)
    exact ⟨_, by rw [hi]; rfl, (hsame g first last hrun hfirst hlast).2 hP⟩

end

namespace Gains

variable {l l' : Layout} {n a b p : Nat} {closing : Bool} (h : l.Gains l' n closing)

include h

theorem line_movedStart (p : Nat) : l'.line (movedStart n p) = l.line p := by
  unfold movedStart
  split
  · exact h.lineBefore p (by omega)
  · exact h.lineBehind p (by omega)

theorem line_movedStop (p : Nat) : l'.line (movedStop n p) = l.line p := by
  unfold movedStop
  split
  · exact h.lineBefore p (by omega)
  · exact h.lineBehind p (by omega)

/-! ## Tokens between -/

/-- Behind the new token the same tokens begin. -/
theorem tokenWithin_behind : l'.TokenWithin (n + 1) (movedStart n b) ↔ l.TokenWithin n b := by
  constructor
  · rintro ⟨t, ht, hstart, hstop⟩
    rcases (h.tokens t).1 ht with rfl | ⟨u, hu, rfl⟩
    · exact absurd hstart (Nat.not_succ_le_self n)
    · refine ⟨u, hu, ?_, movedStart_lt_iff.1 hstop⟩
      change n + 1 ≤ movedStart n u.start at hstart
      unfold movedStart at hstart
      split at hstart <;> omega
  · rintro ⟨u, hu, hstart, hstop⟩
    refine ⟨u.moved n, (h.tokens _).2 (.inr ⟨u, hu, rfl⟩), ?_, movedStart_lt_iff.2 hstop⟩
    rw [Span.moved, movedStart_of_le hstart]
    exact Nat.succ_le_succ hstart

/-- The new token is between two places just if the one next to it is. -/
theorem tokenWithin_moved (ha : l.Clear a) (hopen : closing = false → b ≠ n)
    (hclose : closing = true → a ≠ n) :
    l'.TokenWithin (movedStop n a) (movedStart n b) ↔ l.TokenWithin a b := by
  constructor
  · rintro ⟨t, ht, hstart, hstop⟩
    rcases (h.tokens t).1 ht with rfl | ⟨u, hu, rfl⟩
    · have han : a ≤ n := by
        unfold movedStop at hstart
        split at hstart <;> dsimp only at hstart <;> omega
      have hbn : n ≤ b := by
        unfold movedStart at hstop
        split at hstop <;> dsimp only at hstop <;> omega
      cases closing with
      | false =>
        obtain ⟨u, hu, rfl⟩ := h.opens rfl
        exact ⟨u, hu, han, Nat.lt_of_le_of_ne hbn (hopen rfl).symm⟩
      | true =>
        obtain ⟨u, hu, hn⟩ := h.closes rfl
        have hlt := h.inOrder.extent u hu
        have hne := hclose rfl
        refine ⟨u, hu, (ha u hu).resolve_left fun hle => ?_, by omega⟩
        omega
    · exact ⟨u, hu, movedStop_le_movedStart_iff.1 hstart, movedStart_lt_iff.1 hstop⟩
  · rintro ⟨u, hu, hstart, hstop⟩
    exact ⟨u.moved n, (h.tokens _).2 (.inr ⟨u, hu, rfl⟩), movedStop_le_movedStart_iff.2 hstart,
      movedStart_lt_iff.2 hstop⟩

/-- What stands behind a token on its line does so with the new one too. -/
theorem trailsToken_moved (hp : l.Clear p) (hopen : closing = false → p ≠ n) :
    l'.TrailsToken (movedStart n p) ↔ l.TrailsToken p := by
  constructor
  · rintro ⟨t, ht, hstart, hnone, hline⟩
    rw [h.line_movedStart] at hline
    rcases (h.tokens t).1 ht with rfl | ⟨u, hu, rfl⟩
    · have hnp : n ≤ p := by
        unfold movedStart at hstart
        split at hstart <;> dsimp only at hstart <;> omega
      rw [h.tokenWithin_behind] at hnone
      rw [h.lineBehind n (Nat.le_refl n)] at hline
      cases closing with
      | false =>
        obtain ⟨u, hu, rfl⟩ := h.opens rfl
        exact absurd ⟨u, hu, Nat.le_refl _, Nat.lt_of_le_of_ne hnp (hopen rfl).symm⟩ hnone
      | true =>
        obtain ⟨u, hu, rfl⟩ := h.closes rfl
        have := h.inOrder.extent u hu
        exact ⟨u, hu, by omega, hnone, hline⟩
    · have hlt := movedStart_lt_iff.1 hstart
      have hstop : closing = true → u.stop ≠ n := by
        rintro - rfl
        have := (hp u hu).resolve_right (by omega)
        refine hnone ⟨⟨u.stop, u.stop + 1⟩, (h.tokens _).2 (.inl rfl), ?_, ?_⟩
        · rw [Span.moved, movedStop_of_le (Nat.le_refl _)]
        · rw [movedStart_of_le this]
          exact Nat.lt_succ_of_le this
      rw [Span.moved, h.tokenWithin_moved (h.inOrder.clear_stop hu) hopen hstop] at hnone
      rw [Span.moved, h.line_movedStop] at hline
      exact ⟨u, hu, hlt, hnone, hline⟩
  · rintro ⟨u, hu, hstart, hnone, hline⟩
    by_cases hstop : closing = true ∧ u.stop = n
    · obtain ⟨-, rfl⟩ := hstop
      have := (hp u hu).resolve_right (by omega)
      refine ⟨⟨u.stop, u.stop + 1⟩, (h.tokens _).2 (.inl rfl), ?_, ?_, ?_⟩
      · rw [movedStart_of_le this]
        exact Nat.lt_succ_of_le this
      · rwa [h.tokenWithin_behind]
      · rw [h.lineBehind _ (Nat.le_refl _), h.line_movedStart, hline]
    · refine ⟨u.moved n, (h.tokens _).2 (.inr ⟨u, hu, rfl⟩), movedStart_lt_iff.2 hstart, ?_, ?_⟩
      · rwa [Span.moved,
          h.tokenWithin_moved (h.inOrder.clear_stop hu) hopen fun hc hn => hstop ⟨hc, hn⟩]
      · rw [Span.moved, h.line_movedStop, h.line_movedStart, hline]

/-! ## Comments -/

variable {c first last : Comment} {cs : List Comment} {g : CommentGroup}

theorem start_ne (hc : l.Outside c) (hopen : closing = false) : c.span.start ≠ n := by
  obtain ⟨t, ht, rfl⟩ := h.opens hopen
  have := h.inOrder.extent t ht
  have := hc.extent
  rcases hc.apart t ht with hle | hle <;> omega

theorem stop_ne (hc : l.Outside c) (hclose : closing = true) : c.span.stop ≠ n := by
  obtain ⟨t, ht, rfl⟩ := h.closes hclose
  have := h.inOrder.extent t ht
  have := hc.extent
  rcases hc.apart t ht with hle | hle <;> omega

theorem trailsToken_start (hc : l.Outside c) :
    l'.TrailsToken (movedStart n c.span.start) ↔ l.TrailsToken c.span.start :=
  h.trailsToken_moved hc.clear_start (h.start_ne hc)

theorem tokenBetween_moved (hlast : l.Outside last) (hc : l.Outside c) :
    l'.tokenBetween (movedStop n last.span.stop) (movedStart n c.span.start) =
      l.tokenBetween last.span.stop c.span.start := by
  rw [Bool.eq_iff_iff, tokenBetween_iff, tokenBetween_iff]
  exact h.tokenWithin_moved hlast.clear_stop (h.start_ne hc) (h.stop_ne hlast)

theorem joins_moved (hg : l.IsRun g first last) (hlast : l.Outside last) (hc : l.Outside c) :
    l'.joins (g.moved n) (c.moved n) = l.joins g c := by
  have hstop : g.span.stop = last.span.stop := by rw [hg.span]
  rw [joins, joins]
  change (!l'.tokenBetween (movedStop n g.span.stop) (movedStart n c.span.start) &&
    decide (l'.line (movedStart n c.span.start) ≤
      l'.line (movedStop n g.span.stop) + if g.trailing then 0 else 1)) = _
  rw [h.line_movedStart, h.line_movedStop, hstop, h.tokenBetween_moved hlast hc]

theorem single_moved (hc : l.Outside c) (hheld : movedStop n c.span.stop ≤ Span.limit) :
    l'.single (c.moved n) = (l.single c).moved n := by
  have htrails : l'.trails (movedStart n c.span.start) = l.trails c.span.start := by
    rw [Bool.eq_iff_iff, h.inOrder'.trails_iff, h.inOrder.trails_iff]
    exact h.trailsToken_start hc
  rw [single, CommentGroup.moved, single, moved_ofOffsets hc.extent hheld, ← htrails]
  rfl

/-- **The groups are those that there were.** -/
theorem groupFrom_moved (hg : l.IsRun g first last) (hlast : l.Outside last)
    (hcs : l.CommentsInOrder cs) (hle : ∀ c ∈ cs, first.span.start ≤ c.span.start)
    (hout : ∀ c ∈ cs, l.Outside c) (hheld : ∀ c ∈ cs, movedStop n c.span.stop ≤ Span.limit) :
    l'.groupFrom (g.moved n) (cs.map (·.moved n)) = (l.groupFrom g cs).map (·.moved n) := by
  induction cs generalizing g first last with
  | nil => rfl
  | cons c cs ih =>
    obtain ⟨hc, hcs_out⟩ := List.forall_mem_cons.1 hout
    obtain ⟨hc_held, hcs_held⟩ := List.forall_mem_cons.1 hheld
    obtain ⟨hc_le, hcs_le⟩ := List.forall_mem_cons.1 hle
    rw [List.map_cons, groupFrom, groupFrom, h.joins_moved hg hlast hc]
    split
    · next hjoins =>
      have hstart : g.span.start < c.span.stop := by
        rw [hg.span]
        exact Nat.lt_of_le_of_lt hc_le hc.extent
      have hextend : extend (g.moved n) (c.moved n) = (extend g c).moved n := by
        change _ = CommentGroup.mk ((g.comments ++ [c]).map (·.moved n))
          ((Span.ofOffsets g.span.start c.span.stop).moved n) g.trailing
        rw [moved_ofOffsets hstart hc_held, List.map_append]
        rfl
      rw [hextend]
      exact ih (hg.extend hc_le hcs (hg.joins_iff.1 hjoins)) hc hcs.tail hcs_le hcs_out hcs_held
    · have hbehind := (List.pairwise_cons.1 hcs.comments).1
      rw [List.map_cons, h.single_moved hc hc_held,
        ih (isRun_single hcs) hc hcs.tail
          (fun d hd => Nat.le_trans (Nat.le_of_lt hc.extent) (hbehind d hd)) hcs_out hcs_held]

theorem group_moved (hcs : l.CommentsInOrder cs) (hout : ∀ c ∈ cs, l.Outside c)
    (hheld : ∀ c ∈ cs, movedStop n c.span.stop ≤ Span.limit) :
    l'.group (cs.map (·.moved n)) = (l.group cs).map (·.moved n) := by
  cases cs with
  | nil => rfl
  | cons c cs =>
    obtain ⟨hc, hcs_out⟩ := List.forall_mem_cons.1 hout
    obtain ⟨hc_held, hcs_held⟩ := List.forall_mem_cons.1 hheld
    have hbehind := (List.pairwise_cons.1 hcs.comments).1
    rw [List.map_cons, group, group, h.single_moved hc hc_held]
    exact h.groupFrom_moved (isRun_single hcs) hc hcs.tail
      (fun d hd => Nat.le_trans (Nat.le_of_lt hc.extent) (hbehind d hd)) hcs_out hcs_held

/-! ## What the groups belong to -/

theorem documents_iff (hg : l.IsRun g first last) (hfirst : l.Outside first)
    (hlast : l.Outside last) (hopen : closing = false → p ≠ n) :
    l'.Documents (g.moved n) (movedStart n p) ↔ l.Documents g p := by
  have hspan : (g.moved n).span = ⟨movedStart n first.span.start, movedStop n last.span.stop⟩ := by
    rw [CommentGroup.moved, hg.span]
    rfl
  rw [documents_iff_and, documents_iff_and, hspan, hg.span, h.line_movedStop, h.line_movedStart,
    h.tokenWithin_moved hlast.clear_stop hopen (h.stop_ne hlast), h.trailsToken_start hfirst]

/-- A group is beside what ends at `q'` if it was beside what ends at `q`, and the same
    tokens begin behind the two places, which are on the same line. -/
theorem annotates_congr {q q' : Nat} (hg : l.IsRun g first last)
    (hbehind : q' ≤ movedStart n first.span.start ↔ q ≤ first.span.start)
    (hadjacent : l'.TokenWithin q' (movedStart n first.span.start) ↔
      l.TokenWithin q first.span.start)
    (hbeside : l'.line q' = l.line q) : l'.Annotates (g.moved n) q' ↔ l.Annotates g q := by
  have hstart : g.span.start = first.span.start := by rw [hg.span]
  have hstart' : (g.moved n).span.start = movedStart n first.span.start := by
    rw [CommentGroup.moved, hg.span]
    rfl
  rw [annotates_iff_and, annotates_iff_and, hstart, hstart', hbehind, hadjacent, hbeside,
    h.line_movedStart]

theorem annotates_iff (hg : l.IsRun g first last) (hfirst : l.Outside first) (hp : l.Clear p)
    (hclose : closing = true → p ≠ n) :
    l'.Annotates (g.moved n) (movedStop n p) ↔ l.Annotates g p :=
  h.annotates_congr hg movedStop_le_movedStart_iff
    (h.tokenWithin_moved hp (h.start_ne hfirst) hclose) (h.line_movedStop p)

/-- A group is beside the new token if it was beside what ends where that begins. -/
theorem annotates_behind_iff (hg : l.IsRun g first last) :
    l'.Annotates (g.moved n) (n + 1) ↔ l.Annotates g n := by
  refine h.annotates_congr hg ?_ h.tokenWithin_behind (h.lineBehind n (Nat.le_refl n))
  unfold movedStart
  split <;> omega

/-! ## The groups that are found -/

section

variable {cs' : List Comment} (hl : l.Arranged cs) (hl' : l'.Arranged cs')
  (hgroups : l'.groups = l.groups.map (·.moved n))

include hl hl' hgroups

/-- **The same groups document tokens.** -/
theorem docFor?_moved (hopen : closing = false → p ≠ n) :
    l'.docFor? (movedStart n p) = l.docFor? p := by
  refine Option.ext fun i => ?_
  rw [docFor?_eq_some_iff hl'.parted hl'.grouped, docFor?_eq_some_iff hl.parted hl.grouped, hgroups]
  exact hl.exists_moved_iff fun g first last hrun hfirst hlast =>
    h.documents_iff hrun hfirst hlast hopen

/-- The same groups stand beside what ends at two places. -/
theorem lineCommentAfter?_eq {t t' : Span} (ht : t ∈ l.tokens) (ht' : t' ∈ l'.tokens)
    (hsame : ∀ g first last, l.IsRun g first last → l.Outside first →
      (l'.Annotates (g.moved n) t'.stop ↔ l.Annotates g t.stop)) :
    l'.lineCommentAfter? t'.stop = l.lineCommentAfter? t.stop := by
  refine Option.ext fun i => ?_
  rw [lineCommentAfter?_eq_some_iff h.inOrder' hl'.parted hl'.grouped ht' rfl,
    lineCommentAfter?_eq_some_iff h.inOrder hl.parted hl.grouped ht rfl, hgroups]
  exact hl.exists_moved_iff fun g first last hrun hfirst _ => hsame g first last hrun hfirst

/-- **The same groups stand beside tokens.** -/
theorem lineCommentAfter?_moved {t : Span} (ht : t ∈ l.tokens)
    (hclose : closing = true → t.stop ≠ n) :
    l'.lineCommentAfter? (movedStop n t.stop) = l.lineCommentAfter? t.stop := by
  have ht' : t.moved n ∈ l'.tokens := (h.tokens _).2 (.inr ⟨t, ht, rfl⟩)
  exact h.lineCommentAfter?_eq hl hl' hgroups ht ht' fun _ _ _ hrun hfirst =>
    h.annotates_iff hrun hfirst (h.inOrder.clear_stop ht) hclose

/-- Beside the new token stands the group that stood beside the token before it. -/
theorem lineCommentAfter?_behind (hclose : closing = true) :
    l'.lineCommentAfter? (n + 1) = l.lineCommentAfter? n := by
  obtain ⟨t, ht, rfl⟩ := h.closes hclose
  have ht' : ⟨t.stop, t.stop + 1⟩ ∈ l'.tokens := (h.tokens _).2 (.inl rfl)
  exact h.lineCommentAfter?_eq hl hl' hgroups ht ht' fun _ _ _ hrun _ =>
    h.annotates_behind_iff hrun

end

end Gains

end Layout

end GoDecls
