/-
  The text of comments, as a specification.

  * `CommentText.Shows text c b`: the body of a comment without its markers, and none
    if it is a directive to a tool (`CommentText.IsDirective`);
  * `CommentText.Tidy ls out`: the lines without blank ones at the ends and with one
    blank line for each run of them, and nothing else changed;
  * `CommentText.ofComments_of_ofText`: the text of a comment group are the tidied
    lines of the bodies that its comments show.
-/
import GoDecls.Comment.Text
import GoDecls.Proofs.Comment.Groups
import GoDecls.Tree.File
import Mathlib.Data.List.DropRight

namespace GoDecls.CommentText

open Text Scan

variable {text cs l : List Char} {c : Comment} {a b : List Char} {ls : List (List Char)}

/-! ## Directives -/

/-- The body of a line comment that is a directive: an order for `line`, `extern` or
    `export`, or one of the form `tool:order`. -/
inductive IsDirective : List Char → Prop
  | word {word : String} (rest) : word ∈ ["line ", "extern ", "export "] →
      IsDirective (word.toList ++ rest)
  | order {tool d} (rest) : tool ≠ [] → (∀ e ∈ tool, isWordChar e = true) → isWordChar d = true →
      IsDirective (tool ++ ':' :: d :: rest)

theorem isToolOrder_iff : isToolOrder cs = true ↔ ∃ tool c rest, tool ≠ [] ∧
    (∀ d ∈ tool, isWordChar d = true) ∧ isWordChar c = true ∧ cs = tool ++ ':' :: c :: rest := by
  have hsplit : cs.drop (cs.takeWhile (· ≠ ':')).length = cs.dropWhile (· ≠ ':') := by
    have h := congrArg (List.drop (cs.takeWhile (· ≠ ':')).length)
      (List.takeWhile_append_dropWhile (p := (· ≠ ':')) (l := cs))
    rw [List.drop_left] at h
    exact h.symm
  simp only [isToolOrder, hsplit, Bool.and_eq_true, Bool.not_eq_true', List.isEmpty_eq_false_iff,
    List.all_eq_true]
  constructor
  · rintro ⟨⟨hne, hall⟩, horder⟩
    obtain ⟨c, hhead, hc⟩ := (Option.any_eq_true _ _).1 horder
    cases hdrop : cs.dropWhile (· ≠ ':') with
    | nil =>
      rw [hdrop] at hhead
      cases hhead
    | cons colon order =>
      obtain rfl : colon = ':' := by
        have := List.head?_dropWhile_not (· ≠ ':') cs
        rw [hdrop] at this
        simpa using this
      rw [hdrop, List.tail_cons] at hhead
      obtain ⟨rest, rfl⟩ := List.head?_eq_some_iff.1 hhead
      refine ⟨_, c, rest, hne, hall, hc, ?_⟩
      rw [← hdrop, List.takeWhile_append_dropWhile]
  · rintro ⟨tool, c, rest, hne, hall, hc, rfl⟩
    have htool : ∀ d ∈ tool, decide (d ≠ ':') = true := by
      intro d hd
      rw [decide_eq_true_eq]
      rintro rfl
      exact absurd (hall _ hd) (by decide)
    rw [List.takeWhile_append_of_pos htool, List.dropWhile_append_of_pos htool]
    simp [hne, hc]
    exact hall

theorem isDirective_iff : isDirective cs = true ↔ IsDirective cs := by
  simp only [isDirective, Bool.or_eq_true, List.any_eq_true, List.isPrefixOf_iff_prefix,
    isToolOrder_iff]
  constructor
  · rintro (⟨word, hword, rest, rfl⟩ | ⟨tool, c, rest, hne, hall, hc, rfl⟩)
    · exact .word rest hword
    · exact .order rest hne hall hc
  · intro h
    cases h with
    | word rest hword => exact .inl ⟨_, hword, rest, rfl⟩
    | order rest hne hall hc => exact .inr ⟨_, _, rest, hne, hall, hc, rfl⟩

/-! ## Bodies -/

/-- What a comment of the text shows: what stands between its markers, or behind the
    marker and one space, and nothing if it is a directive. -/
inductive Shows (text : List Char) : Comment → Option (List Char) → Prop
  | spaced {span body} : span.text? text = some ('/' :: '/' :: ' ' :: body) →
      Shows text ⟨.line, span⟩ (some body)
  | directive {span body} : span.text? text = some ('/' :: '/' :: body) → body.head? ≠ some ' ' →
      IsDirective body → Shows text ⟨.line, span⟩ none
  | plain {span body} : span.text? text = some ('/' :: '/' :: body) → body.head? ≠ some ' ' →
      ¬ IsDirective body → Shows text ⟨.line, span⟩ (some body)
  | block {span body} : span.text? text = some ('/' :: '*' :: (body ++ ['*', '/'])) →
      Shows text ⟨.block, span⟩ (some body)

/-- The lines of a body, without blanks at their ends. -/
def bodyLines (b : Option (List Char)) : List (List Char) :=
  match b with
  | some body => (body.splitOn '\n').map (·.rdropWhile (· ∈ [' ', '\t', '\n', '\r']))
  | none => []

theorem trimEnd_eq (cs : List Char) : trimEnd cs = cs.rdropWhile (· ∈ [' ', '\t', '\n', '\r']) := by
  have htrailing : isTrailing = fun c => decide (c ∈ [' ', '\t', '\n', '\r']) := by
    funext c
    rw [Bool.eq_iff_iff]
    simp [isTrailing, or_assoc]
  rw [trimEnd, htrailing, List.rdropWhile]

theorem body?_line_of_ne (h : cs.head? ≠ some ' ') :
    body? .line ('/' :: '/' :: cs) = if isDirective cs then none else some cs := by
  unfold body? stripFront?
  simp only [List.isPrefixOf_iff_prefix, List.cons_prefix_cons, List.nil_prefix, and_self, if_true]
  split
  · next hspace =>
    simp at hspace
    simp [hspace] at h
  · rfl

theorem body?_block (body : List Char) :
    body? .block ('/' :: '*' :: (body ++ ['*', '/'])) = some body := by
  simp [body?, stripFront?, stripBack?]

/-- A comment of the text that is not at fault shows its body. -/
theorem exists_shows {s : Segment} (hs : s ∈ segments 0 text) {k : CommentKind}
    (hk : s.comment? = some k) (hfault : s.fault? = none) :
    ∃ b, Shows text ⟨k, s.start, s.stop⟩ b := by
  have htext : (Span.mk s.start s.stop).text? text = some s.text := slice?_segment hs
  obtain ⟨front, c, back, rfl, rfl⟩ := mem_segments hs
  cases hkind : (scan c back).1 with
  | lineComment =>
    obtain rfl : CommentKind.line = k := by simpa [Segment.comment?, Segment.front, hkind] using hk
    obtain ⟨body, hbody⟩ := lineComment_cases hkind
    replace htext := htext.trans (congrArg some hbody)
    by_cases hhead : body.head? = some ' '
    · obtain ⟨body, rfl⟩ := List.head?_eq_some_iff.1 hhead
      exact ⟨some body, .spaced htext⟩
    · by_cases hbody : IsDirective body
      · exact ⟨none, .directive htext hhead hbody⟩
      · exact ⟨some body, .plain htext hhead hbody⟩
  | blockComment closed =>
    obtain rfl : CommentKind.block = k := by simpa [Segment.comment?, Segment.front, hkind] using hk
    obtain ⟨rfl, ds, rfl, ⟨rfl, body, rest, rfl, htake⟩ | ⟨rfl, -, -⟩⟩ := blockComment_cases hkind
    · exact ⟨some body, .block (htext.trans (congrArg (fun ds => some ('/' :: ds)) htake))⟩
    · simp [Segment.fault?, Segment.front, hkind] at hfault
  | _ => simp [Segment.comment?, Segment.front, hkind] at hk

theorem lines_of_shows {b : Option (List Char)} (h : Shows text c b) :
    lines text c = bodyLines b := by
  have hbody : (c.span.text? text).bind (body? c.kind) = b := by
    cases h with
    | spaced htext =>
      simp only [htext]
      rfl
    | directive htext hhead hbody =>
      simp only [htext, Option.bind_some, body?_line_of_ne hhead]
      rw [if_pos (isDirective_iff.2 hbody)]
    | plain htext hhead hbody =>
      simp only [htext, Option.bind_some, body?_line_of_ne hhead]
      rw [if_neg (mt isDirective_iff.1 hbody)]
    | block htext =>
      simp only [htext, Option.bind_some, body?_block]
  unfold lines
  rw [hbody]
  cases b with
  | none => rfl
  | some body => exact List.map_congr_left fun l _ => trimEnd_eq l

/-! ## Tidying -/

/-- The second lines are the first made tidy: blank lines, which are without characters,
    are not at the ends and stand alone, and they stand where there were any between
    the others. -/
structure Tidy (ls out : List (List Char)) : Prop where
  head : out.head? ≠ some []
  getLast : out.getLast? ≠ some []
  alone : out.IsChain fun a b => a ≠ [] ∨ b ≠ []
  filled : out.filter (· ≠ []) = ls.filter (· ≠ [])
  gaps : ∀ before a mid b after, ls = before ++ a :: (mid ++ b :: after) → a ≠ [] → b ≠ [] →
    (∀ l ∈ mid, l = []) → ∃ before' after', before'.filter (· ≠ []) = before.filter (· ≠ []) ∧
      after'.filter (· ≠ []) = after.filter (· ≠ []) ∧
      out = before' ++ a :: ((if mid = [] then [] else [[]]) ++ b :: after')

@[simp] theorem squeeze_cons_of_ne {gap : Bool} (ha : a ≠ []) :
    squeeze gap (a :: ls) = a :: squeeze true ls := by
  cases a with
  | nil => exact absurd rfl ha
  | cons c cs => rfl

theorem squeeze_append_cons {gap : Bool} (ha : a ≠ []) (ls ls' : List (List Char)) :
    squeeze gap (ls ++ a :: ls') = squeeze gap ls ++ a :: squeeze true ls' := by
  induction ls generalizing gap with
  | nil => simp [ha, squeeze]
  | cons b ls ih =>
    by_cases hb : b = []
    · subst hb
      cases gap <;> simp [squeeze, ih]
    · simp [hb, ih]

theorem filter_squeeze (gap : Bool) (ls : List (List Char)) :
    (squeeze gap ls).filter (· ≠ []) = ls.filter (· ≠ []) := by
  induction ls generalizing gap with
  | nil => rfl
  | cons b ls ih =>
    by_cases hb : b = []
    · subst hb
      cases gap <;> simpa [squeeze] using ih false
    · simpa [hb] using ih true

theorem squeeze_subset (gap : Bool) (ls : List (List Char)) : squeeze gap ls ⊆ ls := by
  induction ls generalizing gap with
  | nil => exact List.Subset.refl _
  | cons b ls ih =>
    by_cases hb : b = []
    · subst hb
      cases gap
      · exact List.subset_cons_of_subset [] (ih false)
      · exact List.cons_subset_cons [] (ih false)
    · rw [squeeze_cons_of_ne hb]
      exact List.cons_subset_cons b (ih true)

/-- Squeezed lines have no two blank ones in a row, and none at the front unless
    allowed. -/
theorem squeeze_alone (gap : Bool) (ls : List (List Char)) :
    (squeeze gap ls).IsChain (fun a b => a ≠ [] ∨ b ≠ []) ∧
      (gap = false → (squeeze gap ls).head? ≠ some []) := by
  induction ls generalizing gap with
  | nil => exact ⟨.nil, fun _ => nofun⟩
  | cons b ls ih =>
    by_cases hb : b = []
    · subst hb
      obtain ⟨hchain, hhead⟩ := ih false
      cases gap with
      | false => exact ⟨hchain, fun _ => hhead rfl⟩
      | true =>
        refine ⟨hchain.cons fun l hl => .inr ?_, nofun⟩
        rintro rfl
        exact hhead rfl hl
    · rw [squeeze_cons_of_ne hb]
      refine ⟨(ih true).1.cons fun _ _ => .inl hb, fun _ hhead => ?_⟩
      exact hb (Option.some.inj hhead)

/-- Of blank lines behind another at most one stays. -/
theorem squeeze_blank {mid : List (List Char)} (hmid : ∀ l ∈ mid, l = []) :
    squeeze true mid = if mid = [] then [] else [[]] := by
  have hfront (ls : List (List Char)) (h : ∀ l ∈ ls, l = []) : squeeze false ls = [] := by
    induction ls with
    | nil => rfl
    | cons l ls ih =>
      obtain ⟨rfl, hls⟩ := List.forall_mem_cons.1 h
      exact ih hls
  cases mid with
  | nil => rfl
  | cons l ls =>
    obtain ⟨rfl, hls⟩ := List.forall_mem_cons.1 hmid
    rw [squeeze, if_pos rfl, hfront ls hls, if_neg (List.cons_ne_nil _ _)]

theorem dropBlankEnd_append_cons (ha : a ≠ []) (ls ls' : List (List Char)) :
    dropBlankEnd (ls ++ a :: ls') = ls ++ a :: dropBlankEnd ls' := by
  have hreverse : (ls ++ a :: ls').reverse = ls'.reverse ++ a :: ls.reverse := by simp
  unfold dropBlankEnd
  rw [hreverse, List.dropWhile_append]
  split
  · next hblank =>
    rw [List.isEmpty_iff] at hblank
    simp [hblank, ha]
  · simp

/-- Dropping blank lines at the end drops nothing else. -/
theorem exists_dropBlankEnd (ls : List (List Char)) :
    ∃ blank, ls = dropBlankEnd ls ++ blank ∧ (∀ l ∈ blank, l = []) ∧
      (dropBlankEnd ls).getLast? ≠ some [] := by
  refine ⟨ls.rtakeWhile List.isEmpty, List.rdropWhile_append_rtakeWhile.symm, fun l hl => ?_, ?_⟩
  · exact List.isEmpty_iff.1 (List.mem_rtakeWhile_imp hl)
  · intro hlast
    have hne : ls.rdropWhile List.isEmpty ≠ [] := by
      intro h
      rw [dropBlankEnd, ← List.rdropWhile, h] at hlast
      cases hlast
    refine List.rdropWhile_last_not List.isEmpty ls hne ?_
    rw [dropBlankEnd, ← List.rdropWhile, List.getLast?_eq_some_getLast hne] at hlast
    rw [Option.some.inj hlast]
    rfl

theorem filter_dropBlankEnd (ls : List (List Char)) :
    (dropBlankEnd ls).filter (· ≠ []) = ls.filter (· ≠ []) := by
  obtain ⟨blank, hsplit, hblank, -⟩ := exists_dropBlankEnd ls
  have hnone : blank.filter (· ≠ []) = [] := by simpa using hblank
  calc (dropBlankEnd ls).filter (· ≠ [])
      = (dropBlankEnd ls ++ blank).filter (· ≠ []) := by
        rw [List.filter_append, hnone, List.append_nil]
    _ = ls.filter (· ≠ []) := by rw [← hsplit]

theorem tidy_squeeze (ls : List (List Char)) : Tidy ls (dropBlankEnd (squeeze false ls)) := by
  obtain ⟨blank, hsplit, hblank, hlast⟩ := exists_dropBlankEnd (squeeze false ls)
  obtain ⟨halone, hhead⟩ := squeeze_alone false ls
  have hprefix : dropBlankEnd (squeeze false ls) <+: squeeze false ls := ⟨blank, hsplit.symm⟩
  constructor
  case head =>
    intro hfirst
    refine hhead rfl ?_
    rw [hsplit, List.head?_append, hfirst]
    rfl
  case getLast => exact hlast
  case alone => exact halone.prefix hprefix
  case filled => rw [filter_dropBlankEnd, filter_squeeze]
  case gaps =>
    rintro before a mid b after rfl ha hb hmid
    refine ⟨squeeze false before, dropBlankEnd (squeeze true after), filter_squeeze _ _, ?_, ?_⟩
    · rw [filter_dropBlankEnd, filter_squeeze]
    · rw [squeeze_append_cons ha, squeeze_append_cons hb, dropBlankEnd_append_cons ha,
        dropBlankEnd_append_cons hb, squeeze_blank hmid]

/-! ## The text of a group -/

theorem not_mem_of_mem_splitOn {d : Char} (h : l ∈ cs.splitOn d) : d ∉ l := by
  unfold List.splitOn at h
  induction cs generalizing l with
  | nil =>
    rw [List.splitOnP_nil, List.mem_singleton] at h
    rw [h]
    exact List.not_mem_nil
  | cons c cs ih =>
    rw [List.splitOnP_cons_eq_if_modifyHead] at h
    split at h
    · rcases List.mem_cons.1 h with rfl | h
      · exact List.not_mem_nil
      · exact ih h
    · next hc =>
      cases hsplit : cs.splitOnP (· == d) with
      | nil =>
        rw [hsplit] at h
        cases h
      | cons first ls =>
        rw [hsplit, List.modifyHead_cons] at h
        rw [hsplit] at ih
        rcases List.mem_cons.1 h with rfl | h
        · intro hd
          rcases List.mem_cons.1 hd with rfl | hd
          · exact hc (beq_self_eq_true d)
          · exact ih List.mem_cons_self hd
        · exact ih (List.mem_cons_of_mem _ h)

/-- A line of a body has no line feed in it and no blank at its end. -/
theorem trimmed_of_mem_bodyLines {b : Option (List Char)} (h : l ∈ bodyLines b) :
    '\n' ∉ l ∧ ∀ c ∈ l.getLast?, c ∉ [' ', '\t', '\n', '\r'] := by
  cases b with
  | none => cases h
  | some body =>
    obtain ⟨line, hline, rfl⟩ := List.mem_map.1 h
    refine ⟨fun hfeed => not_mem_of_mem_splitOn hline ?_, fun c hc => ?_⟩
    · exact (List.rdropWhile_prefix _ _).subset hfeed
    · obtain ⟨hne, rfl⟩ := List.mem_getLast?_eq_getLast hc
      simpa using List.rdropWhile_last_not _ line hne

/-- What is closed by line feeds, and has lines that are not blank at the ends, is empty
    or ends with just one. -/
theorem ends_of_tidy {out : List (List Char)} (htidy : Tidy ls out) (hfeed : ∀ l ∈ out, '\n' ∉ l) :
    out.flatMap (· ++ ['\n']) = [] ∨
      ∃ front c, c ≠ '\n' ∧ out.flatMap (· ++ ['\n']) = front ++ [c, '\n'] := by
  rcases out.eq_nil_or_concat with rfl | ⟨front, l, rfl⟩
  · exact .inl rfl
  · have hl : l ≠ [] := by
      rintro rfl
      exact htidy.getLast (by simp)
    refine .inr ⟨front.flatMap (· ++ ['\n']) ++ l.dropLast, l.getLast hl, ?_, ?_⟩
    · intro h
      exact hfeed l (by simp) (h ▸ List.getLast_mem hl)
    · conv_lhs => rw [← List.dropLast_concat_getLast hl]
      simp

theorem flatMap_lines {cs : List Comment} {bodies : List (Option (List Char))}
    (h : List.Forall₂ (Shows text) cs bodies) :
    cs.flatMap (lines text) = bodies.flatMap bodyLines := by
  induction h with
  | nil => rfl
  | cons hc _ ih => rw [List.flatMap_cons, List.flatMap_cons, lines_of_shows hc, ih]

/-- Every comment of a text without lexical faults shows something. -/
theorem exists_bodies (hlimit : byteLength text ≤ Span.limit)
    (h : (Lexer.ofText text).run.2.diagnostics = []) {cs : List Comment}
    (hcs : cs ⊆ (Lexer.ofText text).run.2.comments) :
    ∃ bodies, List.Forall₂ (Shows text) cs bodies := by
  induction cs with
  | nil => exact ⟨[], .nil⟩
  | cons c cs ih =>
    obtain ⟨hc, hcs⟩ := List.cons_subset.1 hcs
    obtain ⟨bodies, hbodies⟩ := ih hcs
    obtain ⟨s, hs, k, hk, rfl⟩ := mem_comments_of_run.1 hc
    have hstretch := stretch_segment hs
    have hstop := Nat.le_trans hstretch.stop_le hlimit
    obtain ⟨b, hb⟩ := exists_shows hs hk (fault?_eq_none_of_run h hs)
    rw [← Span.ofOffsets_of_le (Nat.le_trans (Nat.le_of_lt hstretch.start_lt) hstop) hstop] at hb
    exact ⟨b :: bodies, .cons hb hbodies⟩

/-- **The text of a comment group** is that of the bodies that its comments show, with
    their lines trimmed and tidied and each closed by a line feed. -/
theorem ofComments_of_ofText (hlimit : byteLength text ≤ Span.limit) {file : Tree.SourceFile}
    (h : Tree.SourceFile.ofText text = .ok file) {g : CommentGroup} (hg : g ∈ file.comments) :
    ∃ bodies out, List.Forall₂ (Shows text) g.comments bodies ∧
      Tidy (bodies.flatMap bodyLines) out ∧
      ofComments text g.comments = out.flatMap (· ++ ['\n']) ∧
      (∀ l ∈ out, '\n' ∉ l ∧ ∀ c ∈ l.getLast?, c ∉ [' ', '\t', '\n', '\r']) ∧
      (ofComments text g.comments = [] ∨
        ∃ front c, c ≠ '\n' ∧ ofComments text g.comments = front ++ [c, '\n']) := by
  obtain ⟨hfaults, hread⟩ := Tree.SourceFile.ofText_eq_ok_iff.1 h
  have hgroups := congrArg (fun r => r.1.comments) hread
  simp only [Tree.SourceFile.read_comments, Layout.groups_of] at hgroups
  have hmem : g.comments ⊆ (Lexer.ofText text).run.2.comments := by
    intro c hc
    rw [← hgroups] at hg
    rw [← Layout.flatMap_group _ (Lexer.ofText text).run.2.comments]
    exact List.mem_flatMap.2 ⟨g, hg, hc⟩
  obtain ⟨bodies, hbodies⟩ := exists_bodies hlimit hfaults hmem
  have htidy := tidy_squeeze (bodies.flatMap bodyLines)
  have htrimmed : ∀ l ∈ dropBlankEnd (squeeze false (bodies.flatMap bodyLines)),
      '\n' ∉ l ∧ ∀ c ∈ l.getLast?, c ∉ [' ', '\t', '\n', '\r'] := by
    intro l hl
    obtain ⟨blank, hsplit, -, -⟩ := exists_dropBlankEnd (squeeze false (bodies.flatMap bodyLines))
    have hsqueeze : l ∈ squeeze false (bodies.flatMap bodyLines) := by
      rw [hsplit]
      exact List.mem_append_left _ hl
    obtain ⟨b, -, hb⟩ := List.mem_flatMap.1 (squeeze_subset false _ hsqueeze)
    exact trimmed_of_mem_bodyLines hb
  have htext : ofComments text g.comments =
      (dropBlankEnd (squeeze false (bodies.flatMap bodyLines))).flatMap (· ++ ['\n']) := by
    rw [ofComments, flatMap_lines hbodies]
  refine ⟨bodies, _, hbodies, htidy, htext, htrimmed, ?_⟩
  rw [htext]
  exact ends_of_tidy htidy fun l hl => (htrimmed l hl).1

/-- Blank lines at both ends and at the border of two comments, with a directive between
    them. -/
theorem ofComments_of_ofText_directive :
    let text := "package p\n\n//\n//  a \n//go:build x\n/*\n\n b\t\n*/\n".toList
    byteLength text ≤ Span.limit ∧ ∃ file g, Tree.SourceFile.ofText text = .ok file ∧
      g ∈ file.comments ∧ ofComments text g.comments = " a\n\n b\n".toList ∧
      ∃ bodies out, List.Forall₂ (Shows text) g.comments bodies ∧
        Tidy (bodies.flatMap bodyLines) out ∧
        ofComments text g.comments = out.flatMap (· ++ ['\n']) := by
  intro text
  have hlimit : byteLength text ≤ Span.limit := by decide +kernel
  have hshown : ((Tree.SourceFile.ofText text).toOption.map fun file =>
      file.comments.map fun g => ofComments text g.comments) = some [" a\n\n b\n".toList] := by
    decide +kernel
  cases hfile : Tree.SourceFile.ofText text with
  | error e =>
    rw [hfile] at hshown
    cases hshown
  | ok file =>
    rw [hfile] at hshown
    obtain ⟨g, hg, hshown⟩ := List.mem_map.1 (Option.some.inj hshown ▸ List.mem_singleton_self _)
    obtain ⟨bodies, out, hbodies, htidy, hout, -, -⟩ := ofComments_of_ofText hlimit hfile hg
    exact ⟨hlimit, file, g, rfl, hg, hshown, bodies, out, hbodies, htidy, hout⟩

end GoDecls.CommentText
