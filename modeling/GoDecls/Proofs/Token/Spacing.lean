/-
  Where a token ends does not hang on what stands behind it, once a blank, a
  parenthesis or a semicolon stands there.

  * `Agrees cs ds`: the texts agree up to a place where `ds` has a blank, a line end, a
    parenthesis, a semicolon or its end, or in two characters at least.  `Spaced cs ds`:
    a blank, a line end or the end stands there;
  * `scan_agrees`, `scan_spaced`: a token before `cs` is the same token before `ds`.  One
    lemma a kind of token says why its scanner finds the same end
    (`numberExtent_agrees`, `longest?_agrees`, …).
-/
import GoDecls.Proofs.Token.Beginnings
import GoDecls.Proofs.Token.Quoted
import GoDecls.Proofs.Token.Segments

namespace GoDecls.Scan

variable {c : Char} {cs ds t r r' : List Char} {piece : Piece} {n : Nat}

/-! ## Texts that agree up to a blank -/

/-- A blank stands in front, or nothing. -/
def BlankHead (cs : List Char) : Prop := ∀ c ∈ cs.head?, c ∈ blanks

/-- The characters that no token takes behind its first one. -/
def breaks : List Char := '(' :: ')' :: ';' :: blanks

/-- One of them stands in front, or nothing. -/
def BreakHead (cs : List Char) : Prop := ∀ c ∈ cs.head?, c ∈ breaks

/-- The texts agree up to a place where the second has a blank or its end, and the
    first has no point. -/
def Spaced (cs ds : List Char) : Prop :=
  ∃ front back gap, cs = front ++ back ∧ ds = front ++ gap ∧ back.head? ≠ some '.' ∧ BlankHead gap

/-- The texts agree up to a place where the second has one of the breaks or its end, or
    in the two characters that a token looks at behind it. -/
def Agrees (cs ds : List Char) : Prop :=
  ∃ front back gap, cs = front ++ back ∧ ds = front ++ gap ∧
    (BreakHead gap ∨ 2 ≤ front.length)

/-- A point that goes on with a number in the second text does so in the first one. -/
def KeepsPoint (cs ds : List Char) : Prop :=
  ∀ es, ds = '.' :: es → es.head? ≠ some '.' → ∃ fs, cs = '.' :: fs ∧ fs.head? ≠ some '.'

theorem BlankHead.nil : BlankHead [] := nofun

theorem BlankHead.of_mem (h : c ∈ blanks) : BlankHead (c :: cs) := by
  rintro _ ⟨⟩
  exact h

theorem isWordPart_breaks : ∀ b ∈ breaks, isWordPart b = false := by decide

theorem isNumberPart_breaks : ∀ b ∈ breaks, isNumberPart b = false := by decide

theorem isDigit_breaks : ∀ b ∈ breaks, b.isDigit = false := by decide

theorem mem_breaks_of_mem_blanks (h : c ∈ blanks) : c ∈ breaks :=
  List.mem_cons_of_mem _ (List.mem_cons_of_mem _ (List.mem_cons_of_mem _ h))

theorem BlankHead.breakHead (h : BlankHead cs) : BreakHead cs := fun c hc =>
  mem_breaks_of_mem_blanks (h c hc)

theorem BreakHead.any_eq_false {P : Char → Bool} (hP : ∀ b ∈ breaks, P b = false)
    (h : BreakHead cs) : cs.head?.any P = false := by
  cases cs with
  | nil => rfl
  | cons c cs => exact hP c (h c rfl)

namespace Spaced

theorem refl (cs : List Char) : Spaced cs cs :=
  ⟨cs, [], [], by simp, by simp, nofun, .nil⟩

theorem append (front : List Char) (h : Spaced cs ds) : Spaced (front ++ cs) (front ++ ds) := by
  obtain ⟨front', back, gap, rfl, rfl, hb, hg⟩ := h
  exact ⟨front ++ front', back, gap, by simp, by simp, hb, hg⟩

theorem agrees (h : Spaced cs ds) : Agrees cs ds := by
  obtain ⟨front, back, gap, hcs, hds, -, hg⟩ := h
  exact ⟨front, back, gap, hcs, hds, .inl hg.breakHead⟩

theorem keepsPoint (h : Spaced cs ds) : KeepsPoint cs ds := by
  obtain ⟨front, back, gap, rfl, rfl, hb, hg⟩ := h
  intro es hds hes
  rcases front with _ | ⟨c, _ | ⟨d, front⟩⟩
  · rw [List.nil_append] at hds
    have := hg '.' (by rw [hds]; rfl)
    exact absurd this (by decide)
  · cases hds
    exact ⟨back, rfl, hb⟩
  · cases hds
    exact ⟨_, rfl, hes⟩

end Spaced

namespace Agrees

theorem append (front : List Char) (h : Agrees cs ds) : Agrees (front ++ cs) (front ++ ds) := by
  obtain ⟨front', back, gap, rfl, rfl, hg⟩ := h
  refine ⟨front ++ front', back, gap, by simp, by simp, hg.imp_right fun hlength => ?_⟩
  rw [List.length_append]
  exact Nat.le_add_left_of_le hlength

/-- The second text has the first character of the first one, or a break there. -/
theorem head? (h : Agrees cs ds) : ds.head? = cs.head? ∨ BreakHead ds := by
  obtain ⟨front, back, gap, rfl, rfl, hg⟩ := h
  cases front with
  | nil => exact .inr (hg.resolve_right (Nat.not_succ_le_zero 1))
  | cons c front => exact .inl rfl

/-- What does not stand in front of the first text does not in front of the second, if
    it is no break. -/
theorem any_head? {P : Char → Bool} (hP : ∀ b ∈ breaks, P b = false) (h : Agrees cs ds)
    (hcs : cs.head?.any P = false) : ds.head?.any P = false := by
  rcases h.head? with heq | hbreak
  · rw [heq]
    exact hcs
  · exact hbreak.any_eq_false hP

theorem head?_ne (hc : c ∉ breaks) (h : Agrees cs ds) (hcs : cs.head? ≠ some c) :
    ds.head? ≠ some c := by
  rcases h.head? with heq | hbreak
  · rw [heq]
    exact hcs
  · exact fun hd => hc (hbreak c hd)

end Agrees

/-! ## The same end -/

theorem takeWhile_eq_nil {P : Char → Bool} : cs.takeWhile P = [] ↔ cs.head?.any P = false := by
  cases cs with
  | nil => simp
  | cons c cs => cases h : P c <;> simp [h]

theorem takeWhile_agrees {P : Char → Bool} (h : ((t ++ r).takeWhile P).length = t.length)
    (hr : r.head?.any P = false → r'.head?.any P = false) :
    ((t ++ r').takeWhile P).length = t.length := by
  have ht : (t ++ r).takeWhile P = t := by
    have := List.prefix_iff_eq_take.1 (List.takeWhile_prefix P (l := t ++ r))
    rwa [h, List.take_left] at this
  have hall : ∀ c ∈ t, P c = true := by
    intro c hc
    rw [← ht] at hc
    exact List.mem_takeWhile_imp hc
  have hr₀ : r.takeWhile P = [] := by
    rw [List.takeWhile_append_of_pos hall] at ht
    simpa using ht
  have hr₁ := hr (takeWhile_eq_nil.1 hr₀)
  rw [List.takeWhile_append_of_pos hall, takeWhile_eq_nil.2 hr₁, List.append_nil]

/-- The number before `c` goes on with it. -/
def Continues (hex : Bool) (prev c : Char) (cs : List Char) : Prop :=
  isNumberPart c = true ∨ (c = '.' ∧ cs.head? ≠ some '.') ∨
    ((c = '+' ∨ c = '-') ∧ isExponentMark hex prev = true)

theorem numberExtent_cons_of_continues {hex : Bool} {prev : Char} (h : Continues hex prev c cs) :
    numberExtent hex prev (c :: cs) = numberExtent hex c cs + 1 := by
  rw [numberExtent, if_pos]
  simpa [Continues, or_assoc] using h

theorem numberExtent_cons_of_not {hex : Bool} {prev : Char} (h : ¬ Continues hex prev c cs) :
    numberExtent hex prev (c :: cs) = 0 := by
  rw [numberExtent, if_neg]
  simpa [Continues, or_assoc] using h

theorem not_continues_of_mem_breaks {hex : Bool} {prev : Char} (hc : c ∈ breaks) :
    ¬ Continues hex prev c cs := by
  have hpart := isNumberPart_breaks c hc
  rintro (h | ⟨rfl, -⟩ | ⟨rfl | rfl, -⟩)
  · rw [hpart] at h
    cases h
  all_goals exact absurd hc (by decide)

/-- What stands behind a number does not go on with it. -/
theorem numberExtent_agrees_zero {hex : Bool} {prev : Char} (h : numberExtent hex prev r = 0)
    (hr : Agrees r r') (hdot : KeepsPoint r r') : numberExtent hex prev r' = 0 := by
  have hno {d : Char} {ds : List Char} (hd : r = d :: ds) : ¬ Continues hex prev d ds := by
    intro hc
    rw [hd, numberExtent_cons_of_continues hc] at h
    cases h
  cases r' with
  | nil => rfl
  | cons c cs =>
    refine numberExtent_cons_of_not fun hc => ?_
    rcases hr.head? with hhead | hbreak
    · obtain ⟨ds, hds⟩ := List.head?_eq_some_iff.1 hhead.symm
      -- the point is the one character whose follower counts
      rcases hc with hc | ⟨rfl, hc⟩ | hc
      · exact hno hds (.inl hc)
      · obtain ⟨fs, hfs, hne⟩ := hdot cs rfl hc
        exact hno hfs (.inr (.inl ⟨rfl, hne⟩))
      · exact hno hds (.inr (.inr hc))
    · exact not_continues_of_mem_breaks (hbreak c rfl) hc

theorem numberExtent_agrees {hex : Bool} : ∀ {t : List Char} {prev : Char},
    numberExtent hex prev (t ++ r) = t.length → Agrees r r' → KeepsPoint r r' →
    numberExtent hex prev (t ++ r') = t.length
  | [], _, h, hr, hdot => numberExtent_agrees_zero h hr hdot
  | c :: t, prev, h, hr, hdot => by
    have hc : Continues hex prev c (t ++ r) := by
      by_contra hc
      rw [List.cons_append, numberExtent_cons_of_not hc] at h
      cases h
    rw [List.cons_append, numberExtent_cons_of_continues hc] at h
    have hc' : Continues hex prev c (t ++ r') := by
      refine hc.imp_right (Or.imp_left (And.imp_right fun hpoint => ?_))
      exact (hr.append t).head?_ne (by decide) hpoint
    rw [List.cons_append, numberExtent_cons_of_continues hc',
      numberExtent_agrees (Nat.succ.inj h) hr hdot, List.length_cons]

/-- What a number looks for behind its first character, it takes. -/
theorem any_head?_agrees {hex : Bool} {P : Char → Bool} (hP : ∀ b ∈ breaks, P b = false)
    (hpart : ∀ x, P x = true → isNumberPart x = true)
    (h : numberExtent hex c (t ++ r) = t.length) (hr : Agrees r r') :
    (t ++ r').head?.any P = (t ++ r).head?.any P := by
  cases t with
  | cons d t => rfl
  | nil =>
    have hr₀ : r.head?.any P = false := by
      cases r with
      | nil => rfl
      | cons x rest =>
        by_contra hx
        have hc : Continues hex c x rest := .inl (hpart x (by simpa using hx))
        rw [List.nil_append, numberExtent_cons_of_continues hc] at h
        cases h
    rw [List.nil_append, List.nil_append, hr₀, hr.any_head? hP hr₀]

theorem isHex_cons (c : Char) (cs : List Char) :
    isHex (c :: cs) = (c == '0' && cs.head?.any fun x => x == 'x' || x == 'X') := by
  by_cases hc : c = '0'
  · subst hc
    cases cs <;> rfl
  · have : isHex (c :: cs) = false := by
      unfold isHex
      split
      · next heq => exact absurd (List.cons.inj heq).1 hc
      · rfl
    simp [this, hc]

theorem isHex_agrees {hex : Bool} (h : numberExtent hex c (t ++ r) = t.length) (hr : Agrees r r') :
    isHex (c :: (t ++ r')) = isHex (c :: (t ++ r)) := by
  rw [isHex_cons, isHex_cons, any_head?_agrees (by decide) (fun x hx => ?_) h hr]
  simp only [Bool.or_eq_true, beq_iff_eq] at hx
  rcases hx with rfl | rfl <;> rfl

theorem isNumberPart_of_isDigit (hc : c.isDigit = true) : isNumberPart c = true := by
  simp [isNumberPart, Char.isAlphanum, hc]

theorem startsNumber_agrees {hex : Bool} (h : numberExtent hex c (t ++ r) = t.length)
    (hr : Agrees r r') : startsNumber c (t ++ r') = startsNumber c (t ++ r) := by
  rw [startsNumber, startsNumber,
    any_head?_agrees isDigit_breaks (fun _ => isNumberPart_of_isDigit) h hr]

theorem not_startsNumber_agrees (h : startsNumber c cs = false) (hr : Agrees cs ds) :
    startsNumber c ds = false := by
  simp only [startsNumber, Bool.or_eq_false_iff, Bool.and_eq_false_iff] at h ⊢
  exact h.imp_right (Or.imp_right (hr.any_head? isDigit_breaks))

theorem not_mem_blanks_of_mem_text (p : Punct) : ∀ b ∈ p.text.toList, b ∉ blanks := by
  cases p <;> decide

theorem not_mem_breaks_of_mem_tail (p : Punct) : ∀ b ∈ p.text.toList.tail, b ∉ breaks := by
  cases p <;> decide

/-- No spelling reaches over a break, behind its first character. -/
theorem prefix_of_breakHead {u gap : List Char} (hu : ∀ b ∈ u.tail, b ∉ breaks)
    (hg : BreakHead gap) (hcs : cs ≠ []) (h : u <+: cs ++ gap) : u <+: cs := by
  rcases List.prefix_or_prefix_of_prefix h (List.prefix_append cs gap) with h' | ⟨v, rfl⟩
  · exact h'
  · rw [List.prefix_append_right_inj] at h
    cases v with
    | nil => simp
    | cons b v =>
      obtain ⟨w, rfl⟩ := h
      refine absurd (hg b rfl) (hu b ?_)
      rw [List.tail_append_of_ne_nil hcs]
      simp

/-- Spellings have three characters at the most. -/
theorem length_text_le (p : Punct) : p.text.toList.length ≤ 3 := by
  cases p <;> decide

/-- An operator before the first text is the longest before the second. -/
theorem longest?_agrees {p : Punct} (h : Punct.longest? (p.text.toList ++ r) = some p)
    (hr : Agrees r r') : Punct.longest? (p.text.toList ++ r') = some p := by
  obtain ⟨-, before, after, hsplit, hbefore⟩ := List.find?_eq_some_iff_append.1 h
  refine List.find?_eq_some_iff_append.2 ⟨by simp, before, after, hsplit, fun q hq => ?_⟩
  obtain ⟨front, back, gap, rfl, rfl, hg⟩ := hr
  obtain ⟨d, ds, hd, -⟩ := punct_head p
  have hne : p.text.toList ++ front ≠ [] := by simp [hd]
  have hno := hbefore q hq
  simp only [Bool.not_eq_true', Bool.eq_false_iff, ne_eq, List.isPrefixOf_iff_prefix] at hno ⊢
  refine fun hpre => hno ?_
  rw [← List.append_assoc] at hpre ⊢
  refine List.IsPrefix.trans ?_ (List.prefix_append _ back)
  rcases hg with hg | hlength
  · exact prefix_of_breakHead (not_mem_breaks_of_mem_tail q) hg hne hpre
  · refine List.prefix_of_prefix_length_le hpre (List.prefix_append _ _) ?_
    have hq := length_text_le q
    rw [List.length_append, hd, List.length_cons]
    omega

/-- What is found as an operator or delimiter is its spelling. -/
theorem text_of_scanPunct {p : Punct} (h : scanPunct (c :: (t ++ r)) = some (.punct p, t.length)) :
    Punct.longest? (c :: (t ++ r)) = some p ∧ p.text.toList = c :: t := by
  obtain ⟨q, hq, hk⟩ := Option.map_eq_some_iff.1 h
  obtain ⟨hqp, hlen⟩ := Prod.mk.inj hk
  obtain rfl := Piece.punct.inj hqp
  obtain ⟨d, ds, hd, -⟩ := punct_head q
  have hsize : q.text.length = ds.length + 1 := by
    rw [← String.length_toList, hd, List.length_cons]
  have hpre := List.prefix_iff_eq_take.1 (longest?_eq_some hq)
  rw [String.length_toList, show q.text.length = t.length + 1 by omega] at hpre
  exact ⟨hq, by simpa using hpre⟩

theorem scanPunct_agrees {k : Piece} (h : scanPunct (c :: (t ++ r)) = some (k, t.length))
    (hr : Agrees r r') : scanPunct (c :: (t ++ r')) = some (k, t.length) := by
  obtain ⟨p, rfl⟩ := scanPunct_kind h
  obtain ⟨hp, htext⟩ := text_of_scanPunct h
  have hlength : p.text.length - 1 = t.length := by
    rw [← String.length_toList, htext, List.length_cons, Nat.add_sub_cancel]
  rw [← List.cons_append, ← htext] at hp ⊢
  rw [scanPunct, longest?_agrees hp hr, Option.map_some, hlength]

theorem scanComment_eq_none : scanComment cs = none ↔ cs.head? ≠ some '/' ∧ cs.head? ≠ some '*' := by
  cases cs with
  | nil => simp [scanComment]
  | cons c cs =>
    unfold scanComment
    split
    · next h => cases h; simp
    · next h =>
      cases h
      split <;> simp
    · next h₁ h₂ =>
      simp only [List.head?_cons, ne_eq, Option.some.injEq, true_iff]
      exact ⟨fun hc => h₁ cs (by rw [hc]), fun hc => h₂ cs (by rw [hc])⟩

theorem scanComment_agrees (h : scanComment cs = none) (hr : Agrees cs ds) :
    scanComment ds = none := by
  rw [scanComment_eq_none] at h ⊢
  exact ⟨hr.head?_ne (by decide) h.1, hr.head?_ne (by decide) h.2⟩

/-- **A token is the same whatever follows it**, if a break stands where the texts
    begin to differ and no number goes on. -/
theorem scan_agrees {k : Piece} (hscan : scan c (t ++ r) = (k, t.length))
    (hk : (k.token? (c :: t)).isSome = true) (hr : Agrees r r')
    (hdot : k = .number → KeepsPoint r r') : scan c (t ++ r') = (k, t.length) := by
  have hpiece := scan_isPiece c (t ++ r)
  simp only [hscan] at hpiece
  generalize hn : t.length = n at hpiece
  cases hpiece with
  | word hc =>
    rw [scan_word hc, takeWhile_agrees hn.symm (hr.any_head? isWordPart_breaks), hn]
  | number hc =>
    rw [scan_number (by rw [startsNumber_agrees hn.symm hr, hc]), isHex_agrees hn.symm hr,
      numberExtent_agrees hn.symm hr (hdot rfl), hn]
  | quoted h =>
    subst hn
    exact scan_quoted (scanQuoted_append_iff.2 (scanQuoted_append_iff.1 h))
  | punct h =>
    subst hn
    obtain ⟨p, rfl⟩ := scanPunct_kind h
    -- no number and no comment begins here, or it would have been found
    have hnumber : startsNumber c (t ++ r) = false := by
      by_contra hstart
      have := scan_number (by simpa using hstart)
      rw [hscan] at this
      cases this
    have hcomment : c = '/' → scanComment (t ++ r) = none := by
      rintro rfl
      by_contra hsome
      obtain ⟨⟨k, n⟩, hk'⟩ := Option.ne_none_iff_exists'.1 hsome
      have := scan_comment hk'
      rw [hscan] at this
      cases this
      rcases scanComment_kind hk' with ⟨h, -⟩ | ⟨_, h⟩ <;> cases h
    exact scan_punct (not_startsNumber_agrees hnumber (hr.append t))
      (fun hc => scanComment_agrees (hcomment hc) (hr.append t)) (scanPunct_agrees h hr)
  | comment hc h =>
    rcases scanComment_kind h with ⟨rfl, -⟩ | ⟨_, rfl⟩ <;> cases hk
  | _ => cases hk

theorem scan_spaced {k : Piece} (hscan : scan c (t ++ r) = (k, t.length))
    (hk : (k.token? (c :: t)).isSome = true) (hr : Spaced r r') :
    scan c (t ++ r') = (k, t.length) := scan_agrees hscan hk hr.agrees fun _ => hr.keepsPoint

end GoDecls.Scan
