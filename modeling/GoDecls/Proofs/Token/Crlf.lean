/-
  Lines that end with a carriage return and a line feed are scanned as lines that end
  with a line feed alone.

  * `crlf cs` is the text with a carriage return before every line feed, and
    `withoutReturns` takes them away again;
  * `crlfExtent cs n` is what becomes of the first `n` characters;
  * `scan_crlf`: the piece at a character that is no line feed is of the same kind
    in both texts, and its extent is what becomes of it.  One lemma for each scanner
    says so (`numberExtent_crlf`, `quotedExtent_crlf`, …).
-/
import GoDecls.Proofs.Token.Spacing

namespace GoDecls

/-- The text with a carriage return before every line feed. -/
def crlf (cs : List Char) : List Char :=
  cs.flatMap fun c => if c = '\n' then ['\r', '\n'] else [c]

/-- The text without its carriage returns. -/
def withoutReturns (cs : List Char) : List Char := cs.filter (· ≠ '\r')

section

variable {c : Char} {cs ds : List Char} {n : Nat}

@[simp] theorem crlf_nil : crlf [] = [] := rfl

@[simp] theorem crlf_feed : crlf ('\n' :: cs) = '\r' :: '\n' :: crlf cs := rfl

theorem crlf_cons (hc : c ≠ '\n') : crlf (c :: cs) = c :: crlf cs := by
  rw [crlf, List.flatMap_cons, if_neg hc]
  rfl

@[simp] theorem crlf_append (cs ds : List Char) : crlf (cs ++ ds) = crlf cs ++ crlf ds :=
  List.flatMap_append

/-- A text within a line does not change. -/
theorem crlf_of_not_mem (h : '\n' ∉ cs) : crlf cs = cs := by
  induction cs with
  | nil => rfl
  | cons c cs ih =>
    obtain ⟨hc, hcs⟩ := List.ne_and_not_mem_of_not_mem_cons h
    rw [crlf_cons hc.symm, ih hcs]

/-- What was put in can be taken away. -/
theorem withoutReturns_crlf (h : '\r' ∉ cs) : withoutReturns (crlf cs) = cs := by
  induction cs with
  | nil => rfl
  | cons c cs ih =>
    obtain ⟨hc, hcs⟩ := List.ne_and_not_mem_of_not_mem_cons h
    by_cases hfeed : c = '\n'
    · subst hfeed
      exact congrArg ('\n' :: ·) (ih hcs)
    · rw [crlf_cons hfeed, withoutReturns, List.filter_cons_of_pos (by simpa using hc.symm)]
      exact congrArg (c :: ·) (ih hcs)

theorem any_crlf {P : Char → Bool} (hP : P '\r' = P '\n') : (crlf cs).any P = cs.any P := by
  induction cs with
  | nil => rfl
  | cons c cs ih =>
    by_cases hfeed : c = '\n'
    · subst hfeed
      rw [crlf_feed, List.any_cons, List.any_cons, List.any_cons, hP, ih, ← Bool.or_assoc,
        Bool.or_self]
    · rw [crlf_cons hfeed, List.any_cons, List.any_cons, ih]

/-- The number of characters that the first `n` become. -/
def crlfExtent (cs : List Char) (n : Nat) : Nat := (crlf (cs.take n)).length

@[simp] theorem crlfExtent_zero : crlfExtent cs 0 = 0 := rfl

theorem crlfExtent_cons (hc : c ≠ '\n') : crlfExtent (c :: cs) (n + 1) = crlfExtent cs n + 1 := by
  rw [crlfExtent, List.take_succ_cons, crlf_cons hc, List.length_cons, crlfExtent]

@[simp] theorem crlfExtent_feed : crlfExtent ('\n' :: cs) (n + 1) = crlfExtent cs n + 2 := rfl

/-- An extent found behind a character, in front of it. -/
theorem map_crlfExtent_cons (hc : c ≠ '\n') (x : Option Nat) :
    (x.map (· + 1)).map (crlfExtent (c :: cs)) = (x.map (crlfExtent cs)).map (· + 1) := by
  cases x with
  | none => rfl
  | some n => exact congrArg some (crlfExtent_cons hc)

theorem map_crlfExtent_feed (x : Option Nat) :
    (x.map (· + 1)).map (crlfExtent ('\n' :: cs)) = (x.map (crlfExtent cs)).map (· + 2) := by
  cases x <;> rfl

theorem crlf_take_append_drop (cs : List Char) (n : Nat) :
    crlf (cs.take n) ++ crlf (cs.drop n) = crlf cs := by
  rw [← crlf_append, List.take_append_drop]

/-- Nothing gets shorter. -/
theorem le_length_crlf (cs : List Char) : cs.length ≤ (crlf cs).length := by
  induction cs with
  | nil => exact Nat.le_refl 0
  | cons c cs ih =>
    by_cases hc : c = '\n'
    · subst hc
      exact Nat.le_succ_of_le (Nat.succ_le_succ ih)
    · rw [crlf_cons hc]
      exact Nat.succ_le_succ ih

theorem le_crlfExtent (hn : n ≤ cs.length) : n ≤ crlfExtent cs n := by
  have hle := le_length_crlf (cs.take n)
  rwa [List.length_take, Nat.min_eq_left hn] at hle

theorem crlfExtent_append (cs ds : List Char) :
    crlfExtent (cs ++ ds) cs.length = (crlf cs).length := by
  rw [crlfExtent, List.take_left]

theorem crlfExtent_length (cs : List Char) : crlfExtent cs cs.length = (crlf cs).length := by
  rw [crlfExtent, List.take_length]

theorem take_crlf (cs : List Char) (n : Nat) :
    (crlf cs).take (crlfExtent cs n) = crlf (cs.take n) := by
  rw [← crlf_take_append_drop cs n, crlfExtent, List.take_left]

theorem drop_crlf (cs : List Char) (n : Nat) :
    (crlf cs).drop (crlfExtent cs n) = crlf (cs.drop n) := by
  rw [← crlf_take_append_drop cs n, crlfExtent, List.drop_left]

end

namespace Scan

variable {c : Char} {cs : List Char} {n : Nat}

/-! ## The scanners -/

/-- A test that line ends do not pass has the same answer in front of both texts. -/
theorem any_head?_crlf {P : Char → Bool} (hP : ∀ b ∈ blanks, P b = false) :
    (crlf cs).head?.any P = cs.head?.any P := by
  cases cs with
  | nil => rfl
  | cons c cs =>
    by_cases hfeed : c = '\n'
    · subst hfeed
      exact (hP '\r' (by decide)).trans (hP '\n' (by decide)).symm
    · rw [crlf_cons hfeed]
      rfl

theorem head?_crlf_eq_iff (hc : c ∉ blanks) : (crlf cs).head? = some c ↔ cs.head? = some c := by
  have hP : ∀ b ∈ blanks, (b == c) = false := fun b hb =>
    beq_eq_false_iff_ne.2 fun h => hc (h ▸ hb)
  have hhead : (crlf cs).head?.any (· == c) = cs.head?.any (· == c) := any_head?_crlf hP
  rw [Bool.eq_iff_iff] at hhead
  simpa [Option.any_eq_true] using hhead

theorem takeWhile_crlf {P : Char → Bool} (hfeed : P '\n' = false) (hreturn : P '\r' = false) :
    ((crlf cs).takeWhile P).length = crlfExtent cs (cs.takeWhile P).length := by
  induction cs with
  | nil => rfl
  | cons c cs ih =>
    by_cases hc : c = '\n'
    · subst hc
      rw [crlf_feed, List.takeWhile_cons_of_neg (by simp [hreturn]),
        List.takeWhile_cons_of_neg (by simp [hfeed])]
      rfl
    · rw [crlf_cons hc]
      cases hP : P c with
      | true =>
        rw [List.takeWhile_cons_of_pos hP, List.takeWhile_cons_of_pos hP, List.length_cons,
          List.length_cons, crlfExtent_cons hc, ih]
      | false =>
        rw [List.takeWhile_cons_of_neg (by simp [hP]), List.takeWhile_cons_of_neg (by simp [hP])]
        rfl

/-- A number goes on in both texts or in neither. -/
theorem continues_crlf {hex : Bool} {prev : Char} :
    Continues hex prev c (crlf cs) ↔ Continues hex prev c cs := by
  unfold Continues
  rw [ne_eq, ne_eq, head?_crlf_eq_iff (by decide)]

theorem numberExtent_crlf (hex : Bool) (prev : Char) (cs : List Char) :
    numberExtent hex prev (crlf cs) = crlfExtent cs (numberExtent hex prev cs) := by
  induction cs generalizing prev with
  | nil => rfl
  | cons c cs ih =>
    by_cases hc : c = '\n'
    · subst hc
      rw [crlf_feed, numberExtent_cons_of_not (not_continues_of_mem_breaks (by decide)),
        numberExtent_cons_of_not (not_continues_of_mem_breaks (by decide)), crlfExtent_zero]
    · rw [crlf_cons hc]
      by_cases hcont : Continues hex prev c cs
      · rw [numberExtent_cons_of_continues hcont,
          numberExtent_cons_of_continues (continues_crlf.2 hcont), ih, crlfExtent_cons hc]
      · rw [numberExtent_cons_of_not hcont,
          numberExtent_cons_of_not fun h => hcont (continues_crlf.1 h), crlfExtent_zero]

/-- No line ends within a number. -/
theorem not_mem_numberExtent (hex : Bool) (prev : Char) (cs : List Char) :
    '\n' ∉ cs.take (numberExtent hex prev cs) := by
  induction cs generalizing prev with
  | nil => exact List.not_mem_nil
  | cons c cs ih =>
    by_cases hcont : Continues hex prev c cs
    · rw [numberExtent_cons_of_continues hcont, List.take_succ_cons]
      refine List.not_mem_cons_of_ne_of_not_mem ?_ (ih c)
      rintro rfl
      exact not_continues_of_mem_breaks (by decide) hcont
    · rw [numberExtent_cons_of_not hcont]
      exact List.not_mem_nil

/-- No line ends within a word or a number. -/
theorem IsPiece.not_mem_feed {piece : Piece} (h : IsPiece c cs piece n)
    (hpiece : piece = .word ∨ piece = .number) : '\n' ∉ c :: cs.take n := by
  cases h with
  | word hc =>
    obtain ⟨d, ds, heq, hd, hds⟩ : IsName (c :: cs.take (cs.takeWhile isWordPart).length) :=
      (IsPiece.word hc).isName
    rw [heq]
    refine List.not_mem_cons_of_ne_of_not_mem ?_ fun hmem => ?_
    · rintro rfl
      exact absurd hd (by decide)
    · exact absurd (hds _ hmem) (by decide)
  | number hc =>
    refine List.not_mem_cons_of_ne_of_not_mem ?_ (not_mem_numberExtent _ _ _)
    rintro rfl
    rcases startsNumber_cases hc with h | ⟨h, -⟩ <;> exact absurd h (by decide)
  | comment _ h => rcases scanComment_kind h with ⟨rfl, -⟩ | ⟨_, rfl⟩ <;> simp at hpiece
  | quoted h => rcases scanQuoted_kind h with rfl | rfl | rfl <;> simp at hpiece
  | punct h =>
    obtain ⟨_, rfl⟩ := scanPunct_kind h
    simp at hpiece
  | _ => simp at hpiece

/-- Neither a carriage return nor a line feed stands within quotes. -/
theorem quotedExtent_lineEnd {quote : Char} (hquote : isLineEnd quote = false)
    (hc : isLineEnd c = true) : quotedExtent quote (c :: cs) = none := by
  have hne : c ≠ quote := by
    rintro rfl
    rw [hquote] at hc
    cases hc
  have hslash : c ≠ '\\' := by
    rintro rfl
    cases hc
  rw [quotedExtent.eq_def]
  simp [hne, hslash, hc]

theorem quotedExtent_crlf {quote : Char} (hquote : isLineEnd quote = false) (hq : quote ≠ '\\')
    (cs : List Char) :
    quotedExtent quote (crlf cs) = (quotedExtent quote cs).map (crlfExtent cs) := by
  have hfeed : quote ≠ '\n' := by
    rintro rfl
    cases hquote
  fun_induction quotedExtent quote cs with
  | case1 => rfl
  | case2 cs =>
    rw [crlf_cons hfeed, quotedExtent_quote, Option.map_some, crlfExtent_cons hfeed,
      crlfExtent_zero]
  | case3 h =>
    rw [crlf_cons (by decide), crlf_nil, quotedExtent.eq_def]
    simp [h]
  | case4 ds h =>
    rw [crlf_cons (by decide), crlf_feed, quotedExtent_escaped hq (by decide),
      quotedExtent_lineEnd hquote rfl]
    rfl
  | case5 d ds hd _ ih =>
    rw [crlf_cons (by decide), crlf_cons hd, quotedExtent_escaped hq hd, ih]
    cases quotedExtent quote ds with
    | none => rfl
    | some n =>
      have hextent : crlfExtent ('\\' :: d :: ds) (n + 2) = crlfExtent ds n + 2 := by
        rw [crlfExtent_cons (by decide), crlfExtent_cons hd]
      exact congrArg some hextent.symm
  | case6 c cs _ _ hline =>
    by_cases hc : c = '\n'
    · subst hc
      rw [crlf_feed, quotedExtent_lineEnd hquote rfl]
      rfl
    · rw [crlf_cons hc, quotedExtent_lineEnd hquote hline]
      rfl
  | case7 c cs hne hslash hline ih =>
    have hc : c ≠ '\n' := by
      rintro rfl
      exact hline rfl
    rw [crlf_cons hc, quotedExtent_plain hne hslash (by simpa using hline), ih,
      map_crlfExtent_cons hc]

theorem rawExtent_cons_of_ne (hc : c ≠ backquote) :
    rawExtent (c :: cs) = (rawExtent cs).map (· + 1) := by
  rw [rawExtent, List.findIdx?_cons, beq_eq_false_iff_ne.2 hc]
  simp [rawExtent, Function.comp_def]

theorem rawExtent_crlf (cs : List Char) :
    rawExtent (crlf cs) = (rawExtent cs).map (crlfExtent cs) := by
  induction cs with
  | nil => rfl
  | cons c cs ih =>
    by_cases hc : c = '\n'
    · subst hc
      rw [crlf_feed, rawExtent_cons_of_ne (by decide), rawExtent_cons_of_ne (by decide),
        rawExtent_cons_of_ne (by decide), ih, map_crlfExtent_feed, Option.map_map]
      rfl
    · rw [crlf_cons hc]
      by_cases hquote : c = backquote
      · subst hquote
        rfl
      · rw [rawExtent_cons_of_ne hquote, rawExtent_cons_of_ne hquote, ih, map_crlfExtent_cons hc]

theorem closeExtent_cons_of_not (h : ¬ (c = '*' ∧ cs.head? = some '/')) :
    closeExtent (c :: cs) = (closeExtent cs).map (· + 1) := by
  rw [closeExtent, if_neg h]

theorem closeExtent_crlf (cs : List Char) :
    closeExtent (crlf cs) = (closeExtent cs).map (crlfExtent cs) := by
  induction cs with
  | nil => rfl
  | cons c cs ih =>
    by_cases hc : c = '\n'
    · subst hc
      have hno {d : Char} {ds : List Char} (hd : d ≠ '*') :
          closeExtent (d :: ds) = (closeExtent ds).map (· + 1) :=
        closeExtent_cons_of_not fun h => hd h.1
      rw [crlf_feed, hno (by decide), hno (by decide), hno (by decide), ih, map_crlfExtent_feed,
        Option.map_map]
      rfl
    · rw [crlf_cons hc]
      by_cases hclose : c = '*' ∧ cs.head? = some '/'
      · obtain ⟨rfl, hhead⟩ := hclose
        obtain ⟨ds, rfl⟩ := List.head?_eq_some_iff.1 hhead
        rfl
      · have hclose' : ¬ (c = '*' ∧ (crlf cs).head? = some '/') := by
          rwa [head?_crlf_eq_iff (by decide)]
        rw [closeExtent_cons_of_not hclose, closeExtent_cons_of_not hclose', ih,
          map_crlfExtent_cons hc]

/-- A spelling without line ends stands in front of both texts or of neither. -/
theorem prefix_crlf_iff {u : List Char} (hu : ∀ b ∈ u, b ∉ blanks) : u <+: crlf cs ↔ u <+: cs := by
  induction cs generalizing u with
  | nil => rfl
  | cons c cs ih =>
    cases u with
    | nil => simp
    | cons b u =>
      obtain ⟨hb, hu⟩ := List.forall_mem_cons.1 hu
      by_cases hc : c = '\n'
      · subst hc
        rw [crlf_feed, List.cons_prefix_cons, List.cons_prefix_cons]
        constructor
        · rintro ⟨rfl, -⟩
          exact absurd (by decide) hb
        · rintro ⟨rfl, -⟩
          exact absurd (by decide) hb
      · rw [crlf_cons hc, List.cons_prefix_cons, List.cons_prefix_cons, ih hu]

theorem longest?_crlf (cs : List Char) : Punct.longest? (crlf cs) = Punct.longest? cs := by
  have hprefix : (fun p : Punct => p.text.toList.isPrefixOf (crlf cs)) =
      fun p => p.text.toList.isPrefixOf cs := by
    funext p
    rw [Bool.eq_iff_iff, List.isPrefixOf_iff_prefix, List.isPrefixOf_iff_prefix,
      prefix_crlf_iff (not_mem_blanks_of_mem_text p)]
  rw [Punct.longest?, Punct.longest?, hprefix]

/-- What a scanner found in front of the text, in front of the other one. -/
def crlfFound (cs : List Char) (x : Piece × Nat) : Piece × Nat := (x.1, crlfExtent cs x.2)

@[simp] theorem crlfFound_mk (k : Piece) : crlfFound cs (k, n) = (k, crlfExtent cs n) := rfl

theorem scanComment_crlf (cs : List Char) :
    scanComment (crlf cs) = (scanComment cs).map (crlfFound cs) := by
  cases cs with
  | nil => rfl
  | cons c cs =>
    by_cases hc : c = '\n'
    · subst hc
      rfl
    rw [crlf_cons hc]
    by_cases hline : c = '/'
    · subst hline
      have hextent : ((crlf cs).takeWhile (!isLineEnd ·)).length =
          crlfExtent cs (cs.takeWhile (!isLineEnd ·)).length := takeWhile_crlf rfl rfl
      rw [scanComment, scanComment, hextent, Option.map_some, crlfFound, crlfExtent_cons hc]
    by_cases hblock : c = '*'
    · subst hblock
      rw [scanComment, scanComment, closeExtent_crlf]
      cases closeExtent cs with
      | some n => simp [crlfExtent_cons hc]
      | none => simp [crlfExtent_cons hc, crlfExtent_length]
    · have hnone (ds : List Char) : scanComment (c :: ds) = none :=
        scanComment_eq_none.2 ⟨by simpa using hline, by simpa using hblock⟩
      rw [hnone, hnone, Option.map_none]

theorem scanQuoted_crlf (c : Char) (cs : List Char) :
    scanQuoted c (crlf cs) = (scanQuoted c cs).map (crlfFound cs) := by
  unfold scanQuoted
  rw [quotedExtent_crlf rfl (by decide), quotedExtent_crlf rfl (by decide), rawExtent_crlf]
  split
  · cases quotedExtent '"' cs <;> rfl
  split
  · cases hn : quotedExtent '\'' cs with
    | none => rfl
    | some n =>
      obtain ⟨body, rest, rfl, rfl, -⟩ := exists_quotedBody hn
      cases body with
      | nil => rfl
      | cons b body =>
        have hle := le_crlfExtent (quotedExtent_le hn)
        have hne : crlfExtent (b :: body ++ '\'' :: rest) ((b :: body).length + 1) ≠ 1 := by
          rw [List.length_cons] at hle ⊢
          omega
        rw [Option.map_some, Option.bind_some, Option.bind_some, if_neg hne, if_neg (by simp)]
        rfl
  split
  · cases rawExtent cs <;> rfl
  · rfl

theorem scanPunct_crlf (hfeed : c ≠ '\n') (cs : List Char) :
    scanPunct (c :: crlf cs) = (scanPunct (c :: cs)).map (crlfFound cs) := by
  rw [← crlf_cons hfeed, scanPunct, scanPunct, longest?_crlf]
  cases hp : Punct.longest? (c :: cs) with
  | none => rfl
  | some p =>
    obtain ⟨d, ds, hd, -⟩ := punct_head p
    have hpre := longest?_eq_some hp
    have hsize : p.text.length - 1 = ds.length := by
      rw [← String.length_toList, hd]
      rfl
    have hds : '\n' ∉ ds := fun h =>
      not_mem_blanks_of_mem_text p '\n' (hd ▸ List.mem_cons_of_mem d h) (by decide)
    rw [hd, List.cons_prefix_cons] at hpre
    obtain ⟨rest, rfl⟩ := hpre.2
    rw [Option.map_some, Option.map_some, crlfFound_mk, hsize, crlfExtent_append,
      crlf_of_not_mem hds]

/-- **A piece has the same kind in both texts**, if it begins with no line end. -/
theorem scan_crlf (hfeed : c ≠ '\n') (hreturn : c ≠ '\r') (cs : List Char) :
    scan c (crlf cs) = crlfFound cs (scan c cs) := by
  have hnumber : startsNumber c (crlf cs) = startsNumber c cs := by
    rw [startsNumber, startsNumber, any_head?_crlf isDigit_blanks]
  have hhex : isHex (c :: crlf cs) = isHex (c :: cs) := by
    rw [isHex_cons, isHex_cons, any_head?_crlf (by decide)]
  have hcomment : (if c = '/' then scanComment (crlf cs) else none) =
      (if c = '/' then scanComment cs else none).map (crlfFound cs) := by
    split
    · exact scanComment_crlf cs
    · rfl
  unfold scan
  rw [hnumber, hhex, hcomment, scanQuoted_crlf, scanPunct_crlf hfeed, numberExtent_crlf,
    takeWhile_crlf rfl rfl, takeWhile_crlf (by decide) (by decide), if_neg hfeed, if_neg hreturn,
    if_neg hfeed, if_neg hreturn]
  split
  · rfl
  split
  · rfl
  split
  · rfl
  split
  · rfl
  dsimp only
  rw [← Option.map_or, ← Option.map_or]
  exact Option.getD_map (crlfFound cs) (.stray, 0) _

end Scan

end GoDecls
