/-
  The shapes of quoted literals.

  * `QuotedBody quote body`: `body` may stand between two quotes on a line;
  * `quotedExtent_eq_some_iff` and `rawExtent_eq_some_iff`: the scanner of a literal
    finds its end exactly behind such a body;
  * `QuotedTail c k t`: `t` completes a literal of kind `k` that begins with `c`;
  * `scanQuoted_append_iff`: these are the literals that are found, whatever follows.
-/
import Mathlib.Tactic.Common
import GoDecls.Token.Scan

namespace GoDecls.Scan

/-- Characters that may stand between two quotes on a line: a backslash takes the
    next character with it, and a quote or line end needs one before it. -/
inductive QuotedBody (quote : Char) : List Char → Prop where
  | nil : QuotedBody quote []
  | plain {c : Char} {cs : List Char} (hquote : c ≠ quote) (hslash : c ≠ '\\')
    (hline : isLineEnd c = false) (h : QuotedBody quote cs) : QuotedBody quote (c :: cs)
  | escaped {d : Char} {cs : List Char} (hd : d ≠ '\n') (h : QuotedBody quote cs) :
    QuotedBody quote ('\\' :: d :: cs)

variable {quote : Char} {body cs rest : List Char} {n : Nat}

theorem quotedExtent_quote : quotedExtent quote (quote :: cs) = some 1 := by
  rw [quotedExtent.eq_def]
  simp

theorem quotedExtent_escaped {d : Char} (hq : quote ≠ '\\') (hd : d ≠ '\n') :
    quotedExtent quote ('\\' :: d :: cs) = (quotedExtent quote cs).map (· + 2) := by
  rw [quotedExtent.eq_def]
  simp [hq.symm, hd]

theorem quotedExtent_plain {c : Char} (hquote : c ≠ quote) (hslash : c ≠ '\\')
    (hline : isLineEnd c = false) :
    quotedExtent quote (c :: cs) = (quotedExtent quote cs).map (· + 1) := by
  rw [quotedExtent.eq_def]
  simp [hquote, hslash, hline]

theorem quotedExtent_of_body (hq : quote ≠ '\\') (h : QuotedBody quote body) :
    quotedExtent quote (body ++ quote :: rest) = some (body.length + 1) := by
  induction h with
  | nil => exact quotedExtent_quote
  | plain hquote hslash hline _ ih =>
    rw [List.cons_append, quotedExtent_plain hquote hslash hline, ih]
    rfl
  | escaped hd _ ih =>
    rw [List.cons_append, List.cons_append, quotedExtent_escaped hq hd, ih]
    rfl

theorem exists_quotedBody (h : quotedExtent quote cs = some n) :
    ∃ body rest, cs = body ++ quote :: rest ∧ n = body.length + 1 ∧ QuotedBody quote body := by
  fun_induction quotedExtent quote cs generalizing n with
  | case1 => cases h
  | case2 cs =>
    cases h
    exact ⟨[], cs, rfl, rfl, .nil⟩
  | case3 => cases h
  | case4 => cases h
  | case5 d ds hd _ ih =>
    obtain ⟨m, hm, rfl⟩ := Option.map_eq_some_iff.1 h
    obtain ⟨body, rest, rfl, rfl, hbody⟩ := ih hm
    exact ⟨_, rest, rfl, rfl, .escaped hd hbody⟩
  | case6 => cases h
  | case7 c cs hquote hslash hline ih =>
    obtain ⟨m, hm, rfl⟩ := Option.map_eq_some_iff.1 h
    obtain ⟨body, rest, rfl, rfl, hbody⟩ := ih hm
    exact ⟨c :: body, rest, rfl, rfl, .plain hquote hslash (by simpa using hline) hbody⟩

/-- **A quoted literal ends behind a body.** -/
theorem quotedExtent_eq_some_iff (hq : quote ≠ '\\') : quotedExtent quote cs = some n ↔
    ∃ body rest, cs = body ++ quote :: rest ∧ n = body.length + 1 ∧ QuotedBody quote body := by
  refine ⟨exists_quotedBody, ?_⟩
  rintro ⟨body, rest, rfl, rfl, h⟩
  exact quotedExtent_of_body hq h

/-- **A raw string ends at the next quote.** -/
theorem rawExtent_eq_some_iff : rawExtent cs = some n ↔
    ∃ body rest, cs = body ++ backquote :: rest ∧ n = body.length + 1 ∧ backquote ∉ body := by
  induction cs generalizing n with
  | nil => simp [rawExtent]
  | cons c cs ih =>
    have hstep : rawExtent (c :: cs) =
        if c = backquote then some 1 else (rawExtent cs).map (· + 1) := by
      rw [rawExtent, List.findIdx?_cons]
      by_cases hc : c = backquote <;> simp [hc, rawExtent, Function.comp_def]
    rw [hstep]
    split
    · next hc =>
      subst hc
      constructor
      · rintro ⟨⟩
        exact ⟨[], cs, rfl, rfl, List.not_mem_nil⟩
      · rintro ⟨body, rest, hcs, rfl, hbody⟩
        cases body with
        | nil => rfl
        | cons d body =>
          cases hcs
          exact absurd List.mem_cons_self hbody
    · next hc =>
      rw [Option.map_eq_some_iff]
      constructor
      · rintro ⟨m, hm, rfl⟩
        obtain ⟨body, rest, rfl, rfl, hbody⟩ := ih.1 hm
        exact ⟨c :: body, rest, rfl, rfl, List.not_mem_cons_of_ne_of_not_mem (Ne.symm hc) hbody⟩
      · rintro ⟨body, rest, hcs, rfl, hbody⟩
        cases body with
        | nil =>
          cases hcs
          exact absurd rfl hc
        | cons d body =>
          cases hcs
          exact ⟨_, ih.2 ⟨body, rest, rfl, rfl, fun h => hbody (List.mem_cons_of_mem _ h)⟩, rfl⟩

/-! ## Literals with something behind them -/

variable {t r : List Char}

theorem eq_append_singleton_of_length {c : Char} (h : t ++ r = body ++ c :: rest)
    (hlen : t.length = body.length + 1) : t = body ++ [c] := by
  have hsplit : t ++ r = (body ++ [c]) ++ rest := by rw [h, List.append_assoc, List.singleton_append]
  exact (List.append_inj hsplit (by simpa using hlen)).1

theorem quotedExtent_append_iff (hq : quote ≠ '\\') :
    quotedExtent quote (t ++ r) = some t.length ↔
      ∃ body, t = body ++ [quote] ∧ QuotedBody quote body := by
  rw [quotedExtent_eq_some_iff hq]
  constructor
  · rintro ⟨body, rest, h, hlen, hbody⟩
    exact ⟨body, eq_append_singleton_of_length h hlen, hbody⟩
  · rintro ⟨body, rfl, hbody⟩
    exact ⟨body, r, by simp, by simp, hbody⟩

theorem rawExtent_append_iff : rawExtent (t ++ r) = some t.length ↔
    ∃ body, t = body ++ [backquote] ∧ backquote ∉ body := by
  rw [rawExtent_eq_some_iff]
  constructor
  · rintro ⟨body, rest, h, hlen, hbody⟩
    exact ⟨body, eq_append_singleton_of_length h hlen, hbody⟩
  · rintro ⟨body, rfl, hbody⟩
    exact ⟨body, r, by simp, by simp, hbody⟩

/-- What completes a literal of this kind behind its first quote. -/
inductive QuotedTail : Char → Piece → List Char → Prop where
  | string {body : List Char} (h : QuotedBody '"' body) :
    QuotedTail '"' .string (body ++ ['"'])
  | rune {body : List Char} (h : QuotedBody '\'' body) (hne : body ≠ []) :
    QuotedTail '\'' .rune (body ++ ['\''])
  | rawString {body : List Char} (h : backquote ∉ body) :
    QuotedTail backquote .rawString (body ++ [backquote])

/-- **A literal is found where it is complete**, whatever follows. -/
theorem scanQuoted_append_iff {c : Char} {k : Piece} :
    scanQuoted c (t ++ r) = some (k, t.length) ↔ QuotedTail c k t := by
  constructor
  · intro h
    rw [scanQuoted] at h
    split at h
    · next hc =>
      obtain ⟨m, hm, hk⟩ := Option.map_eq_some_iff.1 h
      obtain ⟨rfl, rfl⟩ := Prod.mk.inj hk
      obtain ⟨body, rfl, hbody⟩ := (quotedExtent_append_iff (by decide)).1 hm
      exact hc ▸ .string hbody
    split at h
    · next hc =>
      obtain ⟨m, hm, hk⟩ := Option.bind_eq_some_iff.1 h
      split at hk
      · cases hk
      · next hone =>
        obtain ⟨rfl, rfl⟩ := Prod.mk.inj (Option.some.inj hk)
        obtain ⟨body, rfl, hbody⟩ := (quotedExtent_append_iff (by decide)).1 hm
        exact hc ▸ .rune hbody fun hnil => hone (by rw [hnil]; rfl)
    split at h
    · next hc =>
      obtain ⟨m, hm, hk⟩ := Option.map_eq_some_iff.1 h
      obtain ⟨rfl, rfl⟩ := Prod.mk.inj hk
      obtain ⟨body, rfl, hbody⟩ := rawExtent_append_iff.1 hm
      exact hc ▸ .rawString hbody
    · cases h
  · intro h
    cases h with
    | string h =>
      rw [scanQuoted, if_pos rfl, (quotedExtent_append_iff (by decide)).2 ⟨_, rfl, h⟩]
      rfl
    | @rune body h hne =>
      have hone : (body ++ ['\'']).length ≠ 1 := by
        simpa using hne
      rw [scanQuoted, if_neg (by decide), if_pos rfl,
        (quotedExtent_append_iff (by decide)).2 ⟨_, rfl, h⟩, Option.bind_some, if_neg hone]
    | rawString h =>
      rw [scanQuoted, if_neg (by decide), if_neg (by decide), if_pos rfl,
        rawExtent_append_iff.2 ⟨_, rfl, h⟩]
      rfl

end GoDecls.Scan
